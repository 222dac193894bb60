import Sshnack.ServiceCalls
import Sshnack.TxnSerial
import Sshnack.Seed

/-!
# Operations that overlap

`BEGIN IMMEDIATE` on the shared handle fails while another operation's transaction is open, and the
operation then returns an error without having read anything. As long as no operation begins during
another one's transaction, the operations return what they return in a serial order.
-/

namespace Sshnack

open Txn Machine

variable {ι : Type} [DecidableEq ι]

/-- Any interleaving of the SQLite calls of the operations in which SQLite reports no fault. -/
def overlapped (calls : ι → TxnOp) (db : Db) (sched : List ι) :
    World Db Stmt Row (Except Int32 Answer) ι :=
  run (World.quietly Stmt.perform) (World.start (fun i => (calls i).prog) db) sched

/-- The operations that have returned have the results and the effect of a serial order of them. -/
def ActsSerially (calls : ι → TxnOp) (db : Db) (w : World Db Stmt Row (Except Int32 Answer) ι) :
    Prop :=
  ∃ is, SerialOutcome Stmt.perform (fun i => (calls i).prog) db is w

theorem overlapped_serially [Fintype ι] (calls : ι → TxnOp) (db : Db) (sched : List ι)
    (hfree : Meets (World.quietly Stmt.perform) World.BeginsFree
      (World.start (fun i => (calls i).prog) db) sched) :
    ActsSerially calls db (overlapped calls db sched) :=
  serial_run (fun i => (calls i).bracketed) db sched hfree

def twoDeposits : Bool → TxnOp
  | false => .balanceDeposit 1 100
  | true => .balanceDeposit 1 200

/-- Each deposit makes its six calls in one go. -/
def oneAfterAnother : List Bool := List.replicate 6 false ++ List.replicate 6 true

theorem overlapped_serially_oneAfterAnother :
    ActsSerially twoDeposits seed (overlapped twoDeposits seed oneAfterAnother) ∧
      (∀ i, ((overlapped twoDeposits seed oneAfterAnother).prog i).result = some (.ok (.code 0))) ∧
      ((overlapped twoDeposits seed oneAfterAnother).conn.committed.findUser 1).map User.balance =
        some 300 :=
  ⟨overlapped_serially twoDeposits seed oneAfterAnother (by decide), by decide,
    by decide⟩

/-- The second deposit begins while the first one's transaction is open. -/
def atTheSameTime : List Bool := [false, true, false, false, false, false, false]

theorem overlapped_not_always_serially :
    ¬ ∀ (calls : Bool → TxnOp) (db : Db) (sched : List Bool),
      ActsSerially calls db (overlapped calls db sched) := by
  intro h
  obtain ⟨is, hserial⟩ := h twoDeposits seed atTheSameTime
  have hall : ∀ i, i ∈ is := by
    intro i
    apply (hserial.returned i).2
    revert i
    decide
  have hperm : is.Perm [false, true] := by
    apply (List.perm_ext_iff_of_nodup hserial.once (by decide)).2
    intro i
    simp [hall i]
  have hboth : ∀ i j, [i, j].Nodup →
      (serially Stmt.perform (fun i => (twoDeposits i).prog) [i, j] seed).1 =
        [.ok (.code 0), .ok (.code 0)] := by
    decide
  obtain ⟨i, j, rfl⟩ := List.length_eq_two.1 hperm.length_eq
  have hrefused : ((overlapped twoDeposits seed atTheSameTime).prog true).result =
      some (.error (-1)) := by
    decide
  have hmem := List.mem_map_of_mem (f := (overlapped twoDeposits seed atTheSameTime).prog) (hall true)
  rw [hserial.results, hboth i j hserial.once] at hmem
  have hok : (overlapped twoDeposits seed atTheSameTime).prog true = .ret (.ok (.code 0)) := by
    simpa using hmem
  rw [hok] at hrefused
  cases hrefused

end Sshnack
