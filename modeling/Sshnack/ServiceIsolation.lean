import Sshnack.Seed
import Sshnack.ServiceCalls
import Sshnack.TxnOrder

/-!
# Isolation of the services on the shared handle

The workers share one `sqlite3` handle. `interleaved` is any interleaving of the SQLite calls of any
family of operations and readers, each call failing or not as the schedule says; in `faulted` a failure
may also end the open transaction. The services answer every failure with ROLLBACK, whether or not they
still have a transaction: if SQLite has ended it and another call has begun meanwhile, they end the
transaction of that call.
-/

namespace Sshnack

open Txn Machine

inductive SharedCall where
  | txn (op : TxnOp)
  | read (op : ReadOp)
  deriving DecidableEq

def SharedCall.prog : SharedCall → Service
  | .txn op => op.prog
  | .read op => op.prog

theorem SharedCall.bracketed_or_reading (call : SharedCall) :
    Bracketed call.prog ∨ Reading Stmt.perform call.prog := by
  cases call with
  | txn op => exact .inl op.bracketed
  | read op => exact .inr op.reading

variable {ι : Type} [DecidableEq ι]

def interleaved (calls : ι → SharedCall) (db : Db) (sched : List (ι × Bool)) :
    World Db Stmt Row (Except Int32 Answer) ι :=
  run (World.advance Stmt.perform) (World.start (fun i => (calls i).prog) db) sched

def ActsNext (w : World Db Stmt Row (Except Int32 Answer) ι) (i : ι) : Prop :=
  ∃ c next, w.prog i = .call c next ∧ c.actsInTxn = true

/-- An interleaving in which a failure may also end the open transaction. -/
def faulted (calls : ι → SharedCall) (db : Db) (sched : List (ι × Fault)) :
    World Db Stmt Row (Except Int32 Answer) ι :=
  run (World.suffer Stmt.perform) (World.start (fun i => (calls i).prog) db) sched

/-- No operation is about to act in a transaction that another call opened, and if no transaction is
open then the database and the results are those of the committed operations, each run once, in commit
order. -/
structure Isolated (calls : ι → SharedCall) (db : Db) (w : World Db Stmt Row (Except Int32 Answer) ι) :
    Prop where
  own : ∀ i op, calls i = .txn op → ActsNext w i → ∀ j, w.owner = some j → j = i
  once : w.conn.txn = none → w.commits.Nodup
  data : w.conn.txn = none → w.conn.committed =
    (serially Stmt.perform (fun i => (calls i).prog) w.commits db).2
  results : w.conn.txn = none → w.commits.map w.prog =
    (serially Stmt.perform (fun i => (calls i).prog) w.commits db).1.map .ret

theorem isolated_faulted (calls : ι → SharedCall) (db : Db) {sched : List (ι × Fault)}
    (hsafe : Meets (World.suffer Stmt.perform) Txn.Undisturbed
      (World.start (fun i => (calls i).prog) db) sched) :
    Isolated calls db (faulted calls db sched) := by
  have hkinds := kinds_of_isolated fun i => (calls i).bracketed_or_reading
  obtain ⟨order, horder⟩ := serialOrder_run hkinds db hsafe
  obtain rfl := horder.eq_commits fun i => (calls i).bracketed_or_reading
  obtain ⟨labels, hshadows⟩ := shadows_run hkinds.bracketed_or_plain db hsafe
  have hown := (owned_run (E := Stmt.perform) hkinds.bracketed_or_plain db labels).1
  refine ⟨?_, fun _ => horder.once, fun _ => horder.follows.data, fun _ => horder.follows.results⟩
  rintro i op hop ⟨c, next, hprog, hacts⟩ j hj
  have hb : Bracketed (calls i).prog := by
    rw [hop]
    exact op.bracketed
  exact hshadows.acts_in_own hown hb hprog hacts hj

/-- In every run in which no failure ends another call's transaction, and no operation begins between a
failure that ended a transaction and the ROLLBACK of its owner; so in every run in which each failure
leaves the transaction open. -/
theorem isolated_of_undisturbed (calls : ι → SharedCall) (db : Db) :
    (∀ sched : List (ι × Fault), Meets (World.suffer Stmt.perform) Txn.Undisturbed
        (World.start (fun i => (calls i).prog) db) sched →
      Isolated calls db (faulted calls db sched)) ∧
    ∀ sched : List (ι × Bool), Isolated calls db (interleaved calls db sched) := by
  refine ⟨fun sched hsafe => isolated_faulted calls db hsafe, fun sched => ?_⟩
  have hkinds := kinds_of_isolated fun i => (calls i).bracketed_or_reading
  obtain ⟨hmeets, hrun⟩ := meets_kept (E := Stmt.perform) hkinds.bracketed_or_plain db sched
  rw [interleaved, ← hrun]
  exact isolated_faulted calls db hmeets

def twoUsers : Bool → SharedCall
  | false => .txn (.balanceDeposit 1 100)
  | true => .txn (.balanceDeposit 2 200)

/-- The first deposit loses its transaction when it logs, rolls back, and the second one follows. -/
def endedBefore : List (Bool × Fault) :=
  List.replicate 4 (false, .quiet) ++ [(false, .ends), (false, .quiet)] ++
    List.replicate 6 (true, .quiet)

theorem isolated_of_undisturbed_endedBefore :
    Isolated twoUsers seed (faulted twoUsers seed endedBefore) ∧
      (faulted twoUsers seed endedBefore).commits = [true] :=
  ⟨(isolated_of_undisturbed twoUsers seed).1 endedBefore (by decide), by decide⟩

/-- The second deposit begins before the ROLLBACK of the first one, which then ends its transaction. -/
def endedAround : List (Bool × Fault) :=
  List.replicate 4 (false, .quiet) ++ [(false, .ends), (true, .quiet), (false, .quiet)] ++
    List.replicate 6 (true, .quiet)

/-- Its UPDATE is then committed by itself, although both deposits return a failure. -/
theorem isolated_not_always : ¬ ∀ (calls : Bool → SharedCall) (db : Db) (sched : List (Bool × Fault)),
    Isolated calls db (faulted calls db sched) := by
  intro h
  have hdata := (h twoUsers seed endedAround).data (by decide)
  have hcommits : (faulted twoUsers seed endedAround).commits = [] := by decide
  rw [hcommits] at hdata
  have hcredited : ((faulted twoUsers seed endedAround).conn.committed.findUser 2).map User.balance =
      some 200 := by
    decide
  rw [hdata] at hcredited
  exact absurd hcredited (by decide)

end Sshnack
