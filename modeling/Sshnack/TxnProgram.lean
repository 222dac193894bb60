import Mathlib.Tactic

/-!
# Programs of calls on one transactional connection

A connection holds the committed data and, while a transaction is open, the data as that transaction
sees it. A program is a tree of API calls: each call is answered with a result code, and the rest of
the program is chosen by that code. `Engine` gives the meaning of one data statement; the
transaction control around it is the same for every engine.

A failing call is answered with `error` and has no effect; `TxnFaults` has the failures that end the
transaction as well. `run` executes one program alone, with a fault stream choosing the calls that
fail; ROLLBACK is not among the calls that can be made to fail.
-/

namespace Txn

variable {δ σ ρ α β : Type}

inductive Reply (ρ : Type) where
  | ok
  | row (r : ρ)
  | done
  | error
  deriving DecidableEq

inductive Call (σ : Type) where
  | begin
  | commit
  | rollback
  | prepare (s : σ)
  | step (s : σ)
  deriving DecidableEq

def Call.mayFail : Call σ → Bool
  | .rollback => false
  | _ => true

structure Conn (δ : Type) where
  committed : δ
  txn : Option δ
  deriving DecidableEq

/-- One data statement on the visible data: `none` when it fails, otherwise the data after it and
the row it returns, if it returns one. -/
abbrev Engine (δ σ ρ : Type) := σ → δ → Option (δ × Option ρ)

namespace Conn

def view (k : Conn δ) : δ := k.txn.getD k.committed

def write (k : Conn δ) (d : δ) : Conn δ :=
  match k.txn with
  | none => ⟨d, none⟩
  | some _ => ⟨k.committed, some d⟩

def perform (E : Engine δ σ ρ) (k : Conn δ) : Call σ → Reply ρ × Conn δ
  | .begin => match k.txn with
    | none => (.ok, ⟨k.committed, some k.committed⟩)
    | some _ => (.error, k)
  | .commit => match k.txn with
    | none => (.error, k)
    | some d => (.ok, ⟨d, none⟩)
  | .rollback => match k.txn with
    | none => (.error, k)
    | some _ => (.ok, ⟨k.committed, none⟩)
  | .prepare _ => (.ok, k)
  | .step s => match E s k.view with
    | none => (.error, k)
    | some (d, none) => (.done, k.write d)
    | some (d, some r) => (.row r, k.write d)

def answer (E : Engine δ σ ρ) (fault : Bool) (c : Call σ) (k : Conn δ) : Reply ρ × Conn δ :=
  if fault then (.error, k) else k.perform E c

@[simp] theorem view_none (d : δ) : (Conn.mk d none).view = d := rfl

@[simp] theorem view_some (c d : δ) : (Conn.mk c (some d)).view = d := rfl

@[simp] theorem write_some (c d d' : δ) : (Conn.mk c (some d)).write d' = ⟨c, some d'⟩ := rfl

@[simp] theorem view_write (k : Conn δ) (d : δ) : (k.write d).view = d := by
  rcases k with ⟨c, _ | t⟩ <;> rfl

@[simp] theorem answer_fault (E : Engine δ σ ρ) (c : Call σ) (k : Conn δ) :
    k.answer E true c = (.error, k) := rfl

@[simp] theorem answer_quiet (E : Engine δ σ ρ) (c : Call σ) (k : Conn δ) :
    k.answer E false c = k.perform E c := rfl

theorem perform_step_none {E : Engine δ σ ρ} {s : σ} {k : Conn δ} (h : E s k.view = none) :
    k.perform E (.step s) = (.error, k) := by
  simp only [perform, h]

theorem perform_step_done {E : Engine δ σ ρ} {s : σ} {k : Conn δ} {d : δ}
    (h : E s k.view = some (d, none)) : k.perform E (.step s) = (.done, k.write d) := by
  simp only [perform, h]

theorem perform_step_row {E : Engine δ σ ρ} {s : σ} {k : Conn δ} {d : δ} {r : ρ}
    (h : E s k.view = some (d, some r)) : k.perform E (.step s) = (.row r, k.write d) := by
  simp only [perform, h]

theorem perform_step_isSome (E : Engine δ σ ρ) (s : σ) (k : Conn δ) :
    (k.perform E (.step s)).2.txn.isSome = k.txn.isSome := by
  rcases k with ⟨c, t⟩
  simp only [perform]
  rcases E s (Conn.mk c t).view with _ | ⟨d, o⟩
  · rfl
  · cases t <;> cases o <;> rfl

end Conn

inductive Prog (σ ρ α : Type) where
  | ret (a : α)
  | call (c : Call σ) (next : Reply ρ → Prog σ ρ α)

namespace Prog

def bind : Prog σ ρ α → (α → Prog σ ρ β) → Prog σ ρ β
  | .ret a, f => f a
  | .call c next, f => .call c (fun r => (next r).bind f)

instance : Monad (Prog σ ρ) where
  pure := .ret
  bind := Prog.bind

def exec (c : Call σ) : Prog σ ρ (Reply ρ) := .call c .ret

/-- What the program returned, once it has. -/
def result : Prog σ ρ α → Option α
  | .ret a => some a
  | .call _ _ => none

/-- The next call of the program. -/
def nextCall : Prog σ ρ α → Option (Call σ)
  | .ret _ => none
  | .call c _ => some c

@[simp] theorem pure_eq (a : α) : (pure a : Prog σ ρ α) = .ret a := rfl

@[simp] theorem ret_bind (a : α) (f : α → Prog σ ρ β) : (Prog.ret a >>= f) = f a := rfl

@[simp] theorem call_bind (c : Call σ) (next : Reply ρ → Prog σ ρ α) (f : α → Prog σ ρ β) :
    (Prog.call c next >>= f) = .call c (fun r => next r >>= f) := rfl

@[simp] theorem exec_bind (c : Call σ) (f : Reply ρ → Prog σ ρ β) :
    (exec c >>= f) = .call c f := rfl

@[simp] theorem ite_bind (p : Prop) [Decidable p] (x y : Prog σ ρ α) (f : α → Prog σ ρ β) :
    ((if p then x else y) >>= f) = if p then x >>= f else y >>= f := by
  split <;> rfl

def run (E : Engine δ σ ρ) : Prog σ ρ α → (ℕ → Bool) → Conn δ → α × Conn δ
  | .ret a, _, k => (a, k)
  | .call c next, flt, k =>
      run E (next (k.answer E (flt 0 && c.mayFail) c).1) (fun n => flt (n + 1))
        (k.answer E (flt 0 && c.mayFail) c).2

/-- The run in which no call is made to fail. -/
def quietRun (E : Engine δ σ ρ) : Prog σ ρ α → Conn δ → α × Conn δ
  | .ret a, k => (a, k)
  | .call c next, k => quietRun E (next (k.perform E c).1) (k.perform E c).2

@[simp] theorem run_ret (E : Engine δ σ ρ) (a : α) (flt : ℕ → Bool) (k : Conn δ) :
    run E (.ret a) flt k = (a, k) := rfl

theorem run_call (E : Engine δ σ ρ) (c : Call σ) (next : Reply ρ → Prog σ ρ α) (flt : ℕ → Bool)
    (k : Conn δ) : run E (.call c next) flt k =
      run E (next (k.answer E (flt 0 && c.mayFail) c).1) (fun n => flt (n + 1))
        (k.answer E (flt 0 && c.mayFail) c).2 := rfl

theorem run_call_fault (E : Engine δ σ ρ) {c : Call σ} (next : Reply ρ → Prog σ ρ α)
    {f : ℕ → Bool} (k : Conn δ) (hf : f 0 = true) (hc : c.mayFail = true) :
    run E (.call c next) f k = run E (next .error) (fun n => f (n + 1)) k := by
  simp only [run_call, hf, hc, Bool.and_self, Conn.answer_fault]

theorem run_call_quiet (E : Engine δ σ ρ) (c : Call σ) (next : Reply ρ → Prog σ ρ α)
    {f : ℕ → Bool} (k : Conn δ) (hf : f 0 = false) : run E (.call c next) f k =
      run E (next (k.perform E c).1) (fun n => f (n + 1)) (k.perform E c).2 := by
  simp only [run_call, hf, Bool.false_and, Conn.answer_quiet]

@[simp] theorem quietRun_ret (E : Engine δ σ ρ) (a : α) (k : Conn δ) :
    quietRun E (.ret a) k = (a, k) := rfl

@[simp] theorem quietRun_call (E : Engine δ σ ρ) (c : Call σ) (next : Reply ρ → Prog σ ρ α)
    (k : Conn δ) : quietRun E (.call c next) k =
      quietRun E (next (k.perform E c).1) (k.perform E c).2 := rfl

theorem run_quiet (E : Engine δ σ ρ) (p : Prog σ ρ α) (k : Conn δ) :
    run E p (fun _ => false) k = quietRun E p k := by
  induction p generalizing k with
  | ret a => rfl
  | call c next ih => exact ih _ _

theorem bind_bind {γ : Type} (p : Prog σ ρ α) (f : α → Prog σ ρ β) (g : β → Prog σ ρ γ) :
    (p >>= f >>= g) = p >>= fun a => f a >>= g := by
  induction p with
  | ret a => rfl
  | call c next ih =>
    have hnext : (fun r => next r >>= f >>= g) = fun r => next r >>= fun a => f a >>= g := funext ih
    exact congrArg (Prog.call c) hnext

theorem run_bind (E : Engine δ σ ρ) (p : Prog σ ρ α) (f : α → β) (flt : ℕ → Bool) (k : Conn δ) :
    run E (p >>= fun a => .ret (f a)) flt k = (f (run E p flt k).1, (run E p flt k).2) := by
  induction p generalizing flt k with
  | ret a => rfl
  | call c next ih => exact ih _ _ _

/-- The run alone, without faults, from committed data and with no transaction open. -/
def atomically (E : Engine δ σ ρ) (p : Prog σ ρ α) (d : δ) : α × δ :=
  ((quietRun E p ⟨d, none⟩).1, (quietRun E p ⟨d, none⟩).2.committed)

end Prog
end Txn
