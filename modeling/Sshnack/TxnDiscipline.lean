import Sshnack.TxnProgram

/-!
# Transaction discipline

`Bracketed` describes an operation that opens a transaction, works inside it, and leaves through one
of three doors: COMMIT answered `ok` and a success exit, a ROLLBACK, or (before any work) a failure
exit because BEGIN was refused or the arguments were rejected. Inside the transaction every failed
call leads straight to ROLLBACK and a failure exit.

A bracketed operation run with arbitrary faults either fails and changes nothing, or does exactly
what its fault-free run does. So the fault-free run is the operation's abstract, atomic meaning.
-/

namespace Txn

variable {δ σ ρ ε α : Type}

/-- ROLLBACK, then a failure exit. -/
def Aborts (p : Prog σ ρ (Except ε α)) : Prop :=
  ∃ e next, p = .call .rollback next ∧ ∀ r, next r = .ret (.error e)

def InTxn : Prog σ ρ (Except ε α) → Prop
  | .ret _ => False
  | .call .begin _ => False
  | .call .rollback next => ∃ x, ∀ r, next r = .ret x
  | .call .commit next => (∃ a, next .ok = .ret (.ok a)) ∧ ∀ r, r ≠ .ok → Aborts (next r)
  | .call (.prepare _) next => Aborts (next .error) ∧ ∀ r, InTxn (next r)
  | .call (.step _) next => Aborts (next .error) ∧ ∀ r, InTxn (next r)

def Bracketed : Prog σ ρ (Except ε α) → Prop
  | .ret x => ∃ e, x = .error e
  | .call .begin next => (∀ r, r ≠ .ok → ∃ e, next r = .ret (.error e)) ∧ InTxn (next .ok)
  | .call _ _ => False

theorem Aborts.inTxn {p : Prog σ ρ (Except ε α)} (h : Aborts p) : InTxn p := by
  obtain ⟨e, next, rfl, hnext⟩ := h
  exact ⟨.error e, hnext⟩

/-- What a faulty run may amount to, given the committed data before it and its fault-free run: it
ends with no transaction open, a failure exit keeps the committed data, and a run that is not a mere
failure is the fault-free one. -/
structure Contained (c : δ) (quiet r : Except ε α × Conn δ) : Prop where
  closed : r.2.txn = none
  kept : ∀ e, r.1 = .error e → r.2.committed = c
  faithful : (∃ e, r.1 = .error e) ∨ r = quiet

theorem Contained.of_failure (c : δ) (quiet : Except ε α × Conn δ) (e : ε) :
    Contained c quiet (.error e, ⟨c, none⟩) :=
  ⟨rfl, fun _ _ => rfl, .inl ⟨e, rfl⟩⟩

theorem Aborts.run {p : Prog σ ρ (Except ε α)} (h : Aborts p) (E : Engine δ σ ρ) (flt : ℕ → Bool)
    (c d : δ) : ∃ e, p.run E flt ⟨c, some d⟩ = (.error e, ⟨c, none⟩) := by
  obtain ⟨e, next, rfl, hnext⟩ := h
  exact ⟨e, by simp [Prog.run_call, Call.mayFail, Conn.perform, hnext]⟩

theorem Aborts.contained {p : Prog σ ρ (Except ε α)} (h : Aborts p) (E : Engine δ σ ρ)
    (flt : ℕ → Bool) (c d : δ) (quiet : Except ε α × Conn δ) :
    Contained c quiet (p.run E flt ⟨c, some d⟩) := by
  obtain ⟨e, he⟩ := h.run E flt c d
  rw [he]
  exact .of_failure c quiet e

theorem InTxn.contained {p : Prog σ ρ (Except ε α)} (hp : InTxn p) (E : Engine δ σ ρ)
    (flt : ℕ → Bool) (c d : δ) :
    Contained c (p.quietRun E ⟨c, some d⟩) (p.run E flt ⟨c, some d⟩) := by
  induction p generalizing flt d with
  | ret x => exact hp.elim
  | call a next ih =>
    cases a with
    | begin => exact hp.elim
    | rollback =>
      obtain ⟨x, hx⟩ := hp
      simp only [Prog.run_call, Call.mayFail, Bool.and_false, Conn.answer_quiet, Conn.perform, hx,
        Prog.run_ret, Prog.quietRun_call, Prog.quietRun_ret]
      exact ⟨rfl, fun _ _ => rfl, .inr rfl⟩
    | commit =>
      obtain ⟨⟨a, ha⟩, hbad⟩ := hp
      cases hf : flt 0 with
      | true =>
        rw [Prog.run_call_fault E next _ hf rfl]
        exact (hbad .error (by simp)).contained E _ c d _
      | false =>
        simp only [Prog.run_call_quiet E _ next _ hf, Conn.perform, ha, Prog.run_ret,
          Prog.quietRun_call, Prog.quietRun_ret]
        exact ⟨rfl, fun e he => (by cases he), .inr rfl⟩
    | prepare s =>
      cases hf : flt 0 with
      | true =>
        rw [Prog.run_call_fault E next _ hf rfl]
        exact hp.1.contained E _ c d _
      | false =>
        rw [Prog.run_call_quiet E _ next _ hf]
        exact ih .ok (hp.2 .ok) _ d
    | step s =>
      cases hf : flt 0 with
      | true =>
        rw [Prog.run_call_fault E next _ hf rfl]
        exact hp.1.contained E _ c d _
      | false =>
        simp only [Prog.run_call_quiet E _ next _ hf, Conn.perform, Prog.quietRun_call,
          Conn.view_some]
        rcases E s d with _ | ⟨d', _ | r⟩
        · exact ih .error (hp.2 .error) _ d
        · exact ih .done (hp.2 .done) _ d'
        · exact ih (.row r) (hp.2 (.row r)) _ d'

/-- Faults can only turn a bracketed operation into one that fails and changes nothing. -/
theorem Bracketed.contained {p : Prog σ ρ (Except ε α)} (hp : Bracketed p) (E : Engine δ σ ρ)
    (flt : ℕ → Bool) (d : δ) : Contained d (p.quietRun E ⟨d, none⟩) (p.run E flt ⟨d, none⟩) := by
  cases p with
  | ret x =>
    obtain ⟨e, rfl⟩ := hp
    exact .of_failure d _ e
  | call a next =>
    cases a with
    | begin =>
      cases hf : flt 0 with
      | true =>
        obtain ⟨e, he⟩ := hp.1 .error (by simp)
        rw [Prog.run_call_fault E next _ hf rfl, he]
        exact .of_failure d _ e
      | false =>
        rw [Prog.run_call_quiet E _ next _ hf]
        exact hp.2.contained E _ d d
    | commit => exact hp.elim
    | rollback => exact hp.elim
    | prepare s => exact hp.elim
    | step s => exact hp.elim

theorem Bracketed.quietRun_eq {p : Prog σ ρ (Except ε α)} (hp : Bracketed p) (E : Engine δ σ ρ)
    (d : δ) : p.quietRun E ⟨d, none⟩ = ((p.atomically E d).1, ⟨(p.atomically E d).2, none⟩) := by
  have h := (hp.contained E (fun _ => false) d).closed
  rw [Prog.run_quiet] at h
  unfold Prog.atomically
  generalize p.quietRun E ⟨d, none⟩ = r at h
  obtain ⟨x, c, t⟩ := r
  exact congrArg (fun t => (x, Conn.mk c t)) h

/-- A faulty run is a failure without effect or the operation's atomic meaning. -/
theorem Bracketed.run_cases {p : Prog σ ρ (Except ε α)} (hp : Bracketed p) (E : Engine δ σ ρ)
    (flt : ℕ → Bool) (d : δ) :
    (∃ e, p.run E flt ⟨d, none⟩ = (.error e, ⟨d, none⟩)) ∨
      p.run E flt ⟨d, none⟩ = ((p.atomically E d).1, ⟨(p.atomically E d).2, none⟩) := by
  have h := hp.contained E flt d
  rcases h.faithful with ⟨e, he⟩ | hq
  · refine .inl ⟨e, Prod.ext he ?_⟩
    have hc := h.kept e he
    have ht := h.closed
    rcases hr : (p.run E flt ⟨d, none⟩).2 with ⟨c, t⟩
    rw [hr] at hc ht
    rw [show c = d from hc, show t = none from ht]
  · exact .inr (hq.trans (hp.quietRun_eq E d))

end Txn
