import Sshnack.TxnIsolation

/-!
# Interleavings in which ROLLBACK does not fail

`turn` is the step of the interleaving when the calls that may be made to fail are those of `run`: all
but ROLLBACK. Then an open transaction always has an owner that is still at work on it, so once every
thread has returned no transaction is left open.
-/

namespace Txn

variable {δ σ ρ ε α ι : Type} [DecidableEq ι] {E : Engine δ σ ρ}
  {calls : ι → Prog σ ρ (Except ε α)} {w : World δ σ ρ (Except ε α) ι}

/-- Whether the next call of the program is one that may be made to fail. -/
def mayFailNext (p : Prog σ ρ α) : Bool := p.nextCall.all Call.mayFail

namespace World

def turn (E : Engine δ σ ρ) (w : World δ σ ρ α ι) (x : ι × Bool) : World δ σ ρ α ι :=
  w.advance E (x.1, x.2 && mayFailNext (w.prog x.1))

theorem turn_ret (E : Engine δ σ ρ) {w : World δ σ ρ α ι} {x : ι × Bool} {a : α}
    (h : w.prog x.1 = .ret a) : w.turn E x = w :=
  advance_ret E (x := (x.1, _)) h

theorem turn_call (E : Engine δ σ ρ) {w : World δ σ ρ α ι} {x : ι × Bool} {c : Call σ}
    {next : Reply ρ → Prog σ ρ α} (h : w.prog x.1 = .call c next) {r : Reply ρ} {k : Conn δ}
    (ha : w.conn.answer E (x.2 && c.mayFail) c = (r, k)) :
    w.turn E x = ⟨k, Function.update w.prog x.1 (next r), ownerAfter x.1 c r w.owner,
      w.commits ++ committer x.1 c r⟩ := by
  have hmay : mayFailNext (w.prog x.1) = c.mayFail := by
    rw [h]
    rfl
  unfold turn
  rw [hmay]
  exact advance_call E (x := (x.1, x.2 && c.mayFail)) h ha

end World

/-- The owner of the open transaction has not returned. -/
structure Tidy (calls : ι → Prog σ ρ (Except ε α)) (w : World δ σ ρ (Except ε α) ι) : Prop where
  owned : Owned calls w
  active : ∀ i, w.owner = some i → InTxn (w.prog i)

omit [DecidableEq ι] in
theorem tidy_start (h : ∀ i, Bracketed (calls i) ∨ Plain (calls i)) (d : δ) :
    Tidy calls (World.start calls d) := ⟨owned_start h d, fun i hi => by cases hi⟩

theorem Tidy.of_move (h : Tidy calls w) {x : ι × Bool} {w' : World δ σ ρ (Except ε α) ι}
    (hroll : ∀ next, w.prog x.1 = .call .rollback next → x.2 = false)
    (hm : Move E calls w x w') : Tidy calls w' := by
  refine ⟨h.owned.of_move hm, ?_⟩
  have hother : ∀ {p : Prog σ ρ (Except ε α)} {i : ι}, w.owner = some i → i ≠ x.1 →
      InTxn (Function.update w.prog x.1 p i) := by
    intro p i hi hne
    rw [Function.update_of_ne hne]
    exact h.active i hi
  cases hm with
  | refused e howner hb =>
    intro i hi
    exact hother hi fun he => howner (he ▸ hi)
  | began d next hconn hb hcall hin =>
    intro i hi
    obtain rfl : x.1 = i := Option.some.inj hi
    simpa only [Function.update_self] using hin
  | worked c d d' p howner hconn hna hin hq =>
    intro i hi
    obtain rfl : x.1 = i := Option.some.inj hi
    simpa only [Function.update_self] using hin
  | committed => exact fun i hi => by cases hi
  | rolledBack => exact fun i hi => by cases hi
  | stranded y next howner hfault hprog =>
    rw [hroll next hprog] at hfault
    cases hfault
  | plain k p hb htxn hp hread =>
    intro i hi
    exact hother hi fun he => hb (he ▸ (h.owned.holder i hi).1)

theorem Tidy.turn (h : Tidy calls w) (E : Engine δ σ ρ) (x : ι × Bool) :
    Tidy calls (w.turn E x) := by
  unfold World.turn
  generalize hy : (x.1, x.2 && mayFailNext (w.prog x.1)) = y
  have hi : y.1 = x.1 := by rw [← hy]
  cases hprog : w.prog y.1 with
  | ret z =>
    rw [World.advance_ret E hprog]
    exact h
  | call a next =>
    apply h.of_move _ (advance_move h.owned E hprog)
    intro nx hroll
    rw [hi] at hroll
    rw [← hy, hroll]
    simp [mayFailNext, Prog.nextCall, Call.mayFail]

omit [DecidableEq ι] in
theorem Tidy.closed (h : Tidy calls w) (hall : ∀ i, (w.prog i).result.isSome = true) :
    w.conn.txn = none := by
  cases howner : w.owner with
  | none =>
    have hopen := h.owned.opened
    rw [howner] at hopen
    simpa using hopen
  | some i =>
    have hin := h.active i howner
    have hret := hall i
    cases hprog : w.prog i with
    | ret y =>
      rw [hprog] at hin
      exact hin.elim
    | call a next =>
      rw [hprog] at hret
      cases hret

end Txn
