import Sshnack.TxnInterleaving

/-!
# Isolation on a shared connection

Because BEGIN is refused while a transaction is open, and a refused operation leaves without a
ROLLBACK, at most one bracketed operation is inside a transaction and that transaction is its own
(`Owned`).
-/

namespace Txn

variable {δ σ ρ ε α ι : Type} [DecidableEq ι] {E : Engine δ σ ρ}
  {calls : ι → Prog σ ρ (Except ε α)} {w w' : World δ σ ρ (Except ε α) ι} {x : ι × Bool}

omit [DecidableEq ι] in
theorem owned_start (h : ∀ i, Bracketed (calls i) ∨ Plain (calls i)) (d : δ) :
    Owned calls (World.start calls d) where
  opened := rfl
  holder i hi := by cases hi
  idle i _ _ := .inr rfl
  plain i hb := (h i).resolve_left hb

/-- Ownership after thread `i` moved to `p`, when no other thread gained or lost the transaction. -/
theorem Owned.update (h : Owned calls w) {i : ι} {p : Prog σ ρ (Except ε α)} {k : Conn δ}
    {o : Option ι} (cs : List ι) (hopened : k.txn.isSome = o.isSome)
    (hothers : ∀ j, j ≠ i → (o = some j ↔ w.owner = some j))
    (hholder : o = some i → Bracketed (calls i) ∧ ((∃ y, p = .ret y) ∨ InTxn p))
    (hidle : o ≠ some i → Bracketed (calls i) → ∃ y, p = .ret y)
    (hplain : ¬ Bracketed (calls i) → Plain p) :
    Owned calls ⟨k, Function.update w.prog i p, o, cs⟩ where
  opened := hopened
  holder j hj := by
    by_cases hji : j = i
    · subst hji
      simpa only [Function.update_self] using hholder hj
    · simpa only [Function.update_of_ne hji] using h.holder j ((hothers j hji).1 hj)
  idle j hj hb := by
    by_cases hji : j = i
    · subst hji
      simpa only [Function.update_self] using .inl (hidle hj hb)
    · simpa only [Function.update_of_ne hji] using
        h.idle j (fun hw => hj ((hothers j hji).2 hw)) hb
  plain j hb := by
    by_cases hji : j = i
    · subst hji
      simpa only [Function.update_self] using hplain hb
    · simpa only [Function.update_of_ne hji] using h.plain j hb

theorem Owned.of_move (h : Owned calls w) (hm : Move E calls w x w') : Owned calls w' := by
  have hleft : ∀ {y : Except ε α}, ¬ Bracketed (calls x.1) → Plain (Prog.ret y : Prog σ ρ _) :=
    fun _ => trivial
  have hnone : w.owner = some x.1 → ∀ j, j ≠ x.1 → (none = some j ↔ w.owner = some j) := by
    intro howner j hj
    simp [howner, Ne.symm hj]
  cases hm with
  | refused e howner hb =>
    exact h.update w.commits h.opened (fun _ _ => Iff.rfl) (fun ho => absurd ho howner)
      (fun _ _ => ⟨_, rfl⟩) hleft
  | began d next hconn hb hcall hin =>
    have hfree : w.owner = none := by
      have hopen := h.opened
      rw [hconn] at hopen
      simpa using hopen.symm
    exact h.update w.commits rfl (fun j hj => by simp [hfree, Ne.symm hj])
      (fun _ => ⟨hb, .inr hin⟩) (fun ho => absurd rfl ho) (fun hnb => absurd hb hnb)
  | worked c d d' p howner hconn hna hin hq =>
    have hb := (h.holder x.1 howner).1
    exact h.update w.commits rfl (fun j _ => by rw [howner]) (fun _ => ⟨hb, .inr hin⟩)
      (fun ho => absurd rfl ho) (fun hnb => absurd hb hnb)
  | committed c d a howner hconn hna hq =>
    exact h.update _ rfl (hnone howner) (fun ho => by cases ho) (fun _ _ => ⟨_, rfl⟩) hleft
  | rolledBack c d y howner hconn =>
    exact h.update _ rfl (hnone howner) (fun ho => by cases ho) (fun _ _ => ⟨_, rfl⟩) hleft
  | stranded y next howner hfault hprog =>
    have hb := (h.holder x.1 howner).1
    exact h.update w.commits h.opened (fun _ _ => Iff.rfl) (fun _ => ⟨hb, .inl ⟨y, rfl⟩⟩)
      (fun ho => absurd howner ho) hleft
  | plain k p hb htxn hp hread =>
    exact h.update w.commits (htxn.trans h.opened) (fun _ _ => Iff.rfl)
      (fun ho => absurd (h.holder x.1 ho).1 hb) (fun _ hb' => absurd hb' hb) (fun _ => hp)

/-- Data statements, COMMIT and ROLLBACK: the calls that act on an open transaction. -/
def Call.actsInTxn : Call σ → Bool
  | .step _ => true
  | .commit => true
  | .rollback => true
  | _ => false

omit [DecidableEq ι] in
/-- A bracketed operation only ever acts inside a transaction that it opened itself. -/
theorem Owned.acts_in_own (h : Owned calls w) {i : ι} (hb : Bracketed (calls i)) {a : Call σ}
    {next : Reply ρ → Prog σ ρ (Except ε α)} (hprog : w.prog i = .call a next)
    (ha : a.actsInTxn = true) : w.owner = some i := by
  by_contra howner
  rcases h.idle i howner hb with ⟨y, hy⟩ | hcall
  · rw [hprog] at hy
    cases hy
  · rw [hprog] at hcall
    rw [← hcall] at hb
    cases a <;> first | exact hb | cases ha

/-- The operations run one after another without faults, with their results. -/
def serially (E : Engine δ σ ρ) (calls : ι → Prog σ ρ α) : List ι → δ → List α × δ
  | [], d => ([], d)
  | i :: is, d =>
      (((calls i).atomically E d).1 :: (serially E calls is ((calls i).atomically E d).2).1,
        (serially E calls is ((calls i).atomically E d).2).2)

omit [DecidableEq ι] in
theorem serially_snoc (E : Engine δ σ ρ) (calls : ι → Prog σ ρ α) (is : List ι) (i : ι) (d : δ) :
    serially E calls (is ++ [i]) d =
      ((serially E calls is d).1 ++ [((calls i).atomically E (serially E calls is d).2).1],
        ((calls i).atomically E (serially E calls is d).2).2) := by
  induction is generalizing d with
  | nil => rfl
  | cons j is ih => simp only [List.cons_append, serially, ih]

theorem map_update_of_not_mem {β : Type} (f : ι → β) {i : ι} (b : β) {is : List ι} (hi : i ∉ is) :
    is.map (Function.update f i b) = is.map f := by
  apply List.map_congr_left
  intro j hj
  have hne : j ≠ i := by
    rintro rfl
    exact hi hj
  exact Function.update_of_ne hne b f

end Txn
