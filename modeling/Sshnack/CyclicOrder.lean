import Mathlib.Data.Set.Card
import Mathlib.Order.Defs.Unbundled
import Mathlib.Tactic

/-!
# The cyclic successor in a set

The next element of a set in a direction is the nearest one ahead, or the first one of all if nothing
is ahead. A direction is a strict total order. Going on and then back leads to where one was, and
going on in one direction leads through all of a finite set.
-/

namespace Cyclic

variable {α : Type*} {R : α → α → Prop} {S : Set α} {x y z : α}

/-- `y` is the next element of `S` after `x`, with wrap-around. -/
def IsNext (R : α → α → Prop) (S : Set α) (x y : α) : Prop :=
  y ∈ S ∧ ((R x y ∧ ∀ z ∈ S, R x z → ¬ R z y) ∨ ((∀ z ∈ S, ¬ R x z) ∧ ∀ z ∈ S, ¬ R z y))

theorem IsNext.back (hx : x ∈ S) (h : IsNext R S x y) : IsNext (Function.swap R) S y x := by
  obtain ⟨-, ⟨hxy, hbetween⟩ | ⟨hlast, hfirst⟩⟩ := h
  · exact ⟨hx, .inl ⟨hxy, fun z hz hzy hxz => hbetween z hz hxz hzy⟩⟩
  · exact ⟨hx, .inr ⟨hfirst, hlast⟩⟩

variable [IsStrictTotalOrder α R]

theorem eq_or_ahead (h : ¬ R z y) : z = y ∨ R y z := by
  rcases trichotomous_of R z y with hzy | heq | hyz
  · exact absurd hzy h
  · exact .inl heq
  · exact .inr hyz

theorem IsNext.unique (hy : IsNext R S x y) (hz : IsNext R S x z) : y = z := by
  obtain ⟨hyS, ⟨hxy, hybetween⟩ | ⟨hlast, hyfirst⟩⟩ := hy
  · obtain ⟨hzS, ⟨hxz, hzbetween⟩ | ⟨hlast, -⟩⟩ := hz
    · exact (eq_or_ahead (hzbetween y hyS hxy)).resolve_right (hybetween z hzS hxz)
    · exact absurd hxy (hlast y hyS)
  · obtain ⟨hzS, ⟨hxz, -⟩ | ⟨-, hzfirst⟩⟩ := hz
    · exact absurd hxz (hlast z hzS)
    · exact (eq_or_ahead (hzfirst y hyS)).resolve_right (hyfirst z hzS)

section Walk

variable {walk : ℕ → α} (hfin : S.Finite) (hnext : ∀ n, IsNext R S (walk n) (walk (n + 1)))
include hfin hnext

/-- Each step that does not wrap leaves less ahead. -/
theorem ahead_lt {n : ℕ} (hahead : R (walk n) (walk (n + 1))) :
    {z ∈ S | R (walk (n + 1)) z}.ncard < {z ∈ S | R (walk n) z}.ncard := by
  apply Set.ncard_lt_ncard _ (hfin.subset (Set.sep_subset _ _))
  refine ⟨fun z hz => ⟨hz.1, trans_of R hahead hz.2⟩, fun hsub => ?_⟩
  exact irrefl_of R (walk (n + 1)) (hsub ⟨(hnext n).1, hahead⟩).2

/-- Everything ahead is visited before the walk wraps. -/
theorem visits_ahead (n : ℕ) (hy : y ∈ S) (hahead : R (walk n) y) : ∃ m, walk m = y := by
  induction hcard : {z ∈ S | R (walk n) z}.ncard using Nat.strong_induction_on generalizing n with
  | _ k ih =>
    obtain ⟨-, ⟨hstep, hbetween⟩ | ⟨hlast, -⟩⟩ := hnext n
    · rcases eq_or_ahead (hbetween y hy hahead) with heq | hfurther
      · exact ⟨n + 1, heq.symm⟩
      · exact ih _ (hcard ▸ ahead_lt hfin hnext hstep) (n + 1) hfurther rfl
    · exact absurd hahead (hlast y hy)

theorem visits_all (hy : y ∈ S) : ∃ m, walk m = y := by
  obtain ⟨n, hleast⟩ : ∃ n, ∀ m, {z ∈ S | R (walk n) z}.ncard ≤ {z ∈ S | R (walk m) z}.ncard :=
    ⟨Function.argmin (fun n => {z ∈ S | R (walk n) z}.ncard),
      fun m => Function.argmin_le (fun n => {z ∈ S | R (walk n) z}.ncard) m⟩
  obtain ⟨-, ⟨hstep, -⟩ | ⟨-, hfirst⟩⟩ := hnext n
  · exact absurd (ahead_lt hfin hnext hstep) (not_lt.2 (hleast (n + 1)))
  · rcases eq_or_ahead (hfirst y hy) with heq | hahead
    · exact ⟨n + 1, heq.symm⟩
    · exact visits_ahead hfin hnext (n + 1) hy hahead

end Walk

end Cyclic
