import Mathlib.Tactic

/-!
# Sums over the selected rows of a table

`sumWhere p f rows` is `SELECT SUM(f) FROM rows WHERE p`. Inserting a row adds its share; updating the
one row with a given key adds the change of that row, when the row stays selected or unselected.
-/

namespace Rows

variable {α κ : Type} (p : α → Prop) [DecidablePred p] (f : α → Int)

def sumWhere (rows : List α) : Int := ((rows.filter fun a => p a).map f).sum

@[simp] theorem sumWhere_nil : sumWhere p f [] = 0 := rfl

@[simp] theorem sumWhere_cons (a : α) (rows : List α) :
    sumWhere p f (a :: rows) = (if p a then f a else 0) + sumWhere p f rows := by
  unfold sumWhere
  by_cases ha : p a <;> simp [ha]

theorem sumWhere_snoc (rows : List α) (a : α) :
    sumWhere p f (rows ++ [a]) = sumWhere p f rows + if p a then f a else 0 := by
  induction rows with
  | nil => simp
  | cons b rows ih =>
    rw [List.cons_append, sumWhere_cons, sumWhere_cons, ih]
    ring

theorem sumWhere_eq_zero {rows : List α} (h : ∀ a ∈ rows, ¬ p a) : sumWhere p f rows = 0 := by
  induction rows with
  | nil => rfl
  | cons a rows ih =>
    have ha := h a List.mem_cons_self
    have hrest := ih fun b hb => h b (List.mem_cons_of_mem a hb)
    simp only [sumWhere_cons, ha, if_false, hrest, add_zero]

variable [DecidableEq κ] (key : α → κ) (g : α → α)

theorem map_update_of_absent {k : κ} {rows : List α} (h : k ∉ rows.map key) :
    (rows.map fun a => if key a = k then g a else a) = rows := by
  have hsame : ∀ a ∈ rows, (if key a = k then g a else a) = id a := by
    intro a ha
    have hne : key a ≠ k := by
      intro he
      exact h (he ▸ List.mem_map_of_mem ha)
    rw [if_neg hne, id]
  rw [List.map_congr_left hsame, List.map_id]

/-- Updating the row with one key changes the sum by the change of that row. -/
theorem sumWhere_update {rows : List α} (hkeys : (rows.map key).Nodup) {r : α} (hr : r ∈ rows)
    (hp : p (g r) ↔ p r) :
    sumWhere p f (rows.map fun a => if key a = key r then g a else a) =
      sumWhere p f rows + if p r then f (g r) - f r else 0 := by
  induction rows with
  | nil => cases hr
  | cons a rows ih =>
    rw [List.map_cons, List.nodup_cons] at hkeys
    obtain ⟨hfresh, hkeys⟩ := hkeys
    rcases List.mem_cons.1 hr with rfl | hr
    · rw [List.map_cons, if_pos rfl, map_update_of_absent key g hfresh, sumWhere_cons, sumWhere_cons]
      by_cases hpr : p r
      · simp only [hp, hpr, if_true]
        ring
      · simp only [hp, hpr, if_false]
        ring
    · have hne : key a ≠ key r := by
        intro he
        exact hfresh (he ▸ List.mem_map_of_mem hr)
      rw [List.map_cons, if_neg hne, sumWhere_cons, sumWhere_cons, ih hkeys hr]
      ring

end Rows
