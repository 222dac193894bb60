import Sshnack.TuiGrid

/-!
# Moves over the grid

`move_vertical` selects the first of the nearest products of the next occupied row, with wrap-around.
So a move back undoes the change of the row, and moves in one direction visit every occupied row.
-/

namespace Sshnack.Tui

open Cyclic

variable {a b : App} {ps : List Product} {p : Product} {dir : Int32}

/-- The row of the selected product. -/
def selectedRow (a : App) : Option Int := (a.product a.selected).map slotRow

/-- A number of moves in one direction. -/
def moves (dir : Int32) : ℕ → App → Option App
  | 0, a => some a
  | n + 1, a => (moves dir n a).bind (moveVertical dir)

/-- The state holds these products and this one is selected. -/
structure StandsOn (a : App) (ps : List Product) (p : Product) : Prop extends Holds a ps where
  selected_eq : a.product a.selected = some p

theorem Holds.standsOn (h : Holds a ps) (h0 : 0 ≤ a.selected.toInt)
    (hlt : a.selected.toInt < ps.length) : ∃ p, StandsOn a ps p := by
  obtain ⟨j, hj⟩ := Int.eq_ofNat_of_zero_le h0
  have hj' : j < ps.length := by omega
  exact ⟨ps[j], h, by rw [h.product hj, List.getElem?_eq_getElem hj']⟩

theorem StandsOn.mem (h : StandsOn a ps p) : p ∈ ps := by
  have hp := h.selected_eq
  rw [product_eq, h.products_eq, load] at hp
  split_ifs at hp
  exact List.mem_of_getElem? hp

theorem StandsOn.selectedRow (h : StandsOn a ps p) : selectedRow a = some (slotRow p) := by
  rw [Tui.selectedRow, h.selected_eq, Option.map_some]

theorem StandsOn.moveVertical (h : StandsOn a ps p) (hdir : IsStep dir) :
    ∃ j q, moveVertical dir a = some { a with selected := Int32.ofNat j } ∧
      Nearest ps (slotRow q) (slotCol p) j q ∧
      IsNext (Ahead dir) (rows ps) (slotRow p) (slotRow q) := by
  have hlen := List.length_pos_of_mem h.mem
  have hzero : a.count ≠ 0 := by
    intro hzero
    have hcount := h.count_eq
    rw [hzero] at hcount
    exact hlen.ne (Int.natCast_inj.1 hcount)
  obtain ⟨rows, hrun, hbounds⟩ := h.rowBounds
  obtain ⟨j, q, htarget, hnear, hnext⟩ := h.verticalTarget hdir h.mem hbounds
  have hj := (List.getElem?_eq_some_iff.1 hnear.get).1
  have hpos : 0 ≤ Int32.ofNat j := by
    rw [Int32.le_iff_toInt_le, h.toInt_index hj]
    exact Int.natCast_nonneg j
  refine ⟨j, q, ?_, hnear, hnext⟩
  simp only [Tui.moveVertical, if_neg hzero, h.selected_eq, hrun, htarget, if_pos hpos,
    Option.bind_eq_bind, Option.bind_some]

/-- One move leads to the next row. -/
theorem StandsOn.move (h : StandsOn a ps p) (hdir : IsStep dir) :
    ∃ b q, Tui.moveVertical dir a = some b ∧ StandsOn b ps q ∧
      IsNext (Ahead dir) (rows ps) (slotRow p) (slotRow q) := by
  obtain ⟨j, q, hmove, hnear, hnext⟩ := h.moveVertical hdir
  have hj := (List.getElem?_eq_some_iff.1 hnear.get).1
  have hholds : Holds { a with selected := Int32.ofNat j } ps := ⟨h.products_eq, h.count_eq⟩
  exact ⟨_, q, hmove, ⟨hholds, (hholds.product (hholds.toInt_index hj)).trans hnear.get⟩, hnext⟩

theorem StandsOn.moves (h : StandsOn a ps p) (hdir : IsStep dir) (n : ℕ) :
    ∃ b q, moves dir n a = some b ∧ StandsOn b ps q := by
  induction n with
  | zero => exact ⟨a, p, rfl, h⟩
  | succ n ih =>
    obtain ⟨b, q, hmoves, hb⟩ := ih
    obtain ⟨c, r, hmove, hc, -⟩ := hb.move hdir
    exact ⟨c, r, by rw [Tui.moves, hmoves, Option.bind_some, hmove], hc⟩

/-! ### The order of the rows -/

instance ahead_order : IsStrictTotalOrder Int (Ahead dir) where
  irrefl x := by
    unfold Ahead
    split_ifs <;> exact lt_irrefl x
  trans x y z hxy hyz := by
    unfold Ahead at *
    split_ifs at * <;> omega
  trichotomous x y hxy hyx := by
    unfold Ahead at *
    split_ifs at * <;> omega

theorem swap_ahead (hdir : IsStep dir) : Function.swap (Ahead dir) = Ahead (-dir) := by
  funext x y
  rcases hdir with rfl | rfl
  · simp [Function.swap, Ahead, (by decide : ¬ (-1 : Int32) = 1)]
  · simp [Function.swap, Ahead, (by decide : ¬ (-1 : Int32) = 1)]

theorem IsStep.neg (hdir : IsStep dir) : IsStep (-dir) := by
  rcases hdir with rfl | rfl
  · exact .inr rfl
  · exact .inl (by decide)

theorem rows_finite (ps : List Product) : (rows ps).Finite := by
  have hrows : rows ps = slotRow '' {p | p ∈ ps} := by
    ext r
    simp [rows]
  exact hrows ▸ (List.finite_toSet ps).image slotRow

theorem StandsOn.row_mem (h : StandsOn a ps p) : slotRow p ∈ rows ps := ⟨p, h.mem, rfl⟩

/-- A move and a move back lead to the row of the start. -/
theorem StandsOn.back (h : StandsOn a ps p) (hdir : IsStep dir) :
    ∃ b c, Tui.moveVertical dir a = some b ∧ Tui.moveVertical (-dir) b = some c ∧
      Tui.selectedRow c = Tui.selectedRow a := by
  obtain ⟨b, q, hmove, hb, hnext⟩ := h.move hdir
  obtain ⟨c, r, hback, hc, hrow⟩ := hb.move hdir.neg
  have hundo := hnext.back h.row_mem
  rw [swap_ahead hdir] at hundo
  refine ⟨b, c, hmove, hback, ?_⟩
  rw [hc.selectedRow, h.selectedRow, hrow.unique hundo]

/-- Moves in one direction lead to every occupied row. -/
theorem StandsOn.visits (h : StandsOn a ps p) (hdir : IsStep dir) {row : Int}
    (hrow : row ∈ rows ps) : ∃ n b, Tui.moves dir n a = some b ∧ Tui.selectedRow b = some row := by
  choose states here hmoves hstands using h.moves hdir
  have hnext (n : ℕ) :
      IsNext (Ahead dir) (rows ps) (slotRow (here n)) (slotRow (here (n + 1))) := by
    obtain ⟨b, q, hmove, hb, hnext⟩ := (hstands n).move hdir
    have hlater := hmoves (n + 1)
    rw [Tui.moves, hmoves n, Option.bind_some, hmove, Option.some.injEq] at hlater
    have hq := hb.selected_eq
    rw [hlater, (hstands (n + 1)).selected_eq, Option.some.injEq] at hq
    rwa [hq]
  obtain ⟨n, hn⟩ := visits_all (rows_finite ps) hnext hrow
  exact ⟨n, states n, hmoves n, by rw [(hstands n).selectedRow, hn]⟩

/-- What the vertical moves do from every valid selection. -/
theorem moveVertical_exact (hholds : Holds a ps) (h0 : 0 ≤ a.selected.toInt)
    (hlt : a.selected.toInt < ps.length) (hdir : IsStep dir) :
    (∃ p j q, a.product a.selected = some p ∧
      moveVertical dir a = some { a with selected := Int32.ofNat j } ∧
      Nearest ps (slotRow q) (slotCol p) j q ∧
      IsNext (Ahead dir) (rows ps) (slotRow p) (slotRow q)) ∧
    (∃ b c, moveVertical dir a = some b ∧ moveVertical (-dir) b = some c ∧
      selectedRow c = selectedRow a) ∧
    ∀ row ∈ rows ps, ∃ n b, moves dir n a = some b ∧ selectedRow b = some row := by
  obtain ⟨p, hp⟩ := hholds.standsOn h0 hlt
  obtain ⟨j, q, hmove⟩ := hp.moveVertical hdir
  exact ⟨⟨p, j, q, hp.selected_eq, hmove⟩, hp.back hdir, fun row hrow => hp.visits hdir hrow⟩

/-- Two products in row 0 and one in row 2. -/
def sparseGrid : App :=
  { App.cleared with
    products := some [⟨20, 1, 300, 5, ascii "Chips"⟩, ⟨0, 2, 400, 5, ascii "Cola"⟩,
      ⟨2, 3, 500, 5, ascii "Mints"⟩]
    count := 3 }

theorem moveVertical_exact_sparse :
    moveVertical 1 sparseGrid = some { sparseGrid with selected := 1 } ∧
      ∃ b c, moveVertical 1 sparseGrid = some b ∧ moveVertical (-1) b = some c ∧
        selectedRow c = selectedRow sparseGrid := by
  have hexact := moveVertical_exact (a := sparseGrid) ⟨rfl, by decide⟩ (by decide) (by decide)
    (.inl rfl)
  exact ⟨by decide, hexact.2.1⟩

end Sshnack.Tui
