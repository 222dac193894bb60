import Sshnack.TuiNavigation

/-!
# The selection

What every handler keeps: the array of products has `count` elements and the selection is one of
them, the prompt holds an amount, and the window of keys is within its array. The keys that move the
selection keep this as long as the sum of `move_horizontal` stays in the range of `int`, for which at
most 2^30 products are enough.
-/

namespace Sshnack.Tui

variable {a : App} {api : Api} {p : Product}

/-- The stock has at most 2^30 products if the server sends it. -/
def Api.SmallStock (api : Api) : Prop := ∀ prods, api.getStock = .ok prods → prods.1.length ≤ 2 ^ 30

structure Shelved (products : Option (List Product)) (count selected : Int32) : Prop where
  count_eq : count.toInt = (products.getD []).length
  small : (products.getD []).length ≤ 2 ^ 30
  selected_nonneg : 0 ≤ selected.toInt
  selected_lt : selected.toInt < max 1 (products.getD []).length

def AmountText (buf : Vector UInt8 promptBufLen) : Prop :=
  ∃ s, cstr buf = some s ∧ ∀ c ∈ s, isDigit c = true ∨ c = 46

structure Kept (a : App) : Prop where
  shelf : Shelved a.products a.count a.selected
  text : AmountText a.promptBuf
  konami : 0 ≤ a.konamiPos ∧ a.konamiPos ≤ 10

/-- No prompt is open. -/
structure Browsing (a : App) : Prop extends Kept a where
  mode : a.mode = .browse
  pending : a.pending = .none

theorem amountText_empty {buf : Vector UInt8 promptBufLen} (h : cstr buf = some []) :
    AmountText buf := ⟨[], h, by simp⟩

/-! ### Products -/

theorem Shelved.holds (h : Shelved a.products a.count a.selected) :
    Holds a (a.products.getD []) := ⟨rfl, h.count_eq⟩

/-- The selection is a product unless there is none. -/
theorem Shelved.standsOn (h : Shelved a.products a.count a.selected) (hne : a.count ≠ 0) :
    ∃ p, StandsOn a (a.products.getD []) p := by
  refine h.holds.standsOn h.selected_nonneg ?_
  have hzero : a.count.toInt ≠ 0 := fun hz => hne (Int32.toInt_inj.1 hz)
  have hcount := h.count_eq
  have hlt := h.selected_lt
  omega

/-! ### Moving -/

/-- The selection after a move to the left or to the right. -/
theorem horizontal_range {count selected dir : Int32} {len : ℕ} (hdir : IsStep dir)
    (hcount : count.toInt = len) (hpos : 0 < len) (hsmall : len ≤ 2 ^ 30)
    (h0 : 0 ≤ selected.toInt) (hlt : selected.toInt < len) :
    0 ≤ ((selected + dir + count) % count).toInt ∧
      ((selected + dir + count) % count).toInt < len := by
  have hstep : dir.toInt = 1 ∨ dir.toInt = -1 := by
    rcases hdir with rfl | rfl
    · exact .inl rfl
    · exact .inr rfl
  have hmoved : (selected + dir).toInt = selected.toInt + dir.toInt :=
    toInt_add_of_range (by omega) (by omega)
  rw [Int32.toInt_mod, hcount]
  by_cases hfit : selected.toInt + dir.toInt + len < 2 ^ 31
  · have hsum : (selected + dir + count).toInt = selected.toInt + dir.toInt + len := by
      rw [toInt_add_of_range (by omega) (by omega), hmoved, hcount]
    rw [hsum, Int.tmod_eq_emod_of_nonneg (by omega)]
    exact ⟨Int.emod_nonneg _ (by omega), Int.emod_lt_of_pos _ (by omega)⟩
  · have hlen : len = 2 ^ 30 := by omega
    have hsum : (selected + dir + count).toInt = -2 ^ 31 := by
      rw [Int32.toInt_add, hmoved, hcount, show selected.toInt + dir.toInt + len = 2 ^ 31 by omega]
      rfl
    rw [hsum, hlen]
    decide

theorem Browsing.select (h : Browsing a) {i : Int32} (h0 : 0 ≤ i.toInt)
    (hlt : i.toInt < a.count.toInt) : Browsing { a with selected := i } := by
  refine ⟨⟨⟨h.shelf.count_eq, h.shelf.small, h0, ?_⟩, h.text, h.konami⟩, h.mode, h.pending⟩
  have hcount := h.shelf.count_eq
  change i.toInt < ((max 1 (a.products.getD []).length : ℕ) : Int)
  omega

theorem Browsing.moveHorizontal (h : Browsing a) {dir : Int32} (hdir : IsStep dir) :
    Browsing (moveHorizontal dir a) := by
  unfold Tui.moveHorizontal
  split_ifs with hzero
  · exact h
  · have hne : a.count.toInt ≠ 0 := fun hz => hzero (Int32.toInt_inj.1 hz)
    have hcount := h.shelf.count_eq
    have hlt := h.shelf.selected_lt
    have hrange := horizontal_range hdir hcount (by omega) h.shelf.small h.shelf.selected_nonneg
      (by omega)
    exact h.select hrange.1 (by omega)

theorem Browsing.moveVertical (h : Browsing a) {dir : Int32} (hdir : IsStep dir) :
    ∃ a', moveVertical dir a = some a' ∧ Browsing a' := by
  by_cases hzero : a.count = 0
  · exact ⟨a, by rw [Tui.moveVertical, if_pos hzero], h⟩
  · obtain ⟨p, hp⟩ := h.shelf.standsOn hzero
    obtain ⟨j, q, hmove, hnear, -⟩ := hp.moveVertical hdir
    have hj := (List.getElem?_eq_some_iff.1 hnear.get).1
    have hindex := hp.toInt_index hj
    have hcount := h.shelf.count_eq
    exact ⟨_, hmove, h.select (by omega) (by omega)⟩

end Sshnack.Tui
