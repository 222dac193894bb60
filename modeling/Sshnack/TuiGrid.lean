import Sshnack.CyclicOrder
import Sshnack.TuiApp

/-!
# Loops over the products and the grid

A loop over the products runs within the array when `count` is its length, and what its body keeps
holds at its end. So `find_in_row` returns the first of the nearest products of a row, and the search
of `move_vertical` ends at the nearest occupied row.
-/

namespace Sshnack.Tui

open Cyclic

variable {a : App} {ps : List Product}

/-- The state holds these products. -/
structure Holds (a : App) (ps : List Product) : Prop where
  products_eq : a.products.getD [] = ps
  count_eq : a.count.toInt = ps.length

/-- `dir` is one step, down or up. -/
def IsStep (dir : Int32) : Prop := dir = 1 ∨ dir = -1

theorem toInt_add_of_range {x y : Int32} (hlow : -2 ^ 31 ≤ x.toInt + y.toInt)
    (hhigh : x.toInt + y.toInt < 2 ^ 31) : (x + y).toInt = x.toInt + y.toInt := by
  rw [Int32.toInt_add, Int.bmod_eq_of_le] <;> omega

/-- Rows are far from the limits of `int`. -/
theorem appSlotRow_bounds (slotId : Int32) :
    -214748364 ≤ (appSlotRow slotId).toInt ∧ (appSlotRow slotId).toInt ≤ 214748364 := by
  have hlow := slotId.le_toInt
  have hhigh := slotId.toInt_lt
  rw [appSlotRow, Int32.toInt_div_of_ne_right _ _ (by decide)]
  change -214748364 ≤ slotId.toInt.tdiv 10 ∧ slotId.toInt.tdiv 10 ≤ 214748364
  have hsign : Int.sign 10 = 1 := rfl
  rw [Int.tdiv_eq_ediv]
  split_ifs <;> omega

/-! ### Loops -/

section Loops

variable {σ : Type*} {body : σ → Int32 → Product → σ} {s : σ}

theorem product_eq (a : App) (i : Int32) : a.product i = load (a.products.getD []) i.toInt := by
  unfold App.product
  cases a.products with
  | none => simp [load]
  | some products => rfl

theorem Holds.length_lt (h : Holds a ps) : ps.length < 2 ^ 31 := by
  have hmax := a.count.toInt_lt
  have hcount := h.count_eq
  omega

theorem Holds.toInt_index (h : Holds a ps) {i : ℕ} (hi : i < ps.length) :
    (Int32.ofNat i).toInt = i :=
  Int32.toInt_ofNat_of_lt (hi.trans h.length_lt)

theorem Holds.product (h : Holds a ps) {i : Int32} {j : ℕ} (hi : i.toInt = j) :
    a.product i = ps[j]? := by
  rw [product_eq, h.products_eq, hi, load, if_pos (Int.natCast_nonneg j), Int.toNat_natCast]

/-- The loop with an invariant over the products that it has seen. -/
theorem Holds.forProducts {P : ℕ → σ → Prop} (h : Holds a ps) (hs : P 0 s)
    (hbody : ∀ k p s, ps[k]? = some p → P k s → P (k + 1) (body s (Int32.ofNat k) p)) :
    ∃ t, a.forProducts body s = some t ∧ P ps.length t := by
  have hprefix (k : ℕ) (hk : k ≤ ps.length) :
      ∃ t, (List.range k).foldlM
        (fun s i => (a.product (Int32.ofNat i)).map (body s (Int32.ofNat i))) s = some t ∧ P k t := by
    induction k with
    | zero => exact ⟨s, rfl, hs⟩
    | succ k ih =>
      obtain ⟨t, ht, hPt⟩ := ih (by omega)
      have hp : ps[k]? = some ps[k] := List.getElem?_eq_getElem hk
      rw [List.range_succ, List.foldlM_append, ht]
      refine ⟨body t (Int32.ofNat k) ps[k], ?_, hbody k ps[k] t hp hPt⟩
      simp [h.product (h.toInt_index hk), hp]
  have hcount : a.count.toNatClampNeg = ps.length := by
    have hcount := h.count_eq
    rw [← Int32.toNat_toInt, hcount, Int.toNat_natCast]
  rw [App.forProducts, hcount]
  exact hprefix ps.length le_rfl

end Loops

/-! ### Rows and columns -/

section Row

variable {row col : Int} {j : ℕ} {p q : Product}

def slotRow (p : Product) : Int := p.slotId.toInt.tdiv 10

def slotCol (p : Product) : Int := p.slotId.toInt.tmod 10

theorem appSlotRow_toInt (p : Product) : (appSlotRow p.slotId).toInt = slotRow p := by
  rw [appSlotRow, Int32.toInt_div_of_ne_right _ _ (by decide)]
  rfl

theorem appSlotCol_toInt (p : Product) : (appSlotCol p.slotId).toInt = slotCol p := by
  rw [appSlotCol, Int32.toInt_mod]
  rfl

theorem slotCol_bounds (p : Product) : -9 ≤ slotCol p ∧ slotCol p ≤ 9 := by
  have hlow : -(9 : Int) ≤ p.slotId.toInt.tmod 10 := by
    have hlt := Int.lt_tmod_of_pos p.slotId.toInt (by decide : (0 : Int) < 10)
    omega
  have hhigh := Int.tmod_lt_of_pos p.slotId.toInt (by decide : (0 : Int) < 10)
  exact ⟨hlow, Int.le_of_lt_add_one hhigh⟩

theorem colDist_toInt {x y : Int32} (hx : -9 ≤ x.toInt ∧ x.toInt ≤ 9)
    (hy : -9 ≤ y.toInt ∧ y.toInt ≤ 9) : (colDist x y).toInt = |y.toInt - x.toInt| := by
  have hsub {u v : Int32} (hu : -9 ≤ u.toInt ∧ u.toInt ≤ 9) (hv : -9 ≤ v.toInt ∧ v.toInt ≤ 9) :
      (u - v).toInt = u.toInt - v.toInt := by
    rw [Int32.toInt_sub, Int.bmod_eq_of_le] <;> omega
  unfold colDist
  split_ifs with hlt
  · rw [Int32.lt_iff_toInt_lt] at hlt
    rw [hsub hy hx, abs_of_pos (by omega)]
  · rw [Int32.lt_iff_toInt_lt] at hlt
    rw [hsub hx hy, abs_of_nonpos (by omega)]
    omega

/-- The first of the products of a row that are nearest to a column. -/
structure Nearest (ps : List Product) (row col : Int) (j : ℕ) (q : Product) : Prop where
  get : ps[j]? = some q
  row_eq : slotRow q = row
  least : ∀ p ∈ ps, slotRow p = row → |slotCol q - col| ≤ |slotCol p - col|
  first : ∀ (k : ℕ) (p : Product), ps[k]? = some p → slotRow p = row →
    |slotCol p - col| = |slotCol q - col| → j ≤ k

theorem getElem?_concat_cases {k : ℕ} (h : (ps ++ [q])[k]? = some p) :
    ps[k]? = some p ∨ k = ps.length ∧ p = q := by
  rcases lt_trichotomy k ps.length with hlt | rfl | hgt
  · rw [List.getElem?_append_left hlt] at h
    exact .inl h
  · rw [List.getElem?_concat_length] at h
    exact .inr ⟨rfl, (Option.some.inj h).symm⟩
  · rw [List.getElem?_eq_none (by rw [List.length_append, List.length_singleton]; omega)] at h
    cases h

theorem Nearest.keep (h : Nearest ps row col j q)
    (hfar : slotRow p = row → |slotCol q - col| ≤ |slotCol p - col|) :
    Nearest (ps ++ [p]) row col j q := by
  have hj : j < ps.length := (List.getElem?_eq_some_iff.1 h.get).1
  refine ⟨by rw [List.getElem?_append_left hj, h.get], h.row_eq, fun x hx hrow => ?_,
    fun k x hx hrow heq => ?_⟩
  · rcases List.mem_append.1 hx with hx | hx
    · exact h.least x hx hrow
    · rw [List.mem_singleton.1 hx] at hrow ⊢
      exact hfar hrow
  · rcases getElem?_concat_cases hx with hx | ⟨rfl, -⟩
    · exact h.first k x hx hrow heq
    · exact hj.le

theorem Nearest.take (hrow : slotRow p = row)
    (hnear : ∀ x ∈ ps, slotRow x = row → |slotCol p - col| < |slotCol x - col|) :
    Nearest (ps ++ [p]) row col ps.length p := by
  refine ⟨List.getElem?_concat_length, hrow, fun x hx hx' => ?_, fun k x hx hx' heq => ?_⟩
  · rcases List.mem_append.1 hx with hx | hx
    · exact (hnear x hx hx').le
    · rw [List.mem_singleton.1 hx]
  · rcases getElem?_concat_cases hx with hx | ⟨rfl, -⟩
    · exact absurd heq.symm (hnear x (List.mem_of_getElem? hx) hx').ne
    · exact le_rfl

/-- What `find_in_row` has found in the first products. -/
def FoundIn (ps : List Product) (row col : Int) (found : Int32 × Int32) : Prop :=
  (found = (-1, intMax) ∧ ∀ p ∈ ps, slotRow p ≠ row) ∨
    ∃ j q, Nearest ps row col j q ∧ found.1 = Int32.ofNat j ∧ found.2.toInt = |slotCol q - col|

/-- One round of the loop in `find_in_row`. -/
theorem FoundIn.nearest {targetRow desiredCol : Int32} {found : Int32 × Int32}
    (hcol : -9 ≤ desiredCol.toInt ∧ desiredCol.toInt ≤ 9)
    (h : FoundIn ps targetRow.toInt desiredCol.toInt found) (p : Product) :
    FoundIn (ps ++ [p]) targetRow.toInt desiredCol.toInt
      (nearest targetRow desiredCol found (Int32.ofNat ps.length) p) := by
  have hdist : (colDist desiredCol (appSlotCol p.slotId)).toInt =
      |slotCol p - desiredCol.toInt| := by
    rw [← appSlotCol_toInt]
    exact colDist_toInt hcol (appSlotCol_toInt p ▸ slotCol_bounds p)
  have hrow : appSlotRow p.slotId = targetRow ↔ slotRow p = targetRow.toInt := by
    rw [← Int32.toInt_inj, appSlotRow_toInt]
  have hcond : (appSlotRow p.slotId = targetRow ∧
      colDist desiredCol (appSlotCol p.slotId) < found.2) ↔
        slotRow p = targetRow.toInt ∧ |slotCol p - desiredCol.toInt| < found.2.toInt := by
    rw [hrow, Int32.lt_iff_toInt_lt, hdist]
  unfold Tui.nearest
  by_cases htake : slotRow p = targetRow.toInt ∧ |slotCol p - desiredCol.toInt| < found.2.toInt
  · rw [if_pos (hcond.2 htake)]
    refine .inr ⟨ps.length, p, .take htake.1 fun x hx hx' => ?_, rfl, hdist⟩
    rcases h with ⟨-, hnone⟩ | ⟨j, q, hnear, -, hbest⟩
    · exact absurd hx' (hnone x hx)
    · exact (hbest ▸ htake.2).trans_le (hnear.least x hx hx')
  · rw [if_neg fun h => htake (hcond.1 h)]
    rcases h with ⟨hnothing, hnone⟩ | ⟨j, q, hnear, hindex, hbest⟩
    · refine .inl ⟨hnothing, fun x hx => ?_⟩
      rcases List.mem_append.1 hx with hx | hx
      · exact hnone x hx
      · rw [List.mem_singleton.1 hx]
        intro hrow'
        have hbounds := slotCol_bounds p
        have hmax : intMax.toInt = 2147483647 := by decide
        refine htake ⟨hrow', ?_⟩
        rw [hnothing, hmax, abs_lt]
        omega
    · refine .inr ⟨j, q, hnear.keep fun hrow' => ?_, hindex, hbest⟩
      rw [← hbest]
      exact not_lt.1 fun hlt => htake ⟨hrow', hlt⟩

/-- `find_in_row` finds nothing in an empty row, and otherwise the first of the nearest products. -/
theorem Holds.findInRow (h : Holds a ps) (targetRow : Int32) {desiredCol : Int32}
    (hcol : -9 ≤ desiredCol.toInt ∧ desiredCol.toInt ≤ 9) :
    (findInRow a targetRow desiredCol = some (-1) ∧ ∀ p ∈ ps, slotRow p ≠ targetRow.toInt) ∨
      ∃ j q, findInRow a targetRow desiredCol = some (Int32.ofNat j) ∧
        Nearest ps targetRow.toInt desiredCol.toInt j q := by
  have hbody (k : ℕ) (p : Product) (found : Int32 × Int32) (hp : ps[k]? = some p)
      (hfound : FoundIn (ps.take k) targetRow.toInt desiredCol.toInt found) :
      FoundIn (ps.take (k + 1)) targetRow.toInt desiredCol.toInt
        (nearest targetRow desiredCol found (Int32.ofNat k) p) := by
    obtain ⟨hk, rfl⟩ := List.getElem?_eq_some_iff.1 hp
    have hlen : (ps.take k).length = k := List.length_take_of_le hk.le
    have hnext := hfound.nearest hcol ps[k]
    rwa [hlen, List.take_append_getElem hk] at hnext
  obtain ⟨found, hrun, hfound⟩ := h.forProducts
    (P := fun k => FoundIn (ps.take k) targetRow.toInt desiredCol.toInt) (s := (-1, intMax))
    (.inl ⟨rfl, by simp⟩) hbody
  rw [Tui.findInRow, hrun, Option.map_some]
  rw [List.take_length] at hfound
  rcases hfound with ⟨rfl, hnone⟩ | ⟨j, q, hnear, hindex, -⟩
  · exact .inl ⟨rfl, hnone⟩
  · exact .inr ⟨j, q, by rw [hindex], hnear⟩

/-- What the first loop of `move_vertical` has seen of the rows of some products. -/
def BoundsOf (ps : List Product) (rows : Int32 × Int32) : Prop :=
  (ps = [] ∧ rows = (intMax, intMin)) ∨
    (∃ p ∈ ps, slotRow p = rows.1.toInt) ∧ (∃ p ∈ ps, slotRow p = rows.2.toInt) ∧
      ∀ p ∈ ps, rows.1.toInt ≤ slotRow p ∧ slotRow p ≤ rows.2.toInt

theorem BoundsOf.widen {rows : Int32 × Int32} (h : BoundsOf ps rows) (i : Int32) (p : Product) :
    BoundsOf (ps ++ [p]) (widen rows i p) := by
  have hrow := appSlotRow_toInt p
  have hbounds := appSlotRow_bounds p.slotId
  have hmax : intMax.toInt = 2147483647 := by decide
  have hmin : intMin.toInt = -2147483648 := by decide
  have hlast : p ∈ ps ++ [p] := by simp
  have hold {x : Product} (hx : x ∈ ps) : x ∈ ps ++ [p] := List.mem_append_left [p] hx
  right
  simp only [Tui.widen, Int32.lt_iff_toInt_lt]
  rcases h with ⟨rfl, rfl⟩ | ⟨⟨lo, hlo, hlo'⟩, ⟨hi, hhi, hhi'⟩, hall⟩
  · dsimp only
    rw [if_pos (by omega), if_pos (by omega)]
    exact ⟨⟨p, hlast, hrow.symm⟩, ⟨p, hlast, hrow.symm⟩, by simp [hrow]⟩
  · refine ⟨?_, ?_, fun x hx => ?_⟩
    · split_ifs
      · exact ⟨p, hlast, hrow.symm⟩
      · exact ⟨lo, hold hlo, hlo'⟩
    · split_ifs
      · exact ⟨p, hlast, hrow.symm⟩
      · exact ⟨hi, hold hhi, hhi'⟩
    · have hx' : rows.1.toInt ≤ slotRow x ∧ slotRow x ≤ rows.2.toInt ∨ slotRow x = slotRow p := by
        rcases List.mem_append.1 hx with hx | hx
        · exact .inl (hall x hx)
        · exact .inr (by rw [List.mem_singleton.1 hx])
      have hends := hall lo hlo
      split_ifs <;> omega

theorem Holds.rowBounds (h : Holds a ps) :
    ∃ rows, a.forProducts Tui.widen (intMax, intMin) = some rows ∧ BoundsOf ps rows := by
  have hbody (k : ℕ) (p : Product) (rows : Int32 × Int32) (hp : ps[k]? = some p)
      (hrows : BoundsOf (ps.take k) rows) :
      BoundsOf (ps.take (k + 1)) (Tui.widen rows (Int32.ofNat k) p) := by
    obtain ⟨hk, rfl⟩ := List.getElem?_eq_some_iff.1 hp
    have hnext := hrows.widen (Int32.ofNat k) ps[k]
    rwa [List.take_append_getElem hk] at hnext
  obtain ⟨rows, hrun, hrows⟩ := h.forProducts (P := fun k => BoundsOf (ps.take k))
    (s := (intMax, intMin)) (.inl ⟨rfl, rfl⟩) hbody
  rw [List.take_length] at hrows
  exact ⟨rows, hrun, hrows⟩

end Row

/-! ### Vertical moves -/

section Vertical

variable {dir minr maxr col : Int32}

/-- The order of the rows in the direction of a move. -/
def Ahead (dir : Int32) (x y : Int) : Prop := if dir = 1 then x < y else y < x

/-- The occupied rows. -/
def rows (ps : List Product) : Set Int := {r | ∃ p ∈ ps, slotRow p = r}

theorem ahead_next (hdir : IsStep dir) {x t : Int} (hne : x ≠ t) :
    Ahead dir x (t + dir.toInt) ↔ Ahead dir x t := by
  have hminus : (-1 : Int32).toInt = -1 := by decide
  have hone : (1 : Int32).toInt = 1 := by decide
  rcases hdir with rfl | rfl
  · simp only [Ahead, if_true, hone]
    omega
  · simp only [Ahead, (by decide : ¬ (-1 : Int32) = 1), if_false, hminus]
    omega

/-- The search finds the first occupied row from its target on, unless all rows are behind it. -/
theorem Holds.seekRow (h : Holds a ps) (hdir : IsStep dir)
    (hcol : -9 ≤ col.toInt ∧ col.toInt ≤ 9)
    (hrows : ∀ p ∈ ps, minr.toInt ≤ slotRow p ∧ slotRow p ≤ maxr.toInt)
    (hmin : -214748364 ≤ minr.toInt) (hmax : maxr.toInt ≤ 214748364) (fuel : ℕ) (target : Int32)
    (hstart : if dir = 1 then minr.toInt ≤ target.toInt else target.toInt ≤ maxr.toInt)
    (hfuel : if dir = 1 then maxr.toInt < target.toInt + fuel
      else target.toInt < minr.toInt + fuel) :
    (seekRow a dir minr maxr col fuel target = some (-1) ∧
        ∀ p ∈ ps, Ahead dir (slotRow p) target.toInt) ∨
      ∃ j q, seekRow a dir minr maxr col fuel target = some (Int32.ofNat j) ∧
        Nearest ps (slotRow q) col.toInt j q ∧ ¬ Ahead dir (slotRow q) target.toInt ∧
        ∀ p ∈ ps, ¬ Ahead dir (slotRow p) target.toInt → ¬ Ahead dir (slotRow p) (slotRow q) := by
  have hout (t : Int32) (hrange : ¬ (minr ≤ t ∧ t ≤ maxr))
      (hstart : if dir = 1 then minr.toInt ≤ t.toInt else t.toInt ≤ maxr.toInt) :
      ∀ p ∈ ps, Ahead dir (slotRow p) t.toInt := by
    intro p hp
    have hp' := hrows p hp
    rw [Int32.le_iff_toInt_le, Int32.le_iff_toInt_le] at hrange
    unfold Ahead
    split_ifs at hstart ⊢ <;> omega
  induction fuel generalizing target with
  | zero =>
    rw [Tui.seekRow]
    split_ifs with hrange
    · rw [Int32.le_iff_toInt_le, Int32.le_iff_toInt_le] at hrange
      split_ifs at hfuel <;> omega
    · exact .inl ⟨rfl, hout target hrange hstart⟩
  | succ fuel ih =>
    rw [Tui.seekRow]
    by_cases hrange : minr ≤ target ∧ target ≤ maxr
    · rw [if_pos hrange]
      rcases h.findInRow target hcol with ⟨hmiss, hempty⟩ | ⟨j, q, hfind, hnear⟩
      · have hnext : (target + dir).toInt = target.toInt + dir.toInt := by
          rw [Int32.le_iff_toInt_le, Int32.le_iff_toInt_le] at hrange
          rcases hdir with rfl | rfl <;> exact toInt_add_of_range (by simp; omega) (by simp; omega)
        have hahead {p : Product} (hp : p ∈ ps) :
            Ahead dir (slotRow p) (target + dir).toInt ↔ Ahead dir (slotRow p) target.toInt := by
          rw [hnext]
          exact ahead_next hdir (hempty p hp)
        have hneg : ¬ (0 : Int32) ≤ -1 := by decide
        rw [hmiss, Option.bind_eq_bind, Option.bind_some, if_neg hneg]
        have hsearch := ih (target + dir) (by rcases hdir with rfl | rfl <;> simp_all <;> omega)
          (by rcases hdir with rfl | rfl <;> simp_all <;> omega)
        rcases hsearch with ⟨hnone, hbehind⟩ | ⟨j, q, hfound, hnear, hq, hfirst⟩
        · exact .inl ⟨hnone, fun p hp => (hahead hp).1 (hbehind p hp)⟩
        · have hmem : q ∈ ps := List.mem_of_getElem? hnear.get
          exact .inr ⟨j, q, hfound, hnear, fun hbehind => hq ((hahead hmem).2 hbehind),
            fun p hp hp' => hfirst p hp fun hbehind => hp' ((hahead hp).1 hbehind)⟩
      · have hj := (List.getElem?_eq_some_iff.1 hnear.get).1
        have hpos : 0 ≤ Int32.ofNat j := by
          rw [Int32.le_iff_toInt_le, h.toInt_index hj]
          exact Int.natCast_nonneg j
        have hself : ¬ Ahead dir target.toInt target.toInt := by
          unfold Ahead
          split_ifs <;> exact lt_irrefl _
        rw [hfind, Option.bind_eq_bind, Option.bind_some, if_pos hpos]
        refine .inr ⟨j, q, rfl, hnear.row_eq.symm ▸ hnear, hnear.row_eq.symm ▸ hself, ?_⟩
        rw [hnear.row_eq]
        exact fun p _ hp => hp
    · rw [if_neg hrange]
      exact .inl ⟨rfl, hout target hrange hstart⟩

theorem not_ahead_next (hdir : IsStep dir) (x z : Int) :
    ¬ Ahead dir z (x + dir.toInt) ↔ Ahead dir x z := by
  have hminus : (-1 : Int32).toInt = -1 := by decide
  have hone : (1 : Int32).toInt = 1 := by decide
  rcases hdir with rfl | rfl
  · simp only [Ahead, if_true, hone]
    omega
  · simp only [Ahead, (by decide : ¬ (-1 : Int32) = 1), if_false, hminus]
    omega

/-- The two searches find the first of the nearest products of the next row. -/
theorem Holds.verticalTarget (h : Holds a ps) (hdir : IsStep dir) {p : Product} (hp : p ∈ ps)
    (hbounds : BoundsOf ps (minr, maxr)) :
    ∃ j q, verticalTarget a dir minr maxr p = some (Int32.ofNat j) ∧
      Nearest ps (slotRow q) (slotCol p) j q ∧
      IsNext (Ahead dir) (rows ps) (slotRow p) (slotRow q) := by
  obtain ⟨⟨lo, hlo, hlo'⟩, ⟨hi, hhi, hhi'⟩, hrows⟩ :=
    hbounds.resolve_left fun hnil => absurd (hnil.1 ▸ hp) List.not_mem_nil
  dsimp only at hlo' hhi' hrows
  have hmin := (appSlotRow_bounds lo.slotId).1
  have hmax := (appSlotRow_bounds hi.slotId).2
  rw [appSlotRow_toInt] at hmin hmax
  have hp' := hrows p hp
  have hcol : -9 ≤ (appSlotCol p.slotId).toInt ∧ (appSlotCol p.slotId).toInt ≤ 9 :=
    appSlotCol_toInt p ▸ slotCol_bounds p
  have hseek := h.seekRow hdir hcol hrows (hlo' ▸ hmin) (hhi' ▸ hmax)
    (maxr.toInt - minr.toInt + 1).toNat
  have hone : (1 : Int32).toInt = 1 := by decide
  have hminus : (-1 : Int32).toInt = -1 := by decide
  have htarget : (appSlotRow p.slotId + dir).toInt = slotRow p + dir.toInt := by
    rw [← appSlotRow_toInt] at hp' ⊢
    rcases hdir with rfl | rfl
    · exact toInt_add_of_range (by omega) (by omega)
    · exact toInt_add_of_range (by omega) (by omega)
  have hedge (x : Product) (hx : x ∈ ps) :
      ¬ Ahead dir (slotRow x) (if 0 < dir then minr else maxr).toInt := by
    have hx' := hrows x hx
    rcases hdir with rfl | rfl
    · simpa [Ahead] using hx'.1
    · simpa [Ahead] using hx'.2
  have hahead := hseek (appSlotRow p.slotId + dir)
    (by rcases hdir with rfl | rfl <;> simp [htarget, hone, hminus] <;> omega)
    (by rcases hdir with rfl | rfl <;> simp [htarget, hone, hminus] <;> omega)
  have hwrap := hseek (if 0 < dir then minr else maxr)
    (by rcases hdir with rfl | rfl <;> simp)
    (by rcases hdir with rfl | rfl <;> simp <;> omega)
  rw [htarget, appSlotCol_toInt] at hahead
  rw [appSlotCol_toInt] at hwrap
  unfold Tui.verticalTarget
  rcases hahead with ⟨hnone, hbehind⟩ | ⟨j, q, hfound, hnear, hq, hfirst⟩
  · have hlast (x : Product) (hx : x ∈ ps) : ¬ Ahead dir (slotRow p) (slotRow x) := fun hahead =>
      (not_ahead_next hdir (slotRow p) (slotRow x)).2 hahead (hbehind x hx)
    rcases hwrap with ⟨-, hbehind⟩ | ⟨j, q, hfound, hnear, -, hfirst⟩
    · exact absurd (hbehind p hp) (hedge p hp)
    · have hq : q ∈ ps := List.mem_of_getElem? hnear.get
      refine ⟨j, q, by simpa [hnone] using hfound, hnear, ⟨q, hq, rfl⟩, .inr ⟨?_, ?_⟩⟩
      · rintro z ⟨x, hx, rfl⟩
        exact hlast x hx
      · rintro z ⟨x, hx, rfl⟩
        exact hfirst x hx (hedge x hx)
  · have hj := (List.getElem?_eq_some_iff.1 hnear.get).1
    have hpos : ¬ Int32.ofNat j < 0 := by
      rw [Int32.lt_iff_toInt_lt, h.toInt_index hj]
      exact not_lt.2 (Int.natCast_nonneg j)
    have hq' := (not_ahead_next hdir (slotRow p) (slotRow q)).1 hq
    refine ⟨j, q, by simp [hfound, hpos], hnear, ⟨q, List.mem_of_getElem? hnear.get, rfl⟩,
      .inl ⟨hq', ?_⟩⟩
    rintro z ⟨x, hx, rfl⟩ hahead
    exact hfirst x hx ((not_ahead_next hdir (slotRow p) (slotRow x)).2 hahead)

end Vertical

end Sshnack.Tui
