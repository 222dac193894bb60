import Sshnack.Catalogue
import Sshnack.StockBuffers
import Sshnack.StockNames

/-!
# The list of products

The loop of `products_list` reads the join of the slots and the items, each slot once and in the
order of the slots. In a reachable database the slots are stored in that order, every list fits the
buffers of its response, and no name needs an escape.
-/

namespace Sshnack

open Txn

/-- The product in a slot, as `products_list` reads it. -/
def Tables.productIn (t : Tables) (s : Slot) : Option Product :=
  (t.findItem s.itemId).map fun i => readProduct (productRow (s, i))

def Tables.shelf (t : Tables) : List Product := t.stock.filterMap t.productIn

/-- The slots are stored in the order of their ids. -/
def SlotsSorted (stock : List Slot) : Prop := stock.Pairwise fun s s' => s.slotId < s'.slotId

/-! ### The cursor -/

section Cursor

variable {d : Db} {before rest : List Slot} {s : Slot}

theorem lowestSlot_sorted (h : SlotsSorted rest) : lowestSlot rest = rest.head? := by
  induction rest with
  | nil => rfl
  | cons s rest ih =>
    obtain ⟨hfirst, hrest⟩ := List.pairwise_cons.1 h
    rw [lowestSlot, ih hrest]
    cases rest with
    | nil => rfl
    | cons s' rest => exact congrArg some (if_neg (hfirst s' List.mem_cons_self).not_gt)

/-- Past the last slot that was read. -/
theorem nextSlot_append (hsorted : SlotsSorted d.stock) (hstock : d.stock = before ++ rest) :
    d.nextSlot (before.getLast?.map Slot.slotId) = rest.head? := by
  rw [hstock] at hsorted
  obtain ⟨hbefore, hrest, hcross⟩ := List.pairwise_append.1 hsorted
  have hfilter : d.stock.filter (fun s =>
      decide (∀ l ∈ before.getLast?.map Slot.slotId, l < s.slotId)) = rest := by
    rw [hstock, List.filter_append, List.filter_eq_nil_iff.2, List.filter_eq_self.2, List.nil_append]
    · intro s hs
      rw [decide_eq_true_iff]
      rintro l hl
      obtain ⟨s', hs', rfl⟩ := Option.map_eq_some_iff.1 hl
      exact hcross s' (List.mem_of_mem_getLast? hs') s hs
    · intro s hs
      rw [decide_eq_true_iff]
      intro hall
      obtain ⟨front, last, rfl⟩ := List.eq_nil_or_concat' before |>.resolve_left
        (List.ne_nil_of_mem hs)
      have hlast := hall last.slotId (by simp)
      rcases List.mem_append.1 hs with hfront | hself
      · exact absurd ((List.pairwise_append.1 hbefore).2.2 s hfront last (by simp)) hlast.not_gt
      · rw [List.mem_singleton.1 hself] at hlast
        exact absurd hlast (lt_irrefl _)
  rw [Tables.nextSlot, hfilter, lowestSlot_sorted hrest]

theorem Db.slotItem_of_mem (d : Db) (hs : s ∈ d.stock) :
    ∃ i, d.findItem s.itemId = some i ∧ d.slotItem s.slotId = some (s, i) := by
  obtain ⟨i, hi, hid⟩ := List.mem_map.1 (d.valid.stock.item s hs)
  have hitem : d.findItem s.itemId = some i :=
    (Keyed.find_eq_some_iff d.valid.items.key).2 ⟨hi, hid⟩
  have hslot : d.findSlot s.slotId = some s :=
    (Keyed.find_eq_some_iff d.valid.stock.key).2 ⟨hs, rfl⟩
  exact ⟨i, hitem, by rw [Tables.slotItem, hslot, Option.bind_some, hitem, Option.map_some]⟩

theorem fault_later {flt : ℕ → Bool} (h : ∃ n, flt (n + 1) = true) : ∃ n, flt n = true := by
  obtain ⟨n, hn⟩ := h
  exact ⟨n + 1, hn⟩

/-- The loop from any position: it reads the rest of the slots, unless a call fails. -/
theorem run_productsLoop (hsorted : SlotsSorted d.stock) (before : List Slot)
    (hstock : d.stock = before ++ rest) {rows : ℕ} (hrows : rest.length < rows) (ps : List Product)
    (flt : ℕ → Bool) :
    ∃ result, (productsLoop rows (before.getLast?.map Slot.slotId) ps).run Stmt.perform flt
        ⟨d, none⟩ = (result, ⟨d, none⟩) ∧
      (result = .error (-1) ∧ (∃ n, flt n = true) ∨
        result = .ok (.products (ps ++ rest.filterMap d.productIn))) := by
  induction rest generalizing before rows ps flt with
  | nil =>
    obtain ⟨rows, rfl⟩ := Nat.exists_eq_succ_of_ne_zero (Nat.ne_zero_of_lt hrows)
    cases hflt : flt 0 with
    | true =>
      exact ⟨_, Prog.run_call_fault _ _ _ hflt rfl, .inl ⟨rfl, 0, hflt⟩⟩
    | false =>
      have hnext : (Conn.mk d none).perform Stmt.perform
          (.step (.selectProductsAfter (before.getLast?.map Slot.slotId))) = (.done, ⟨d, none⟩) := by
        apply Conn.perform_step_done (d := d)
        rw [Conn.view_none, Stmt.perform, nextSlot_append hsorted hstock]
        rfl
      refine ⟨_, (Prog.run_call_quiet _ _ _ _ hflt).trans ?_, .inr rfl⟩
      rw [hnext, List.filterMap_nil, List.append_nil]
      rfl
  | cons s rest ih =>
    obtain ⟨rows, rfl⟩ := Nat.exists_eq_succ_of_ne_zero (Nat.ne_zero_of_lt hrows)
    cases hflt : flt 0 with
    | true =>
      exact ⟨_, Prog.run_call_fault _ _ _ hflt rfl, .inl ⟨rfl, 0, hflt⟩⟩
    | false =>
      have hs : s ∈ d.stock := hstock ▸ List.mem_append_right _ List.mem_cons_self
      obtain ⟨i, hitem, hslot⟩ := d.slotItem_of_mem hs
      have hnext : (Conn.mk d none).perform Stmt.perform
          (.step (.selectProductsAfter (before.getLast?.map Slot.slotId))) =
            (.row (productRow (s, i)), ⟨d, none⟩) := by
        apply Conn.perform_step_row (d := d)
        rw [Conn.view_none, Stmt.perform, nextSlot_append hsorted hstock, List.head?_cons,
          Option.bind_some, hslot, Option.map_some]
      have hcursor : cursorAfter (productRow (s, i)) =
          (before ++ [s]).getLast?.map Slot.slotId := by
        rw [List.getLast?_concat]
        rfl
      have hproduct : d.productIn s = some (readProduct (productRow (s, i))) := by
        rw [Tables.productIn, hitem, Option.map_some]
      obtain ⟨result, hrun, hresult⟩ := ih (before ++ [s]) (by rw [hstock]; simp)
        (Nat.lt_of_succ_lt_succ hrows) (ps ++ [readProduct (productRow (s, i))])
        (fun n => flt (n + 1))
      rw [← hcursor] at hrun
      rw [List.append_assoc, List.singleton_append] at hresult
      refine ⟨result, (Prog.run_call_quiet _ _ _ _ hflt).trans ?_, ?_⟩
      · rw [hnext]
        exact hrun
      · rw [List.filterMap_cons_some hproduct]
        exact hresult.imp_left (And.imp_right fault_later)

/-- `products_list` returns the whole shelf, unless a call fails. -/
theorem run_productsList (hsorted : SlotsSorted d.stock) {rows : ℕ} (hrows : d.stock.length < rows)
    (flt : ℕ → Bool) : ∃ result, (productsList rows).run Stmt.perform flt ⟨d, none⟩ =
        (result, ⟨d, none⟩) ∧
      (result = .error (-1) ∧ (∃ n, flt n = true) ∨ result = .ok (.products d.shelf)) := by
  rw [productsList, exec_bind]
  cases hflt : flt 0 with
  | true => exact ⟨_, Prog.run_call_fault _ _ _ hflt rfl, .inl ⟨rfl, 0, hflt⟩⟩
  | false =>
    obtain ⟨result, hrun, hresult⟩ := run_productsLoop hsorted [] rfl hrows []
      fun n => flt (n + 1)
    refine ⟨result, (Prog.run_call_quiet _ _ _ _ hflt).trans hrun, ?_⟩
    exact hresult.imp_left (And.imp_right fault_later)

end Cursor

/-! ### The shelf of a reachable database -/

/-- The items and slots are those of the seed, and so are the names. -/
structure OnShelf (t : Tables) : Prop extends Catalogue t where
  names : t.items.map (fun i => (i.itemId, i.name)) = seedItems.map fun i => (i.itemId, i.name)

theorem OnShelf.effect {d d' : Db} {call : ServiceCall} {a : Except Int32 Answer}
    (h : OnShelf d.toTables) (he : Effect d call a d') : OnShelf d'.toTables where
  toCatalogue := h.toCatalogue.effect he
  names := by
    rw [← h.names]
    rcases he.items with hsame | ⟨itemId, priceGr, -, -, hitems⟩
    · rw [hsame]
    · rw [hitems]
      exact Keyed.map_update fun _ => rfl

section Shelf

variable {t : Tables}

theorem OnShelf.sorted (h : OnShelf t) : SlotsSorted t.stock := by
  have hseed : (seedStock.map fun s => (s.slotId, s.itemId)).Pairwise fun p p' => p.1 < p'.1 := by
    decide
  rw [← h.slots, List.pairwise_map] at hseed
  exact hseed

theorem OnShelf.length (h : OnShelf t) : t.stock.length = 30 := by
  have hslots := congrArg List.length h.slots
  rwa [List.length_map, List.length_map] at hslots

theorem Tables.mem_shelf {p : Product} (hp : p ∈ t.shelf) :
    ∃ s ∈ t.stock, ∃ i ∈ t.items, t.findItem s.itemId = some i ∧
      p = readProduct (productRow (s, i)) := by
  obtain ⟨s, hs, hproduct⟩ := List.mem_filterMap.1 hp
  obtain ⟨i, hitem, rfl⟩ := Option.map_eq_some_iff.1 hproduct
  exact ⟨s, hs, i, (t.findItem_eq_some hitem).1, hitem, rfl⟩

/-- The names of the seed are short and need no escape. -/
theorem seed_names : ∀ i ∈ seedItems, 0 ∉ i.name ∧ i.name.length ≤ 22 ∧ 34 ∉ i.name ∧ 92 ∉ i.name := by
  decide

theorem OnShelf.readName (h : OnShelf t) (s : Slot) {i : Item} (hi : i ∈ t.items) :
    (readProduct (productRow (s, i))).name = i.name ∧ i.name.length ≤ 22 ∧ Verbatim i.name := by
  have hmem : (i.itemId, i.name) ∈ seedItems.map fun i => (i.itemId, i.name) := by
    rw [← h.names]
    exact List.mem_map_of_mem hi
  obtain ⟨j, hj, heq⟩ := List.mem_map.1 hmem
  obtain ⟨hnul, hshort, hquote, hslash⟩ := seed_names j hj
  rw [(Prod.mk.inj heq).2] at hnul hshort hquote hslash
  refine ⟨?_, hshort, hquote, hslash⟩
  change (i.name.takeWhile (· ≠ 0)).take (maxNameLen - 1) = i.name
  rw [List.takeWhile_eq_self_iff.2 fun c hc => by simpa using fun hz : c = 0 => hnul (hz ▸ hc)]
  exact List.take_of_length_le (hshort.trans (by decide))

theorem OnShelf.name (h : OnShelf t) {p : Product} (hp : p ∈ t.shelf) :
    p.name.length ≤ 22 ∧ Verbatim p.name := by
  obtain ⟨s, -, i, hi, -, rfl⟩ := Tables.mem_shelf hp
  obtain ⟨hname, hplain⟩ := h.readName s hi
  rwa [hname]

theorem intWidth_le (x : Int32) : intWidth x ≤ 11 := by
  rw [intWidth, ← formatInt_length_eq]
  exact formatInt_length x

theorem OnShelf.width (h : OnShelf t) : ∀ p ∈ t.shelf, productWidth p ≤ 66 := by
  intro p hp
  have hname := (h.name hp).1
  have h₁ := intWidth_le p.slotId
  have h₂ := intWidth_le p.itemId
  have h₃ := intWidth_le p.priceGr
  have h₄ := intWidth_le p.stockQty
  unfold productWidth
  omega

/-- Whatever the prices and the quantities are, the list fits its buffers. -/
theorem OnShelf.fits (h : OnShelf t) : StockFits t.shelf := by
  have hlisted : ∀ p ∈ t.shelf, Listed p := by
    intro p hp
    obtain ⟨s, -, i, -, -, rfl⟩ := Tables.mem_shelf hp
    exact listed_readProduct _
  have hlen : t.shelf.length ≤ 30 := h.length ▸ List.length_filterMap_le _ _
  have hsum : listingWidth t.shelf ≤ t.shelf.length * 66 := by
    have hle := List.sum_le_card_nsmul (t.shelf.map productWidth) 66 fun w hw => by
      obtain ⟨p, hp, rfl⟩ := List.mem_map.1 hw
      exact h.width p hp
    simpa [listingWidth] using hle
  exact stockFits_of_narrow hlisted (by omega) (by omega)

end Shelf

end Sshnack
