import Sshnack.EffectFrames
import Sshnack.ServiceRuns

/-!
# What no service call changes, and 32-bit reads of it

No service inserts, deletes or renumbers an item or a slot, and a price is only ever set to a
positive C int. So the ids and prices that the services read through `sqlite3_column_int` are read
exactly, in every reachable database.
-/

namespace Sshnack

open Txn

theorem toInt_ofInt_of_nonneg {x : Int} (h₀ : 0 ≤ x) (h₁ : x < 2 ^ 31) :
    (Int32.ofInt x).toInt = x := Int32.toInt_ofInt_of_le (by omega) h₁

/-- The low 32 bits of a stored amount are never more than the amount. -/
theorem toInt_ofInt_le {x : Int} (h : 0 ≤ x) : (Int32.ofInt x).toInt ≤ x := by
  have hsize : (Int32.size : Int) = 2 ^ 32 := rfl
  rw [Int32.toInt_ofInt, Int.bmod_def, hsize]
  split_ifs <;> omega

theorem toInt_neg_of_ne_min {x : Int32} (h : x.toInt ≠ -2 ^ 31) : (-x).toInt = -x.toInt := by
  have hlo := x.le_toInt
  have hhi := x.toInt_lt
  rw [Int32.toInt_neg, Int.bmod_eq_of_le] <;> omega

/-- The items and slots are those of the seed, and every price is a positive C int. -/
structure Catalogue (t : Tables) : Prop where
  prices : ∀ i ∈ t.items, 0 < i.price ∧ i.price < 2 ^ 31
  itemIds : t.itemIds = seedTables.itemIds
  slots : t.stock.map (fun s => (s.slotId, s.itemId)) = seedStock.map fun s => (s.slotId, s.itemId)

theorem catalogue_seed : Catalogue seedTables where
  prices := by decide
  itemIds := rfl
  slots := rfl

theorem Catalogue.effect {d d' : Db} {call : ServiceCall} {a : Except Int32 Answer}
    (h : Catalogue d.toTables) (he : Effect d call a d') : Catalogue d'.toTables where
  prices := by
    rcases he.items with hsame | ⟨itemId, priceGr, _, hprice, hitems⟩
    · rw [hsame]
      exact h.prices
    · rw [hitems]
      intro i hi
      obtain ⟨j, hj, rfl⟩ := List.mem_map.1 hi
      split_ifs
      · exact ⟨Int32.lt_iff_toInt_lt.1 hprice, priceGr.toInt_lt⟩
      · exact h.prices j hj
  itemIds := he.itemIds.trans h.itemIds
  slots := he.slots.trans h.slots

theorem Catalogue.toInt_price {t : Tables} (h : Catalogue t) {i : Item} (hi : i ∈ t.items) :
    (Int32.ofInt i.price).toInt = i.price ∧ 0 < i.price :=
  ⟨toInt_ofInt_of_nonneg (h.prices i hi).1.le (h.prices i hi).2, (h.prices i hi).1⟩

theorem Catalogue.toInt_itemId {t : Tables} (h : Catalogue t) {s : Slot} (hs : s ∈ t.stock) :
    (Int32.ofInt s.itemId).toInt = s.itemId := by
  have hmem : (s.slotId, s.itemId) ∈ seedStock.map fun s => (s.slotId, s.itemId) := by
    rw [← h.slots]
    exact List.mem_map_of_mem hs
  have hall : ∀ p ∈ seedStock.map (fun s => (s.slotId, s.itemId)), 0 ≤ p.2 ∧ p.2 < 2 ^ 31 := by
    decide
  exact toInt_ofInt_of_nonneg (hall _ hmem).1 (hall _ hmem).2

theorem catalogue_reachable (xs : List FaultyCall) :
    Settled (fun d => Catalogue d.toTables) (Machine.run serve start xs) :=
  reachable_invariant (P := fun _ _ => True) catalogue_seed
    (fun _ _ _ _ h _ he => h.effect he) xs (Machine.meets_true serve start xs)

/-- Tables with the items and slots of a reachable database, whatever the amounts are. -/
theorem catalogue_of_reachable {t : Tables} (xs : List FaultyCall)
    (hitems : t.items = (Machine.run serve start xs).committed.items)
    (hslots : t.stock.map (fun s => (s.slotId, s.itemId)) =
      (Machine.run serve start xs).committed.stock.map fun s => (s.slotId, s.itemId)) :
    Catalogue t := by
  have hc := (catalogue_reachable xs).2
  refine ⟨?_, ?_, hslots.trans hc.slots⟩
  · rw [hitems]
    exact hc.prices
  · rw [Tables.itemIds, hitems]
    exact hc.itemIds

end Sshnack
