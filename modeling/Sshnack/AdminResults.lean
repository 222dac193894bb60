import Sshnack.ServiceChecks
import Sshnack.ServicePlans

/-!
# What the admin is told

An UPDATE that matches no row reports success. `product_restock` notices a missing slot when it looks
up the item to log; `product_update_price` has nothing of the kind and returns 0 for an item that does
not exist. The row that a restock logs carries the low 32 bits of the item id. A sum beyond 64 bits is
stored as a REAL, which the tables here do not hold, so the results on a restock are about sums that
fit.
-/

namespace Sshnack

open Txn

/-- `product_restock` returns 0 only if it added `qty` pieces to the slot and logged them for its
item; without the slot it fails and changes nothing. -/
def HonestRestock (d : Db) (slotId qty : Int32) : Prop :=
  ∀ flt, (outcome ⟨d, none⟩ (.txn (.productRestock slotId qty), flt) = .ok (.code 0) →
      ∃ slot, d.findSlot slotId.toInt = some slot ∧ 0 < qty.toInt ∧
        (serve ⟨d, none⟩ (.txn (.productRestock slotId qty), flt)).committed.toTables =
          { d.updateQuantity slotId.toInt (· + qty.toInt) with
            stockLogs := d.stockLogs ++ [⟨slot.itemId, .addition, qty.toInt⟩] }) ∧
    (d.findSlot slotId.toInt = none →
      (∃ rc, outcome ⟨d, none⟩ (.txn (.productRestock slotId qty), flt) = .error rc) ∧
        (serve ⟨d, none⟩ (.txn (.productRestock slotId qty), flt)).committed = d)

/-- `product_update_price` returns 0 only if it set the price of the item; without the item it fails
and changes nothing. -/
def HonestReprice (d : Db) (itemId priceGr : Int32) : Prop :=
  ∀ flt, (outcome ⟨d, none⟩ (.updatePrice itemId priceGr, flt) = .ok (.code 0) →
      ∃ item, d.findItem itemId.toInt = some item ∧ 0 < priceGr.toInt ∧
        (serve ⟨d, none⟩ (.updatePrice itemId priceGr, flt)).committed.toTables =
          d.updatePrice itemId.toInt priceGr.toInt) ∧
    (d.findItem itemId.toInt = none →
      (∃ rc, outcome ⟨d, none⟩ (.updatePrice itemId priceGr, flt) = .error rc) ∧
        (serve ⟨d, none⟩ (.updatePrice itemId priceGr, flt)).committed = d)

/-- The sum that a restock stores is an integer of 64 bits. -/
def SumFits (d : Db) (slotId qty : Int32) : Prop :=
  ∀ slot, d.findSlot slotId.toInt = some slot → 0 < qty → InInt64 (slot.quantity + qty.toInt)

/-- A slot that takes `qty` pieces has an item whose id fits an int, or the low 32 bits of that id are
the id of no item. -/
def LogsItem (d : Db) (slotId qty : Int32) : Prop :=
  ∀ slot, d.findSlot slotId.toInt = some slot → 0 < qty →
    (Int32.ofInt slot.itemId).toInt ∈ d.itemIds → (Int32.ofInt slot.itemId).toInt = slot.itemId

theorem honestRestock_iff {d : Db} {slotId qty : Int32} (hsum : SumFits d slotId qty) :
    HonestRestock d slotId qty ↔ LogsItem d slotId qty := by
  constructor
  · intro h slot hslot hpos hid
    have hvalid := (Tables.valid_restocked_iff d.valid hslot hpos _).2 ⟨hsum slot hslot hpos, hid⟩
    have hplan : (Operation.restock slotId qty).plan d.toTables =
        .ok (.code 0, restockChange slotId qty (Int32.ofInt slot.itemId)) := by
      rw [Operation.plan, if_neg (Int32.not_le.2 hpos), hslot]
    have hsettle : settle d ((Operation.restock slotId qty).plan d.toTables) =
        (.ok (.code 0), ⟨_, hvalid⟩) := by
      rw [hplan, settle, apply_restockChange, stored_of_valid hvalid]
    have hout := outcome_quiet (.restock slotId qty) d
    have hserve := serve_quiet (.restock slotId qty) d
    rw [hsettle] at hout hserve
    obtain ⟨slot', hslot', -, htables⟩ := (h fun _ => false).1 hout
    obtain rfl : slot = slot' := Option.some.inj (hslot.symm.trans hslot')
    have hlogs := congrArg Tables.stockLogs
      ((congrArg (fun k : Conn Db => k.committed.toTables) hserve).symm.trans htables)
    have hlast := List.append_cancel_left hlogs
    simpa using hlast
  · intro h flt
    obtain ⟨d', hserve, heffect⟩ := serve_effect d (.txn (.productRestock slotId qty), flt)
    rw [hserve]
    constructor
    · intro hout
      rw [hout] at heffect
      cases heffect with
      | restocked _ _ slot _ hpos hslot htables =>
        have hvalid := d'.valid
        rw [htables, Tables.valid_restocked_iff d.valid hslot hpos] at hvalid
        refine ⟨slot, hslot, Int32.lt_iff_toInt_lt.1 hpos, ?_⟩
        rw [htables, Tables.restocked, h slot hslot hpos hvalid.2]
        rfl
    · intro hmissing
      generalize outcome ⟨d, none⟩ (.txn (.productRestock slotId qty), flt) = a at heffect
      cases heffect with
      | failed _ rc => exact ⟨⟨rc, rfl⟩, rfl⟩
      | restocked _ _ slot _ _ hslot _ =>
        rw [hmissing] at hslot
        cases hslot

theorem honestReprice_iff (d : Db) (itemId priceGr : Int32) :
    HonestReprice d itemId priceGr ↔ (0 < priceGr → ∃ item, d.findItem itemId.toInt = some item) := by
  constructor
  · intro h hpos
    have hvalid := Tables.valid_updatePrice d.valid itemId.toInt (inInt64_toInt priceGr)
    have hout := outcome_quiet (.updatePrice itemId priceGr) d
    rw [Operation.plan, if_neg (Int32.not_le.2 hpos), settle, apply_repriceChange,
      stored_of_valid hvalid] at hout
    obtain ⟨item, hitem, -⟩ := (h fun _ => false).1 hout
    exact ⟨item, hitem⟩
  · intro h flt
    obtain ⟨d', hserve, heffect⟩ := serve_effect d (.updatePrice itemId priceGr, flt)
    rw [hserve]
    constructor
    · intro hout
      rw [hout] at heffect
      cases heffect with
      | repriced _ _ _ hpos htables =>
        obtain ⟨item, hitem⟩ := h hpos
        exact ⟨item, hitem, Int32.lt_iff_toInt_lt.1 hpos, htables⟩
    · intro hmissing
      generalize outcome ⟨d, none⟩ (.updatePrice itemId priceGr, flt) = a at heffect
      cases heffect with
      | failed _ rc => exact ⟨⟨rc, rfl⟩, rfl⟩
      | repriced _ _ _ hpos _ =>
        obtain ⟨item, hitem⟩ := h hpos
        rw [hmissing] at hitem
        cases hitem

/-- The result of a restock whose sum fits is honest exactly if the slot has an item whose id is logged
as it is, and the result of a price change exactly if the item exists. -/
theorem adminResults_honest_iff (d : Db) (slotId qty itemId priceGr : Int32) :
    (SumFits d slotId qty → (HonestRestock d slotId qty ↔ LogsItem d slotId qty)) ∧
      (HonestReprice d itemId priceGr ↔
        (0 < priceGr → ∃ item, d.findItem itemId.toInt = some item)) :=
  ⟨honestRestock_iff, honestReprice_iff d itemId priceGr⟩

theorem adminResults_honest_seed :
    SumFits seed 11 5 ∧ LogsItem seed 11 5 ∧ HonestRestock seed 11 5 := by
  have hslot : seed.findSlot (11 : Int32).toInt = some ⟨11, 1, 18⟩ := by decide
  have hsum : SumFits seed 11 5 := by
    intro slot hfind _
    obtain rfl := Option.some.inj (hslot.symm.trans hfind)
    decide
  have hlogs : LogsItem seed 11 5 := by
    intro slot hfind _ _
    obtain rfl := Option.some.inj (hslot.symm.trans hfind)
    decide
  exact ⟨hsum, hlogs, ((adminResults_honest_iff seed 11 5 31 100).1 hsum).2 hlogs⟩

theorem adminResults_not_honest : ¬ ∀ (d : Db) (slotId qty itemId priceGr : Int32),
    HonestRestock d slotId qty ∧ HonestReprice d itemId priceGr := by
  intro h
  have hmissing : seed.findItem (31 : Int32).toInt = none := by decide
  obtain ⟨⟨rc, hfails⟩, -⟩ := ((h seed 11 1 31 100).2 fun _ => false).2 hmissing
  have hreturns : outcome ⟨seed, none⟩ (.updatePrice 31 100, fun _ => false) = .ok (.code 0) := by
    decide
  rw [hreturns] at hfails
  cases hfails

end Sshnack
