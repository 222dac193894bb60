import Sshnack.Catalogue
import Sshnack.ServiceChecks
import Sshnack.ServicePlans

/-!
# Purchases, exactly

The guards of `orders_purchase` compare the low 32 bits of what is stored, and its updates act on the
stored values. The low 32 bits of an amount are never more than the amount, and a price is read
exactly, so a purchase that is made was covered, and it takes the price and one piece.
-/

namespace Sshnack

open Txn Machine

/-- One piece of the item sold from the slot to the user. -/
def Tables.sold (t : Tables) (userId slotId itemId price : Int) : Tables :=
  { t with
    users := t.users.map fun u =>
      if u.userId = userId then { u with balance := u.balance - price } else u
    stock := t.stock.map fun s =>
      if s.slotId = slotId then { s with quantity := s.quantity - 1 } else s
    transactions := t.transactions ++ [⟨.purchase, userId, some itemId, some 1, -price⟩]
    stockLogs := t.stockLogs ++ [⟨itemId, .removal, -1⟩] }

theorem Catalogue.purchased_eq_sold {t : Tables} (h : Catalogue t) {slot : Slot} {item : Item}
    (hslot : slot ∈ t.stock) (hitem : item ∈ t.items) (userId slotId : Int) :
    t.purchased userId slotId (Int32.ofInt slot.itemId) (Int32.ofInt item.price) =
      t.sold userId slotId slot.itemId item.price := by
  obtain ⟨hprice, hpos⟩ := h.toInt_price hitem
  have hneg : (-Int32.ofInt item.price).toInt = -item.price := by
    rw [toInt_neg_of_ne_min (by omega), hprice]
  unfold Tables.purchased
  rw [hprice, hneg, h.toInt_itemId hslot]
  rfl

theorem Catalogue.covered {d : Db} (h : Catalogue d.toTables) {slot : Slot} {item : Item}
    {user : User} (hslot : slot ∈ d.stock) (hitem : item ∈ d.items) (huser : user ∈ d.users)
    (hquantity : 0 < Int32.ofInt slot.quantity)
    (hbalance : Int32.ofInt item.price ≤ Int32.ofInt user.balance) :
    1 ≤ slot.quantity ∧ item.price ≤ user.balance := by
  have hq := toInt_ofInt_le (d.valid.stock.check slot hslot)
  have hb := toInt_ofInt_le (d.valid.users.check user huser)
  have hpos : 0 < (Int32.ofInt slot.quantity).toInt := Int32.lt_iff_toInt_lt.1 hquantity
  have hle := Int32.le_iff_toInt_le.1 hbalance
  rw [(h.toInt_price hitem).1] at hle
  exact ⟨by omega, by omega⟩

/-- From the items and slots of a reachable database and any stored balances and quantities: a
purchase that returns 0 was covered by stock and balance, and did nothing but the sale. -/
theorem purchase_sound (xs : List FaultyCall) (d : Db)
    (hitems : d.items = (run serve start xs).committed.items)
    (hslots : d.stock.map (fun s => (s.slotId, s.itemId)) =
      (run serve start xs).committed.stock.map fun s => (s.slotId, s.itemId))
    (userId slotId : Int32) (flt : ℕ → Bool)
    (hreturns : outcome ⟨d, none⟩ (.txn (.ordersPurchase userId slotId), flt) = .ok (.code 0)) :
    ∃ slot item user, d.findSlot slotId.toInt = some slot ∧ 1 ≤ slot.quantity ∧
      d.findItem slot.itemId = some item ∧ d.findUser userId.toInt = some user ∧
      item.price ≤ user.balance ∧
      (serve ⟨d, none⟩ (.txn (.ordersPurchase userId slotId), flt)).committed.toTables =
        d.sold userId.toInt slotId.toInt slot.itemId item.price := by
  have hc := catalogue_of_reachable xs hitems hslots
  obtain ⟨d', hserve, heffect⟩ := serve_effect d (.txn (.ordersPurchase userId slotId), flt)
  rw [hreturns] at heffect
  rw [hserve]
  cases heffect with
  | purchased _ _ slot item user _ hslot hitem huser hquantity hbalance htables =>
    have hslot' := (d.findSlot_eq_some hslot).1
    have hitem' := (d.findItem_eq_some hitem).1
    obtain ⟨hq, hb⟩ := hc.covered hslot' hitem' (d.findUser_eq_some huser).1 hquantity hbalance
    refine ⟨slot, item, user, hslot, hq, hitem, huser, hb, ?_⟩
    rw [htables]
    exact hc.purchased_eq_sold hslot' hitem' userId.toInt slotId.toInt

/-- User 1 deposited 500. -/
def colaBuyer : Db := (run serve start [(.txn (.balanceDeposit 1 500), fun _ => false)]).committed

theorem purchase_sound_cola :
    ∃ slot item user, colaBuyer.findSlot 11 = some slot ∧ 1 ≤ slot.quantity ∧
      colaBuyer.findItem slot.itemId = some item ∧ colaBuyer.findUser 1 = some user ∧
      item.price ≤ user.balance ∧
      (serve ⟨colaBuyer, none⟩ (.txn (.ordersPurchase 1 11), fun _ => false)).committed.toTables =
        colaBuyer.sold 1 11 slot.itemId item.price :=
  purchase_sound [(.txn (.balanceDeposit 1 500), fun _ => false)] colaBuyer rfl rfl 1 11
    (fun _ => false) (by decide)

end Sshnack
