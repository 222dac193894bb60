import Sshnack.SchemaChecks
import Sshnack.ServiceCalls

/-!
# Which service calls meet the schema

The tables that an operation wants to store meet the schema exactly under conditions on the row of
its user and the row of its slot, and on the ids of the items, which no operation changes.
-/

namespace Sshnack

theorem inInt64_toInt (x : Int32) : InInt64 x.toInt := by
  have hlo := x.le_toInt
  have hhi := x.toInt_lt
  unfold InInt64
  omega

namespace Tables

variable {t : Tables} {userId slotId : Int} {user : User} {slot : Slot}

theorem valid_purchased_iff (h : t.Valid) (huser : t.findUser userId = some user)
    (hslot : t.findSlot slotId = some slot) (itemId price : Int32) :
    (t.purchased userId slotId itemId price).Valid ↔
      (0 ≤ user.balance - price.toInt ∧ InInt64 (user.balance - price.toInt)) ∧
      1 ≤ slot.quantity ∧ (-price).toInt < 0 ∧ itemId.toInt ∈ t.itemIds := by
  have hquantity : 0 ≤ slot.quantity - 1 ∧ InInt64 (slot.quantity - 1) ↔ 1 ≤ slot.quantity := by
    have hrange := (h.stock.range slot (List.mem_of_find?_eq_some hslot)).2
    unfold InInt64 at hrange ⊢
    omega
  have hids : userId ∈ t.userIds := mem_userIds huser
  rw [← userIds_updateBalance t userId (· - price.toInt)] at hids
  have hbalance := valid_updateBalance_iff h userId (· - price.toInt)
  unfold purchased
  rw [valid_insertLog_iff, valid_insertTransaction_iff]
  constructor
  · rintro ⟨⟨hstock, ⟨_, _, hneg⟩, _, _, hitem⟩, _⟩
    have husers := h.of_updateQuantity hstock
    exact ⟨hbalance.1 husers user huser,
      hquantity.1 ((valid_updateQuantity_iff husers _ _).1 hstock slot hslot), hneg, hitem _ rfl⟩
  · rintro ⟨hb, hq, hneg, hitem⟩
    have husers := hbalance.2 fun u hu => by
      obtain rfl : user = u := Option.some.inj (huser.symm.trans hu)
      exact hb
    have hstock := (valid_updateQuantity_iff husers slotId (· - 1)).2 fun s hs => by
      obtain rfl : slot = s := Option.some.inj (hslot.symm.trans hs)
      exact hquantity.2 hq
    refine ⟨⟨hstock, ⟨rfl, ?_, hneg⟩, inInt64_toInt _, hids, ?_⟩, ?_⟩
    · rintro q ⟨⟩
      decide
    · rintro i ⟨⟩
      exact hitem
    · exact ⟨neg_one_lt_zero, inInt64_toInt (-1), hitem⟩

theorem valid_deposited_iff (h : t.Valid) (userId : Int32) {amountGr : Int32} (hpos : 0 < amountGr) :
    (t.deposited userId.toInt amountGr.toInt).Valid ↔
      ∀ user, t.findUser userId.toInt = some user → InInt64 (user.balance + amountGr.toInt) := by
  have hamount : 0 < amountGr.toInt := Int32.lt_iff_toInt_lt.1 hpos
  have hupsert := valid_upsertBalance_iff h (inInt64_toInt userId) hamount.le (inInt64_toInt amountGr)
  unfold deposited
  rw [valid_insertTransaction_iff, hupsert, and_iff_left]
  exact ⟨⟨rfl, rfl, hamount⟩, inInt64_toInt amountGr, mem_userIds_upsertBalance t _ _, by simp⟩

theorem valid_refunded_iff (h : t.Valid) (huser : t.findUser userId = some user) (balance : Int32) :
    (t.refunded userId balance).Valid ↔ (-balance).toInt < 0 := by
  have hids : userId ∈ t.userIds := mem_userIds huser
  rw [← userIds_updateBalance t userId fun _ => 0] at hids
  have hzero : (t.updateBalance userId fun _ => 0).Valid :=
    (valid_updateBalance_iff h userId fun _ => 0).2 fun _ _ => ⟨le_rfl, by decide⟩
  unfold refunded
  rw [valid_insertTransaction_iff]
  constructor
  · rintro ⟨_, ⟨_, _, hneg⟩, _⟩
    exact hneg
  · intro hneg
    exact ⟨hzero, ⟨rfl, rfl, hneg⟩, inInt64_toInt _, hids, by simp⟩

theorem valid_restocked_iff (h : t.Valid) (hslot : t.findSlot slotId = some slot) {qty : Int32}
    (hpos : 0 < qty) (itemId : Int32) :
    (t.restocked slotId qty.toInt itemId).Valid ↔
      InInt64 (slot.quantity + qty.toInt) ∧ itemId.toInt ∈ t.itemIds := by
  have hqty : 0 < qty.toInt := Int32.lt_iff_toInt_lt.1 hpos
  have hold := h.stock.check slot (List.mem_of_find?_eq_some hslot)
  unfold restocked
  rw [valid_insertLog_iff, valid_updateQuantity_iff h]
  constructor
  · rintro ⟨hrow, _, _, hitem⟩
    exact ⟨(hrow slot hslot).2, hitem⟩
  · rintro ⟨hrange, hitem⟩
    refine ⟨fun s hs => ?_, hqty, inInt64_toInt qty, hitem⟩
    obtain rfl : slot = s := Option.some.inj (hslot.symm.trans hs)
    exact ⟨by omega, hrange⟩

end Tables

end Sshnack
