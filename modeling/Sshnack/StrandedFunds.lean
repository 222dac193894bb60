import Sshnack.Purchases

/-!
# Funds and stock that cannot be used

Deposits and restocks add up without limit in 64-bit columns, while purchases and resets see the low
32 bits as a signed int. `AmountsFit` says of the rows of a call that these bits are the ones the
guards and the log accept; in every reachable database it decides whether a covered purchase and a
reset go through.
-/

namespace Sshnack

open Txn Machine

/-- The slot has a piece, and the user has the price of its item. -/
structure Affordable (d : Db) (userId slotId : Int32) (slot : Slot) (item : Item) (user : User) :
    Prop where
  hslot : d.findSlot slotId.toInt = some slot
  hitem : d.findItem slot.itemId = some item
  huser : d.findUser userId.toInt = some user
  quantity : 1 ≤ slot.quantity
  balance : item.price ≤ user.balance

/-- The operand of the negation in `balance_reset`, if the call gets there. -/
def resetNegates (t : Tables) (userId : Int32) : Option Int32 :=
  (t.findUser userId.toInt).bind fun user =>
    if Int32.ofInt user.balance = 0 then none else some (Int32.ofInt user.balance)

/-- Without faults, a covered purchase and a reset return 0, and the reset negates no `INT_MIN`. -/
def NotStranded (d : Db) : ServiceCall → Prop
  | .txn (.ordersPurchase userId slotId) => ∀ slot item user,
      Affordable d userId slotId slot item user →
      outcome ⟨d, none⟩ (.txn (.ordersPurchase userId slotId), fun _ => false) = .ok (.code 0)
  | .txn (.balanceReset userId) => ∀ user, d.findUser userId.toInt = some user →
      (∃ refund, outcome ⟨d, none⟩ (.txn (.balanceReset userId), fun _ => false) =
        .ok (.amount refund)) ∧
      ∀ b ∈ resetNegates d.toTables userId, b.toInt ≠ -2 ^ 31
  | _ => True

def AmountsFit (d : Db) : ServiceCall → Prop
  | .txn (.ordersPurchase userId slotId) => ∀ slot item user,
      Affordable d userId slotId slot item user →
      (0 < slot.quantity % 2 ^ 32 ∧ slot.quantity % 2 ^ 32 < 2 ^ 31) ∧
      item.price ≤ user.balance % 2 ^ 32 ∧ user.balance % 2 ^ 32 < 2 ^ 31
  | .txn (.balanceReset userId) => ∀ user, d.findUser userId.toInt = some user →
      user.balance % 2 ^ 32 < 2 ^ 31
  | _ => True

theorem le_toInt_ofInt_iff {p : Int} (h : 0 ≤ p) (x : Int) :
    p ≤ (Int32.ofInt x).toInt ↔ p ≤ x % 2 ^ 32 ∧ x % 2 ^ 32 < 2 ^ 31 := by
  have hsize : (Int32.size : Int) = 2 ^ 32 := rfl
  rw [Int32.toInt_ofInt, Int.bmod_def, hsize]
  split_ifs <;> omega

theorem purchase_returns_iff {d : Db} (hc : Catalogue d.toTables) {userId slotId : Int32}
    {slot : Slot} {item : Item} {user : User} (h : Affordable d userId slotId slot item user) :
    outcome ⟨d, none⟩ (Operation.purchase userId slotId).quiet = .ok (.code 0) ↔
      0 < Int32.ofInt slot.quantity ∧ Int32.ofInt item.price ≤ Int32.ofInt user.balance := by
  have hslot := (d.findSlot_eq_some h.hslot).1
  have hitem := (d.findItem_eq_some h.hitem).1
  have hjoin : d.slotItem slotId.toInt = some (slot, item) := by
    rw [Tables.slotItem, h.hslot, Option.bind_some, h.hitem, Option.map_some]
  rw [outcome_quiet, Operation.plan, hjoin]
  simp only [h.huser]
  split_ifs with hquantity hbalance
  · exact iff_of_false (by simp [settle]) fun hpos => Int32.not_le.2 hpos.1 hquantity
  · exact iff_of_false (by simp [settle]) fun hle => Int32.not_lt.2 hle.2 hbalance
  · obtain ⟨hprice, hpos⟩ := hc.toInt_price hitem
    have hrange := (d.valid.users.range user (d.findUser_eq_some h.huser).1).2
    have hneg : (-Int32.ofInt item.price).toInt < 0 := by
      rw [toInt_neg_of_ne_min (by omega), hprice]
      omega
    have hid : (Int32.ofInt slot.itemId).toInt ∈ d.itemIds := by
      rw [hc.toInt_itemId hslot]
      exact d.valid.stock.item slot hslot
    have hcovered := h.balance
    have hvalid := (Tables.valid_purchased_iff d.valid h.huser h.hslot (Int32.ofInt slot.itemId)
      (Int32.ofInt item.price)).2 ⟨by rw [hprice]; unfold InInt64 at hrange ⊢; omega, h.quantity,
        hneg, hid⟩
    rw [settle, apply_purchaseChange, stored_of_valid hvalid]
    exact iff_of_true rfl ⟨Int32.not_le.1 hquantity, Int32.not_lt.1 hbalance⟩

theorem reset_returns {d : Db} {userId : Int32} {user : User}
    (h : d.findUser userId.toInt = some user) :
    outcome ⟨d, none⟩ (Operation.reset userId).quiet =
      if Int32.ofInt user.balance = 0 then .ok (.amount 0)
      else if (-Int32.ofInt user.balance).toInt < 0 then .ok (.amount (Int32.ofInt user.balance))
      else .error (-1) := by
  rw [outcome_quiet, Operation.plan, h]
  simp only
  split_ifs with hzero hneg
  · rw [settle, apply_keep, stored_of_valid d.valid]
  · rw [settle, apply_refundChange, stored_of_valid ((Tables.valid_refunded_iff d.valid h _).2 hneg)]
  · rw [settle, apply_refundChange,
      stored_of_not_valid (mt (Tables.valid_refunded_iff d.valid h _).1 hneg)]

theorem reset_succeeds_iff {d : Db} {userId : Int32} {user : User}
    (h : d.findUser userId.toInt = some user) :
    ((∃ refund, outcome ⟨d, none⟩ (Operation.reset userId).quiet = .ok (.amount refund)) ∧
      ∀ b ∈ resetNegates d.toTables userId, b.toInt ≠ -2 ^ 31) ↔
      0 ≤ (Int32.ofInt user.balance).toInt := by
  rw [reset_returns h, resetNegates, h, Option.bind_some]
  generalize Int32.ofInt user.balance = b
  by_cases hzero : b = 0
  · subst hzero
    simp
  · have hne : b.toInt ≠ 0 := fun hb => hzero (Int32.toInt_inj.1 hb)
    simp only [if_neg hzero, Option.mem_some_iff, forall_eq']
    by_cases hmin : b.toInt = -2 ^ 31
    · exact iff_of_false (fun hb => hb.2 hmin) (by omega)
    · rw [toInt_neg_of_ne_min hmin]
      split_ifs with hneg
      · exact iff_of_true ⟨⟨b, rfl⟩, hmin⟩ (by omega)
      · exact iff_of_false (by simp) (by omega)

/-- In every reachable database, a call gets what it should exactly if its amounts fit. -/
theorem notStranded_iff_amountsFit (xs : List FaultyCall) (call : ServiceCall) :
    NotStranded (run serve start xs).committed call ↔
      AmountsFit (run serve start xs).committed call := by
  have hc := (catalogue_reachable xs).2
  generalize (run serve start xs).committed = d at hc
  unfold NotStranded AmountsFit
  split
  · rename_i userId slotId
    refine forall₃_congr fun slot item user => imp_congr_right fun h => ?_
    refine (purchase_returns_iff hc h).trans ?_
    obtain ⟨hprice, hpos⟩ := hc.toInt_price (d.findItem_eq_some h.hitem).1
    rw [Int32.lt_iff_toInt_lt, Int32.le_iff_toInt_le, hprice, le_toInt_ofInt_iff hpos.le]
    exact and_congr_left' (le_toInt_ofInt_iff Int.one_nonneg _)
  · rename_i userId
    refine forall_congr' fun user => imp_congr_right fun h => ?_
    have hnonneg : 0 ≤ user.balance % 2 ^ 32 := Int.emod_nonneg _ (by decide)
    have hfits := (le_toInt_ofInt_iff le_rfl user.balance).trans (and_iff_right hnonneg)
    exact (reset_succeeds_iff h).trans hfits
  · exact Iff.rfl

def largeDeposits : List FaultyCall :=
  [(.txn (.balanceDeposit 1 2147483647), fun _ => false),
    (.txn (.balanceDeposit 1 2147483647), fun _ => false)]

/-- With 4294967294 on the account, a purchase for 500 and the reset fail. -/
theorem stranded_by_largeDeposits :
    ¬ NotStranded (run serve start largeDeposits).committed (.txn (.ordersPurchase 1 11)) ∧
      ¬ NotStranded (run serve start largeDeposits).committed (.txn (.balanceReset 1)) := by
  constructor
  · intro h
    have hbad := h ⟨11, 1, 18⟩ ⟨1, ascii "Cola Classic", 500⟩ ⟨1, none, 4294967294⟩
      ⟨by decide, by decide, by decide, by decide, by decide⟩
    revert hbad
    decide
  · intro h
    obtain ⟨⟨refund, hbad⟩, -⟩ := h ⟨1, none, 4294967294⟩ (by decide)
    have hrefused : outcome ⟨(run serve start largeDeposits).committed, none⟩
        (.txn (.balanceReset 1), fun _ => false) = .error (-1) := by
      decide
    rw [hrefused] at hbad
    cases hbad

end Sshnack
