import Sshnack.ServiceCalls

/-!
# Every service call has one of the listed effects

`Leads call c d p` says of the rest `p` of a call, inside its transaction with committed data `c` and
working data `d`, that its fault-free run has an effect of the call on `c`. The rules below go through
a service statement by statement; each failure exit is discharged by the rule that meets it.
-/

namespace Sshnack

open Txn

variable {call : ServiceCall} {c d : Db} {rest : Service} {rc : Int32} {s : Stmt}

def Leads (call : ServiceCall) (c d : Db) (p : Service) : Prop :=
  Effect c call (p.quietRun Stmt.perform ⟨c, some d⟩).1
    (p.quietRun Stmt.perform ⟨c, some d⟩).2.committed

theorem leads_rollbackAndFail (rc : Int32) : Leads call c d (rollbackAndFail rc) :=
  .failed call rc

theorem leads_prepare {f : Reply Row → Service} (h : Leads call c d (f .ok)) :
    Leads call c d (.call (.prepare s) f) := h

/-- A statement that stores the tables `t`, if they meet the schema. -/
theorem leads_write {t : Tables} {f : Reply Row → Service}
    (hs : Stmt.perform s d = t.check.map fun d' => (d', none))
    (hbad : Leads call c d (f .error))
    (h : ∀ d' : Db, d'.toTables = t → Leads call c d' (f .done)) :
    Leads call c d (.call (.step s) f) := by
  simp only [Leads, Prog.quietRun_call, Conn.perform, Conn.view_some, hs]
  cases ht : t.check with
  | none => exact hbad
  | some d' => exact h d' (Tables.check_eq_some_iff.1 ht)

/-- A statement that stores the tables `t`, if they meet the schema, and returns a row. -/
theorem leads_returning {t : Tables} {row : Row} {f : Reply Row → Service}
    (hs : Stmt.perform s d = t.check.map fun d' => (d', some row))
    (hbad : Leads call c d (f .error))
    (h : ∀ d' : Db, d'.toTables = t → Leads call c d' (f (.row row))) :
    Leads call c d (.call (.step s) f) := by
  simp only [Leads, Prog.quietRun_call, Conn.perform, Conn.view_some, hs]
  cases ht : t.check with
  | none => exact hbad
  | some d' => exact h d' (Tables.check_eq_some_iff.1 ht)

/-- A query, which leaves the data alone and returns the row `o` if there is one. -/
theorem leads_query {o : Option Row} {f : Reply Row → Service} (hs : Stmt.perform s d = some (d, o))
    (hnone : Leads call c d (f .done))
    (hrow : ∀ row, o = some row → Leads call c d (f (.row row))) :
    Leads call c d (.call (.step s) f) := by
  simp only [Leads, Prog.quietRun_call, Conn.perform, Conn.view_some, hs]
  cases o with
  | none => exact hnone
  | some row => exact hrow row rfl

theorem leads_ite {b : Prop} [Decidable b] {p q : Service} (hp : b → Leads call c d p)
    (hq : ¬ b → Leads call c d q) : Leads call c d (if b then p else q) := by
  split_ifs with h
  · exact hp h
  · exact hq h

theorem leads_commit {a : Answer} (h : Effect c call (.ok a) d) : Leads call c d
    (.call .commit fun r => if r ≠ .ok then rollbackAndFail rc else .ret (.ok a)) := h

theorem leads_dbLogCashTransaction {userId amountGr : Int32} {type : TransactionType}
    {k : Int32 → Service} (hbad : Leads call c d (k (-1)))
    (h : ∀ d' : Db, d'.toTables = d.insertTransaction
      ⟨type, userId.toInt, none, none, amountGr.toInt⟩ → Leads call c d' (k 0)) :
    Leads call c d (dbLogCashTransaction userId amountGr type >>= k) := by
  simp only [dbLogCashTransaction, exec_bind, Prog.call_bind, Prog.ite_bind, Prog.pure_eq,
    Prog.ret_bind]
  apply leads_prepare
  exact leads_write rfl hbad h

theorem leads_dbLogStockChange {slotId changeQty : Int32} {type : ChangeType} {k : Int32 → Service}
    (hbad : Leads call c d (k (-1)))
    (h : ∀ (slot : Slot) (d' : Db), d.findSlot slotId.toInt = some slot →
      d'.toTables = d.insertLog ⟨(Int32.ofInt slot.itemId).toInt, type, changeQty.toInt⟩ →
      Leads call c d' (k 0)) :
    Leads call c d (dbLogStockChange slotId changeQty type >>= k) := by
  simp only [dbLogStockChange, exec_bind, Prog.call_bind, Prog.ite_bind, Prog.pure_eq,
    Prog.ret_bind]
  apply leads_prepare
  refine leads_query rfl hbad fun row hrow => ?_
  obtain ⟨slot, hslot, rfl⟩ := Option.map_eq_some_iff.1 hrow
  apply leads_prepare
  exact leads_write rfl hbad fun d' hd' => h slot d' hslot hd'

theorem effect_of_leads {f : Reply Row → Service} (h : Leads call c c (f .ok)) :
    Effect c call ((Prog.call .begin f).atomically Stmt.perform c).1
      ((Prog.call .begin f).atomically Stmt.perform c).2 := h

theorem effect_balanceDeposit (d : Db) (userId amountGr : Int32) :
    Effect d (.txn (.balanceDeposit userId amountGr))
      ((balanceDeposit userId amountGr).atomically Stmt.perform d).1
      ((balanceDeposit userId amountGr).atomically Stmt.perform d).2 := by
  simp only [balanceDeposit, exec_bind, Prog.pure_eq]
  split_ifs with hpos
  · exact .failed _ _
  · apply effect_of_leads
    apply leads_prepare
    refine leads_write rfl (leads_rollbackAndFail (-1)) fun d₁ h₁ => ?_
    refine leads_dbLogCashTransaction (leads_rollbackAndFail (-1)) fun d₂ h₂ => ?_
    apply leads_commit
    exact .deposited userId amountGr d₂ (Int32.not_le.1 hpos) (by rw [h₂, h₁]; rfl)

theorem effect_balanceReset (d : Db) (userId : Int32) :
    Effect d (.txn (.balanceReset userId))
      ((balanceReset userId).atomically Stmt.perform d).1
      ((balanceReset userId).atomically Stmt.perform d).2 := by
  simp only [balanceReset, exec_bind, Prog.pure_eq]
  apply effect_of_leads
  apply leads_prepare
  refine leads_query rfl (leads_rollbackAndFail balanceNotFound) fun row hrow => ?_
  obtain ⟨user, huser, rfl⟩ := Option.map_eq_some_iff.1 hrow
  refine leads_ite (fun hzero => ?_) fun hzero => ?_
  · exact .nothingToRefund userId user huser hzero
  · apply leads_prepare
    refine leads_write rfl (leads_rollbackAndFail (-1)) fun d₁ h₁ => ?_
    refine leads_dbLogCashTransaction (leads_rollbackAndFail (-1)) fun d₂ h₂ => ?_
    apply leads_commit
    exact .refunded userId user d₂ huser hzero (by rw [h₂, h₁]; rfl)

theorem effect_productRestock (d : Db) (slotId qty : Int32) :
    Effect d (.txn (.productRestock slotId qty))
      ((productRestock slotId qty).atomically Stmt.perform d).1
      ((productRestock slotId qty).atomically Stmt.perform d).2 := by
  simp only [productRestock, exec_bind, Prog.pure_eq]
  split_ifs with hpos
  · exact .failed _ _
  · apply effect_of_leads
    apply leads_prepare
    refine leads_write rfl (leads_rollbackAndFail (-1)) fun d₁ h₁ => ?_
    refine leads_dbLogStockChange (leads_rollbackAndFail (-1)) fun slot' d₂ hslot' h₂ => ?_
    rw [h₁] at hslot'
    obtain ⟨slot, hslot, hid⟩ := d.findSlot_of_updateQuantity hslot'
    apply leads_commit
    refine .restocked slotId qty slot d₂ (Int32.not_le.1 hpos) hslot ?_
    rw [h₂, h₁, hid]
    rfl

theorem effect_usersLookup (d : Db) (fingerprint : CString) :
    Effect d (.txn (.usersLookup fingerprint))
      ((usersLookup fingerprint).atomically Stmt.perform d).1
      ((usersLookup fingerprint).atomically Stmt.perform d).2 := by
  simp only [usersLookup, exec_bind, Prog.pure_eq]
  apply effect_of_leads
  apply leads_prepare
  refine leads_returning rfl (leads_rollbackAndFail (-1)) fun d' hd' => ?_
  apply leads_commit
  exact .lookedUp fingerprint d' hd'

theorem effect_ordersPurchase (d : Db) (userId slotId : Int32) :
    Effect d (.txn (.ordersPurchase userId slotId))
      ((ordersPurchase userId slotId).atomically Stmt.perform d).1
      ((ordersPurchase userId slotId).atomically Stmt.perform d).2 := by
  simp only [ordersPurchase, exec_bind, Prog.pure_eq]
  apply effect_of_leads
  apply leads_prepare
  refine leads_query rfl (leads_rollbackAndFail (-1)) fun row hrow => ?_
  obtain ⟨⟨slot, item⟩, hjoin, rfl⟩ := Option.map_eq_some_iff.1 hrow
  obtain ⟨hslot, hitem⟩ := Tables.slotItem_eq_some d.toTables hjoin
  refine leads_ite (fun _ => leads_rollbackAndFail (-1)) fun hquantity => ?_
  apply leads_prepare
  refine leads_query rfl (leads_rollbackAndFail (-1)) fun row hrow => ?_
  obtain ⟨user, huser, rfl⟩ := Option.map_eq_some_iff.1 hrow
  refine leads_ite (fun _ => leads_rollbackAndFail (-1)) fun hbalance => ?_
  apply leads_prepare
  refine leads_write rfl (leads_rollbackAndFail (-1)) fun d₁ h₁ => ?_
  apply leads_prepare
  refine leads_write rfl (leads_rollbackAndFail (-1)) fun d₂ h₂ => ?_
  apply leads_prepare
  refine leads_write rfl (leads_rollbackAndFail (-1)) fun d₃ h₃ => ?_
  refine leads_dbLogStockChange (leads_rollbackAndFail (-1)) fun slot₃ d₄ hslot₃ h₄ => ?_
  have hstock : d₃.stock = (d.updateQuantity slotId.toInt (· - 1)).stock := by
    rw [h₃, Tables.insertTransaction_stock, h₂, h₁]
    rfl
  have hslot₁ : (d.updateQuantity slotId.toInt (· - 1)).findSlot slotId.toInt = some slot₃ := by
    rw [← hslot₃, Tables.findSlot, Tables.findSlot, hstock]
  obtain ⟨slot₀, hslot₀, hid⟩ := d.findSlot_of_updateQuantity hslot₁
  obtain rfl : slot₀ = slot := Option.some.inj (hslot₀.symm.trans hslot)
  apply leads_commit
  refine .purchased userId slotId slot₀ item user d₄ hslot hitem huser (Int32.not_le.1 hquantity)
    (Int32.not_lt.1 hbalance) ?_
  rw [h₄, h₃, h₂, h₁, hid]
  rfl

theorem TxnOp.effect (d : Db) (op : TxnOp) :
    Effect d (.txn op) (op.prog.atomically Stmt.perform d).1
      (op.prog.atomically Stmt.perform d).2 := by
  cases op with
  | ordersPurchase userId slotId => exact effect_ordersPurchase d userId slotId
  | balanceDeposit userId amountGr => exact effect_balanceDeposit d userId amountGr
  | balanceReset userId => exact effect_balanceReset d userId
  | productRestock slotId qty => exact effect_productRestock d slotId qty
  | usersLookup fingerprint => exact effect_usersLookup d fingerprint

end Sshnack
