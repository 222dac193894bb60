import Sshnack.SchemaChecks
import Sshnack.ServiceRuns

/-!
# What a service call does when nothing fails

`plan` is what an operation decides from the rows it reads: the code of its failure exit, or its
answer and the change it makes to the tables. The change is stored if the result meets the schema, and
otherwise the operation fails with -1. `quietRun_eq_settle` says that the program of SQLite calls does
exactly this.
-/

namespace Sshnack

open Txn Keyed

/-- The operations that write, apart from `users_lookup`. -/
inductive Operation where
  | purchase (userId slotId : Int32)
  | deposit (userId amountGr : Int32)
  | reset (userId : Int32)
  | restock (slotId qty : Int32)
  | updatePrice (itemId priceGr : Int32)
  deriving DecidableEq

def Operation.call : Operation → ServiceCall
  | .purchase userId slotId => .txn (.ordersPurchase userId slotId)
  | .deposit userId amountGr => .txn (.balanceDeposit userId amountGr)
  | .reset userId => .txn (.balanceReset userId)
  | .restock slotId qty => .txn (.productRestock slotId qty)
  | .updatePrice itemId priceGr => .updatePrice itemId priceGr

structure Change where
  users : Edit Int User := .keep
  stock : Edit Int Slot := .keep
  items : Edit Int Item := .keep
  transactions : List Transaction := []
  stockLogs : List StockLog := []

def Change.apply (c : Change) (t : Tables) : Tables where
  users := c.users.apply User.userId t.users
  items := c.items.apply Item.itemId t.items
  stock := c.stock.apply Slot.slotId t.stock
  transactions := t.transactions ++ c.transactions
  stockLogs := t.stockLogs ++ c.stockLogs
  usersSeq := match c.users with
    | .insert u => max t.usersSeq u.userId
    | _ => t.usersSeq

def balanceEdit (id : Int) (f : Int → Int) : Edit Int User :=
  .update id fun u => { u with balance := f u.balance }

def quantityEdit (id : Int) (f : Int → Int) : Edit Int Slot :=
  .update id fun s => { s with quantity := f s.quantity }

def priceEdit (id price : Int) : Edit Int Item := .update id fun i => { i with price := price }

def purchaseChange (userId slotId itemId price : Int32) : Change where
  users := balanceEdit userId.toInt (· - price.toInt)
  stock := quantityEdit slotId.toInt (· - 1)
  transactions := [⟨.purchase, userId.toInt, some itemId.toInt, some 1, (-price).toInt⟩]
  stockLogs := [⟨itemId.toInt, .removal, -1⟩]

def depositChange (userId amountGr : Int32) (known : Bool) : Change where
  users := if known then balanceEdit userId.toInt (· + amountGr.toInt)
    else .insert ⟨userId.toInt, none, amountGr.toInt⟩
  transactions := [⟨.deposit, userId.toInt, none, none, amountGr.toInt⟩]

def refundChange (userId balance : Int32) : Change where
  users := balanceEdit userId.toInt fun _ => 0
  transactions := [⟨.withdrawal, userId.toInt, none, none, (-balance).toInt⟩]

def restockChange (slotId qty itemId : Int32) : Change where
  stock := quantityEdit slotId.toInt (· + qty.toInt)
  stockLogs := [⟨itemId.toInt, .addition, qty.toInt⟩]

def repriceChange (itemId priceGr : Int32) : Change where
  items := priceEdit itemId.toInt priceGr.toInt

def Operation.plan : Operation → Tables → Except Int32 (Answer × Change)
  | .purchase userId slotId, t =>
    match t.slotItem slotId.toInt with
    | none => .error (-1)
    | some (slot, item) =>
      if Int32.ofInt slot.quantity ≤ 0 then .error (-1) else
      match t.findUser userId.toInt with
      | none => .error (-1)
      | some user =>
        if Int32.ofInt user.balance < Int32.ofInt item.price then .error (-1) else
        .ok (.code 0, purchaseChange userId slotId (Int32.ofInt slot.itemId)
          (Int32.ofInt item.price))
  | .deposit userId amountGr, t =>
    if amountGr ≤ 0 then .error (-1) else
    .ok (.code 0, depositChange userId amountGr (t.findUser userId.toInt).isSome)
  | .reset userId, t =>
    match t.findUser userId.toInt with
    | none => .error balanceNotFound
    | some user =>
      if Int32.ofInt user.balance = 0 then .ok (.amount 0, {}) else
      .ok (.amount (Int32.ofInt user.balance), refundChange userId (Int32.ofInt user.balance))
  | .restock slotId qty, t =>
    if qty ≤ 0 then .error (-1) else
    match t.findSlot slotId.toInt with
    | none => .error (-1)
    | some slot => .ok (.code 0, restockChange slotId qty (Int32.ofInt slot.itemId))
  | .updatePrice itemId priceGr, _ =>
    if priceGr ≤ 0 then .error (-1) else .ok (.code 0, repriceChange itemId priceGr)

/-- The guards that a plan has passed. -/
inductive Plans (t : Tables) : Operation → Answer → Change → Prop
  | purchase (userId slotId : Int32) {slot item user}
      (hslot : t.findSlot slotId.toInt = some slot) (hitem : t.findItem slot.itemId = some item)
      (huser : t.findUser userId.toInt = some user)
      (hquantity : 0 < Int32.ofInt slot.quantity)
      (hbalance : Int32.ofInt item.price ≤ Int32.ofInt user.balance) :
      Plans t (.purchase userId slotId) (.code 0)
        (purchaseChange userId slotId (Int32.ofInt slot.itemId) (Int32.ofInt item.price))
  | deposit (userId amountGr : Int32) (hpos : 0 < amountGr) :
      Plans t (.deposit userId amountGr) (.code 0)
        (depositChange userId amountGr (t.findUser userId.toInt).isSome)
  | nothing (userId : Int32) {user} (huser : t.findUser userId.toInt = some user)
      (hzero : Int32.ofInt user.balance = 0) : Plans t (.reset userId) (.amount 0) {}
  | refund (userId : Int32) {user} (huser : t.findUser userId.toInt = some user)
      (hzero : Int32.ofInt user.balance ≠ 0) :
      Plans t (.reset userId) (.amount (Int32.ofInt user.balance))
        (refundChange userId (Int32.ofInt user.balance))
  | restock (slotId qty : Int32) {slot} (hpos : 0 < qty)
      (hslot : t.findSlot slotId.toInt = some slot) :
      Plans t (.restock slotId qty) (.code 0) (restockChange slotId qty (Int32.ofInt slot.itemId))
  | updatePrice (itemId priceGr : Int32) (hpos : 0 < priceGr) :
      Plans t (.updatePrice itemId priceGr) (.code 0) (repriceChange itemId priceGr)

theorem Plans.of_plan {op : Operation} {t : Tables} {a : Answer} {c : Change}
    (h : op.plan t = .ok (a, c)) : Plans t op a c := by
  cases op with
  | purchase userId slotId =>
    rw [Operation.plan] at h
    cases hjoin : t.slotItem slotId.toInt with
    | none =>
      rw [hjoin] at h
      cases h
    | some p =>
      obtain ⟨slot, item⟩ := p
      obtain ⟨hslot, hitem⟩ := t.slotItem_eq_some hjoin
      simp only [hjoin] at h
      split_ifs at h with hquantity
      cases huser : t.findUser userId.toInt with
      | none =>
        rw [huser] at h
        cases h
      | some user =>
        simp only [huser] at h
        split_ifs at h with hbalance
        cases h
        exact .purchase userId slotId hslot hitem huser (Int32.not_le.1 hquantity)
          (Int32.not_lt.1 hbalance)
  | deposit userId amountGr =>
    rw [Operation.plan] at h
    split_ifs at h with hpos
    cases h
    exact .deposit userId amountGr (Int32.not_le.1 hpos)
  | reset userId =>
    rw [Operation.plan] at h
    cases huser : t.findUser userId.toInt with
    | none =>
      rw [huser] at h
      cases h
    | some user =>
      simp only [huser] at h
      split_ifs at h with hzero
      · cases h
        exact .nothing userId huser hzero
      · cases h
        exact .refund userId huser hzero
  | restock slotId qty =>
    rw [Operation.plan] at h
    split_ifs at h with hpos
    cases hslot : t.findSlot slotId.toInt with
    | none =>
      rw [hslot] at h
      cases h
    | some slot =>
      rw [hslot] at h
      cases h
      exact .restock slotId qty (Int32.not_le.1 hpos) hslot
  | updatePrice itemId priceGr =>
    rw [Operation.plan] at h
    split_ifs at h with hpos
    cases h
    exact .updatePrice itemId priceGr (Int32.not_le.1 hpos)

/-- The new tables are stored if they meet the schema. -/
def stored (d : Db) (a : Answer) (t : Tables) : Except Int32 Answer × Db :=
  match t.check with
  | some d' => (.ok a, d')
  | none => (.error (-1), d)

def settle (d : Db) : Except Int32 (Answer × Change) → Except Int32 Answer × Db
  | .error rc => (.error rc, d)
  | .ok (a, c) => stored d a (c.apply d.toTables)

theorem stored_of_valid {d : Db} {a : Answer} {t : Tables} (h : t.Valid) :
    stored d a t = (.ok a, ⟨t, h⟩) := by
  rw [stored, Tables.check_of_valid h]

theorem stored_of_not_valid {d : Db} {a : Answer} {t : Tables} (h : ¬ t.Valid) :
    stored d a t = (.error (-1), d) := by
  rw [stored, Tables.check, dif_neg h]

theorem apply_purchaseChange (t : Tables) (userId slotId itemId price : Int32) :
    (purchaseChange userId slotId itemId price).apply t =
      t.purchased userId.toInt slotId.toInt itemId price := rfl

theorem apply_depositChange (t : Tables) (userId amountGr : Int32) :
    (depositChange userId amountGr (t.findUser userId.toInt).isSome).apply t =
      t.deposited userId.toInt amountGr.toInt := by
  unfold Tables.deposited Tables.upsertBalance
  cases t.findUser userId.toInt with
  | some u =>
    simp only [Change.apply, depositChange, Option.isSome_some, if_true, balanceEdit, Edit.apply,
      List.append_nil]
    rfl
  | none =>
    simp only [Change.apply, depositChange, Option.isSome_none, Bool.false_eq_true, if_false,
      Edit.apply, List.append_nil]
    rfl

theorem apply_refundChange (t : Tables) (userId balance : Int32) :
    (refundChange userId balance).apply t = t.refunded userId.toInt balance := by
  simp only [Change.apply, refundChange, balanceEdit, Edit.apply, List.append_nil]
  rfl

theorem apply_restockChange (t : Tables) (slotId qty itemId : Int32) :
    (restockChange slotId qty itemId).apply t =
      t.restocked slotId.toInt qty.toInt itemId := by
  simp only [Change.apply, restockChange, quantityEdit, Edit.apply, List.append_nil]
  rfl

theorem apply_repriceChange (t : Tables) (itemId priceGr : Int32) :
    (repriceChange itemId priceGr).apply t = t.updatePrice itemId.toInt priceGr.toInt := by
  simp only [Change.apply, repriceChange, priceEdit, Edit.apply, List.append_nil]
  rfl

theorem apply_keep (t : Tables) : ({} : Change).apply t = t := by
  simp only [Change.apply, Edit.apply, List.append_nil]

/-! ### The runs -/

variable {c d : Db} {a : Answer} {t t' : Tables} {s : Stmt} {f : Reply Row → Service}
  {r : Except Int32 Answer × Db}

/-- Inside its transaction, with committed data `c` and working data `d`, the rest `p` of a call
ends with `r`. -/
def Settles (c d : Db) (p : Service) (r : Except Int32 Answer × Db) : Prop :=
  p.quietRun Stmt.perform ⟨c, some d⟩ = (r.1, ⟨r.2, none⟩)

theorem settles_rollbackAndFail (rc : Int32) :
    Settles c d (rollbackAndFail rc) (.error rc, c) := rfl

theorem settles_prepare (h : Settles c d (f .ok) r) : Settles c d (.call (.prepare s) f) r := h

theorem settles_accepted (hs : Stmt.perform s d = t.check.map fun d' => (d', none)) (ht : t.Valid)
    (h : ∀ d' : Db, d'.toTables = t → Settles c d' (f .done) r) :
    Settles c d (.call (.step s) f) r := by
  rw [Settles, Prog.quietRun_call, Conn.perform, Conn.view_some, hs, Tables.check_of_valid ht]
  exact h ⟨t, ht⟩ rfl

/-- A write on the way to the tables `t'`: if it is refused, then so are they. -/
theorem settles_write (hs : Stmt.perform s d = t.check.map fun d' => (d', none))
    (hexit : f .error = rollbackAndFail (-1)) (hvalid : t'.Valid → t.Valid)
    (h : ∀ d' : Db, d'.toTables = t → Settles c d' (f .done) (stored c a t')) :
    Settles c d (.call (.step s) f) (stored c a t') := by
  by_cases ht : t.Valid
  · exact settles_accepted hs ht h
  · rw [Settles, Prog.quietRun_call, Conn.perform, Conn.view_some, hs, Tables.check, dif_neg ht,
      stored_of_not_valid (mt hvalid ht)]
    simp only [Option.map_none, hexit]
    rfl

theorem settles_row {row : Row} (hs : Stmt.perform s d = some (d, some row))
    (h : Settles c d (f (.row row)) r) : Settles c d (.call (.step s) f) r := by
  rw [Settles, Prog.quietRun_call, Conn.perform, Conn.view_some, hs]
  exact h

theorem settles_no_row (hs : Stmt.perform s d = some (d, none))
    (h : Settles c d (f .done) r) : Settles c d (.call (.step s) f) r := by
  rw [Settles, Prog.quietRun_call, Conn.perform, Conn.view_some, hs]
  exact h

theorem settles_if_pos {b : Prop} [Decidable b] {p q : Service} (hb : b) (h : Settles c d p r) :
    Settles c d (if b then p else q) r := by
  rwa [if_pos hb]

theorem settles_if_neg {b : Prop} [Decidable b] {p q : Service} (hb : ¬ b) (h : Settles c d q r) :
    Settles c d (if b then p else q) r := by
  rwa [if_neg hb]

theorem settles_commit {rc : Int32} (h : d.toTables = t) : Settles c d
    (.call .commit fun r => if r ≠ .ok then rollbackAndFail rc else .ret (.ok a))
    (stored c a t) := by
  rw [stored, ← h, Tables.check_of_valid d.valid]
  rfl

theorem settles_dbLogCashTransaction {userId amountGr : Int32} {type : TransactionType}
    {k : Int32 → Service} (hexit : k (-1) = rollbackAndFail (-1))
    (ht : t = d.insertTransaction ⟨type, userId.toInt, none, none, amountGr.toInt⟩)
    (h : ∀ d' : Db, d'.toTables = t → Settles c d' (k 0) (stored c a t)) :
    Settles c d (dbLogCashTransaction userId amountGr type >>= k) (stored c a t) := by
  subst ht
  simp only [dbLogCashTransaction, exec_bind, Prog.call_bind, Prog.ite_bind, Prog.pure_eq,
    Prog.ret_bind]
  apply settles_prepare
  exact settles_write rfl hexit id h

theorem settles_dbLogStockChange {slotId changeQty : Int32} {type : ChangeType}
    {k : Int32 → Service} {slot : Slot} (hexit : k (-1) = rollbackAndFail (-1))
    (hslot : d.findSlot slotId.toInt = some slot)
    (ht : t = d.insertLog ⟨(Int32.ofInt slot.itemId).toInt, type, changeQty.toInt⟩)
    (h : ∀ d' : Db, d'.toTables = t → Settles c d' (k 0) (stored c a t)) :
    Settles c d (dbLogStockChange slotId changeQty type >>= k) (stored c a t) := by
  subst ht
  simp only [dbLogStockChange, exec_bind, Prog.call_bind, Prog.ite_bind, Prog.pure_eq,
    Prog.ret_bind]
  apply settles_prepare
  apply settles_row (by rw [Stmt.perform, hslot]; rfl)
  apply settles_prepare
  exact settles_write rfl hexit id h

theorem settles_dbLogStockChange_missing {slotId changeQty : Int32} {type : ChangeType}
    {k : Int32 → Service} (hslot : d.findSlot slotId.toInt = none) (h : Settles c d (k (-1)) r) :
    Settles c d (dbLogStockChange slotId changeQty type >>= k) r := by
  simp only [dbLogStockChange, exec_bind, Prog.call_bind, Prog.ite_bind, Prog.pure_eq,
    Prog.ret_bind]
  apply settles_prepare
  apply settles_no_row (by rw [Stmt.perform, hslot]; rfl)
  exact h

theorem quietRun_of_settles (h : Settles d d (f .ok) r) :
    (Prog.call .begin f).quietRun Stmt.perform ⟨d, none⟩ = (r.1, ⟨r.2, none⟩) := h

/-- The fault-free run of the operation ends with the planned answer and tables. -/
def Operation.Planned (op : Operation) (d : Db) : Prop :=
  op.call.prog.quietRun Stmt.perform ⟨d, none⟩ =
    ((settle d (op.plan d.toTables)).1, ⟨(settle d (op.plan d.toTables)).2, none⟩)

theorem planned_deposit (d : Db) (userId amountGr : Int32) :
    (Operation.deposit userId amountGr).Planned d := by
  simp only [Operation.Planned, Operation.call, ServiceCall.prog, TxnOp.prog, balanceDeposit,
    exec_bind, Prog.pure_eq, Operation.plan]
  split_ifs with hpos
  · rfl
  · apply quietRun_of_settles
    rw [settle, apply_depositChange]
    apply settles_prepare
    refine settles_write rfl rfl (fun hv => (Tables.valid_insertTransaction_iff.1 hv).1)
      fun d₁ h₁ => ?_
    refine settles_dbLogCashTransaction rfl (by rw [h₁]; rfl) fun d₂ h₂ => ?_
    exact settles_commit h₂

theorem planned_reset (d : Db) (userId : Int32) : (Operation.reset userId).Planned d := by
  simp only [Operation.Planned, Operation.call, ServiceCall.prog, TxnOp.prog, balanceReset,
    exec_bind, Prog.pure_eq, Operation.plan]
  apply quietRun_of_settles
  apply settles_prepare
  cases huser : d.findUser userId.toInt with
  | none =>
    apply settles_no_row (by rw [Stmt.perform, huser]; rfl)
    exact settles_rollbackAndFail balanceNotFound
  | some user =>
    apply settles_row (by rw [Stmt.perform, huser]; rfl)
    by_cases hzero : Int32.ofInt user.balance = 0
    · refine settles_if_pos hzero ?_
      simp only [if_pos hzero]
      rw [settle, apply_keep, stored_of_valid d.valid]
      rfl
    · refine settles_if_neg hzero ?_
      simp only [if_neg hzero]
      rw [settle, apply_refundChange]
      apply settles_prepare
      refine settles_write rfl rfl (fun hv => (Tables.valid_insertTransaction_iff.1 hv).1)
        fun d₁ h₁ => ?_
      refine settles_dbLogCashTransaction rfl (by rw [h₁]; rfl) fun d₂ h₂ => ?_
      exact settles_commit h₂

theorem planned_restock (d : Db) (slotId qty : Int32) :
    (Operation.restock slotId qty).Planned d := by
  simp only [Operation.Planned, Operation.call, ServiceCall.prog, TxnOp.prog, productRestock,
    exec_bind, Prog.pure_eq, Operation.plan]
  split_ifs with hpos
  · rfl
  · apply quietRun_of_settles
    apply settles_prepare
    cases hslot : d.findSlot slotId.toInt with
    | none =>
      have hvalid : (d.updateQuantity slotId.toInt (· + qty.toInt)).Valid :=
        (Tables.valid_updateQuantity_iff d.valid _ _).2 (by simp [hslot])
      refine settles_accepted rfl hvalid fun d₁ h₁ => ?_
      have hslot₁ : d₁.findSlot slotId.toInt = none := by
        rw [h₁, Tables.findSlot_updateQuantity, hslot, Option.map_none]
      exact settles_dbLogStockChange_missing hslot₁ (settles_rollbackAndFail (-1))
    | some slot =>
      simp only [settle]
      rw [apply_restockChange]
      refine settles_write rfl rfl (fun hv => (Tables.valid_insertLog_iff.1 hv).1) fun d₁ h₁ => ?_
      have hslot₁ : d₁.findSlot slotId.toInt =
          some { slot with quantity := slot.quantity + qty.toInt } := by
        rw [h₁, Tables.findSlot_updateQuantity_self _ hslot]
      refine settles_dbLogStockChange rfl hslot₁ (by rw [h₁]; rfl) fun d₂ h₂ => ?_
      exact settles_commit h₂

/-- The writes of a purchase, after its guards. -/
theorem settles_purchase {userId slotId price : Int32} {slot : Slot}
    (hslot : d.findSlot slotId.toInt = some slot) : Settles d d
    (.call (.prepare (.debitBalance price userId)) fun rc =>
      if rc ≠ .ok then rollbackAndFail (-1) else
      .call (.step (.debitBalance price userId)) fun rc =>
      if rc ≠ .done then rollbackAndFail (-1) else
      .call (.prepare (.decrementStock slotId)) fun rc =>
      if rc ≠ .ok then rollbackAndFail (-1) else
      .call (.step (.decrementStock slotId)) fun rc =>
      if rc ≠ .done then rollbackAndFail (-1) else
      .call (.prepare (.insertPurchase userId (Int32.ofInt slot.itemId) (-price))) fun rc =>
      if rc ≠ .ok then rollbackAndFail (-1) else
      .call (.step (.insertPurchase userId (Int32.ofInt slot.itemId) (-price))) fun rc =>
      if rc ≠ .done then rollbackAndFail (-1) else
      dbLogStockChange slotId (-1) .removal >>= fun logged =>
      if logged ≠ 0 then rollbackAndFail (-1) else
      .call .commit fun rc => if rc ≠ .ok then rollbackAndFail (-1) else .ret (.ok (.code 0)))
    (stored d (.code 0)
      (d.purchased userId.toInt slotId.toInt (Int32.ofInt slot.itemId) price)) := by
  have hinsert : (d.purchased userId.toInt slotId.toInt (Int32.ofInt slot.itemId) price).Valid → _ :=
    fun hv => (Tables.valid_insertLog_iff.1 hv).1
  have hstock := fun hv => (Tables.valid_insertTransaction_iff.1 (hinsert hv)).1
  apply settles_prepare
  refine settles_write rfl rfl (fun hv => ?_) fun d₁ h₁ => ?_
  · exact d.valid.of_updateQuantity (hstock hv)
  apply settles_prepare
  refine settles_write rfl rfl (fun hv => ?_) fun d₂ h₂ => ?_
  · rw [h₁]
    exact hstock hv
  apply settles_prepare
  refine settles_write rfl rfl (fun hv => ?_) fun d₃ h₃ => ?_
  · rw [h₂, h₁]
    exact hinsert hv
  have hslot₃ : d₃.findSlot slotId.toInt = some { slot with quantity := slot.quantity - 1 } := by
    have hsame : d₃.findSlot slotId.toInt =
        (d.updateQuantity slotId.toInt (· - 1)).findSlot slotId.toInt := by
      rw [h₃, h₂, h₁]
      rfl
    rw [hsame, Tables.findSlot_updateQuantity_self _ hslot]
  refine settles_dbLogStockChange rfl hslot₃ (by rw [h₃, h₂, h₁]; rfl) fun d₄ h₄ => ?_
  exact settles_commit h₄

theorem planned_purchase (d : Db) (userId slotId : Int32) :
    (Operation.purchase userId slotId).Planned d := by
  simp only [Operation.Planned, Operation.call, ServiceCall.prog, TxnOp.prog, ordersPurchase,
    exec_bind, Prog.pure_eq, Operation.plan]
  apply quietRun_of_settles
  apply settles_prepare
  cases hjoin : d.slotItem slotId.toInt with
  | none =>
    apply settles_no_row (by rw [Stmt.perform, hjoin]; rfl)
    exact settles_rollbackAndFail (-1)
  | some p =>
    obtain ⟨slot, item⟩ := p
    obtain ⟨hslot, -⟩ := d.slotItem_eq_some hjoin
    apply settles_row (by rw [Stmt.perform, hjoin]; rfl)
    by_cases hquantity : Int32.ofInt slot.quantity ≤ 0
    · simp only [if_pos hquantity]
      exact settles_if_pos hquantity (settles_rollbackAndFail (-1))
    · simp only [if_neg hquantity]
      refine settles_if_neg hquantity ?_
      apply settles_prepare
      cases huser : d.findUser userId.toInt with
      | none =>
        apply settles_no_row (by rw [Stmt.perform, huser]; rfl)
        exact settles_rollbackAndFail (-1)
      | some user =>
        apply settles_row (by rw [Stmt.perform, huser]; rfl)
        by_cases hbalance : Int32.ofInt user.balance < Int32.ofInt item.price
        · simp only [if_pos hbalance]
          exact settles_if_pos hbalance (settles_rollbackAndFail (-1))
        · simp only [if_neg hbalance]
          refine settles_if_neg hbalance ?_
          rw [settle, apply_purchaseChange]
          exact settles_purchase hslot

theorem planned_updatePrice (d : Db) (itemId priceGr : Int32) :
    (Operation.updatePrice itemId priceGr).Planned d := by
  simp only [Operation.Planned, Operation.call, ServiceCall.prog, productUpdatePrice, exec_bind,
    Prog.pure_eq, Operation.plan]
  split_ifs with hpos
  · rfl
  · rw [settle, apply_repriceChange, stored]
    cases ht : (d.updatePrice itemId.toInt priceGr.toInt).check <;>
      simp [Conn.perform, Stmt.perform, ht, Conn.write]

/-- Without faults, a service call does what its plan says. -/
theorem quietRun_eq_settle (op : Operation) (d : Db) :
    op.call.prog.quietRun Stmt.perform ⟨d, none⟩ =
      ((settle d (op.plan d.toTables)).1, ⟨(settle d (op.plan d.toTables)).2, none⟩) := by
  cases op with
  | purchase userId slotId => exact planned_purchase d userId slotId
  | deposit userId amountGr => exact planned_deposit d userId amountGr
  | reset userId => exact planned_reset d userId
  | restock slotId qty => exact planned_restock d slotId qty
  | updatePrice itemId priceGr => exact planned_updatePrice d itemId priceGr

/-- The call of the operation in which SQLite fails nowhere. -/
def Operation.quiet (op : Operation) : FaultyCall := (op.call, fun _ => false)

theorem serve_quiet (op : Operation) (d : Db) :
    serve ⟨d, none⟩ op.quiet = ⟨(settle d (op.plan d.toTables)).2, none⟩ := by
  rw [serve, Operation.quiet, Prog.run_quiet, quietRun_eq_settle]

theorem outcome_quiet (op : Operation) (d : Db) :
    outcome ⟨d, none⟩ op.quiet = (settle d (op.plan d.toTables)).1 := by
  rw [outcome, Operation.quiet, Prog.run_quiet, quietRun_eq_settle]

end Sshnack
