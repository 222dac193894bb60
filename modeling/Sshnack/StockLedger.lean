import Sshnack.Catalogue
import Sshnack.SelectedSums

/-!
# The stock ledger

What the slots of an item hold is what `stock_logs` says was added less what was removed, and every
removal is a purchase. The log is keyed by item while the stock is keyed by slot; the item of a slot
is read as a C int, which is exact because no call changes it (`Catalogue`).
-/

namespace Sshnack

open Txn Machine Rows

namespace Tables

def held (t : Tables) (id : Int) : Int := sumWhere (fun s => s.itemId = id) Slot.quantity t.stock

def loggedChange (t : Tables) (id : Int) : Int :=
  sumWhere (fun l => l.itemId = id) StockLog.quantityChanged t.stockLogs

def removals (t : Tables) (id : Int) : ℕ :=
  t.stockLogs.countP fun l => l.itemId = id ∧ l.changeType = .removal

def purchases (t : Tables) (id : Int) : ℕ :=
  t.transactions.countP fun x => x.type = .purchase ∧ x.itemId = some id

end Tables

structure StockLedger (t : Tables) : Prop where
  quantities : ∀ id ∈ t.itemIds, t.held id = t.loggedChange id
  sales : ∀ id ∈ t.itemIds, t.removals id = t.purchases id
  nonneg : ∀ s ∈ t.stock, 0 ≤ s.quantity

theorem stockLedger_seed : StockLedger seed.toTables where
  quantities := by decide
  sales := by decide
  nonneg := seed.valid.stock.check

theorem held_of_updateQuantity {d : Db} {t' : Tables} {slot : Slot} {slotId q : Int}
    {f : Int → Int} (hslot : d.findSlot slotId = some slot)
    (hstock : t'.stock = (d.updateQuantity slotId f).stock)
    (hf : f slot.quantity = slot.quantity + q) (id : Int) :
    t'.held id = d.held id + if slot.itemId = id then q else 0 := by
  obtain ⟨hmem, rfl⟩ := d.findSlot_eq_some hslot
  have hsum := sumWhere_update (fun s => s.itemId = id) Slot.quantity Slot.slotId
    (fun s => { s with quantity := f s.quantity }) d.valid.stock.key hmem Iff.rfl
  have hdelta : f slot.quantity - slot.quantity = q := by omega
  simp only [hdelta] at hsum
  rw [Tables.held, hstock, Tables.held]
  exact hsum

theorem loggedChange_of_append {t t' : Tables} {l : StockLog}
    (h : t'.stockLogs = t.stockLogs ++ [l]) (id : Int) :
    t'.loggedChange id = t.loggedChange id + if l.itemId = id then l.quantityChanged else 0 := by
  rw [Tables.loggedChange, h, sumWhere_snoc, Tables.loggedChange]

theorem removals_of_append {t t' : Tables} {l : StockLog}
    (h : t'.stockLogs = t.stockLogs ++ [l]) (id : Int) :
    t'.removals id =
      t.removals id + if l.itemId = id ∧ l.changeType = .removal then 1 else 0 := by
  rw [Tables.removals, h, List.countP_append, List.countP_singleton, Tables.removals]
  simp only [decide_eq_true_eq]

theorem purchases_of_append {t t' : Tables} {x : Transaction}
    (h : t'.transactions = t.transactions ++ [x]) (id : Int) :
    t'.purchases id =
      t.purchases id + if x.type = .purchase ∧ x.itemId = some id then 1 else 0 := by
  rw [Tables.purchases, h, List.countP_append, List.countP_singleton, Tables.purchases]
  simp only [decide_eq_true_eq]

/-- A step that keeps the item ids and moves both sides of each equation alike. -/
theorem StockLedger.of_shift {d d' : Db} (h : StockLedger d.toTables) (hids : d'.itemIds = d.itemIds)
    (hq : ∀ id, d'.held id - d.held id = d'.loggedChange id - d.loggedChange id)
    (hs : ∀ id, d.removals id = d.purchases id → d'.removals id = d'.purchases id) :
    StockLedger d'.toTables where
  quantities id hid := by
    rw [hids] at hid
    have hold := h.quantities id hid
    have hnew := hq id
    omega
  sales id hid := by
    rw [hids] at hid
    exact hs id (h.sales id hid)
  nonneg := d'.valid.stock.check

/-- A step that touches neither the stock nor its log and records no purchase. -/
theorem StockLedger.of_cash {d d' : Db} (h : StockLedger d.toTables) (hids : d'.itemIds = d.itemIds)
    (hstock : d'.stock = d.stock) (hlogs : d'.stockLogs = d.stockLogs)
    (hpurchases : ∀ id, d'.purchases id = d.purchases id) : StockLedger d'.toTables := by
  apply h.of_shift hids
  · intro id
    rw [Tables.held, Tables.held, Tables.loggedChange, Tables.loggedChange, hstock, hlogs]
    omega
  · intro id hid
    rw [hpurchases, ← hid, Tables.removals, Tables.removals, hlogs]

theorem StockLedger.purchased {d d' : Db} (h : StockLedger d.toTables)
    (hids : d'.itemIds = d.itemIds) {userId slotId : Int} {price : Int32} {slot : Slot}
    (hslot : d.findSlot slotId = some slot) (hitem : (Int32.ofInt slot.itemId).toInt = slot.itemId)
    (htables : d'.toTables = d.purchased userId slotId (Int32.ofInt slot.itemId) price) :
    StockLedger d'.toTables := by
  have hstock : d'.stock = (d.updateQuantity slotId (· - 1)).stock := by
    rw [htables]
    rfl
  have hlogs : d'.stockLogs =
      d.stockLogs ++ [⟨(Int32.ofInt slot.itemId).toInt, .removal, -1⟩] := by
    rw [htables]
    rfl
  have htrans : d'.transactions = d.transactions ++ [⟨.purchase, userId,
      some (Int32.ofInt slot.itemId).toInt, some 1, (-price).toInt⟩] := by
    rw [htables]
    rfl
  apply h.of_shift hids
  · intro id
    have hheld := held_of_updateQuantity (q := -1) hslot hstock rfl id
    have hlog := loggedChange_of_append hlogs id
    simp only [hitem] at hlog
    omega
  · intro id hid
    have hremovals := removals_of_append hlogs id
    have hpurchases := purchases_of_append htrans id
    simp only [hitem, and_true, true_and, Option.some.injEq] at hremovals hpurchases
    omega

theorem StockLedger.restocked {d d' : Db} (h : StockLedger d.toTables)
    (hids : d'.itemIds = d.itemIds) {slotId qty : Int} {slot : Slot}
    (hslot : d.findSlot slotId = some slot) (hitem : (Int32.ofInt slot.itemId).toInt = slot.itemId)
    (htables : d'.toTables = d.restocked slotId qty (Int32.ofInt slot.itemId)) :
    StockLedger d'.toTables := by
  have hstock : d'.stock = (d.updateQuantity slotId (· + qty)).stock := by
    rw [htables]
    rfl
  have hlogs : d'.stockLogs =
      d.stockLogs ++ [⟨(Int32.ofInt slot.itemId).toInt, .addition, qty⟩] := by
    rw [htables]
    rfl
  apply h.of_shift hids
  · intro id
    have hheld := held_of_updateQuantity (q := qty) hslot hstock rfl id
    have hlog := loggedChange_of_append hlogs id
    simp only [hitem] at hlog
    omega
  · intro id hid
    have hremovals := removals_of_append hlogs id
    have hpurchases : d'.purchases id = d.purchases id := by
      rw [htables]
      rfl
    simp only [reduceCtorEq, and_false, if_false] at hremovals
    omega

/-- A step that records one cash movement and touches neither the stock nor its log. -/
theorem StockLedger.of_movement {d d' : Db} (h : StockLedger d.toTables)
    (hids : d'.itemIds = d.itemIds) (hstock : d'.stock = d.stock)
    (hlogs : d'.stockLogs = d.stockLogs) {x : Transaction} (hx : x.itemId = none)
    (htrans : d'.transactions = d.transactions ++ [x]) : StockLedger d'.toTables := by
  apply h.of_cash hids hstock hlogs
  intro id
  have hpurchases := purchases_of_append htrans id
  simpa [hx] using hpurchases

theorem StockLedger.effect {d d' : Db} {call : ServiceCall} {a : Except Int32 Answer}
    (hc : Catalogue d.toTables) (h : StockLedger d.toTables) (he : Effect d call a d') :
    StockLedger d'.toTables := by
  have hids := he.itemIds
  cases he with
  | failed => exact h
  | read => exact h
  | nothingToRefund => exact h
  | purchased userId slotId slot item user _ hslot _ _ _ _ htables =>
    exact h.purchased hids hslot (hc.toInt_itemId (d.findSlot_eq_some hslot).1) htables
  | deposited userId amountGr _ _ htables =>
    obtain ⟨us, n, husers⟩ := d.upsertBalance_frame userId.toInt amountGr.toInt
    rw [Tables.deposited, husers] at htables
    apply h.of_movement hids (x := ⟨.deposit, userId.toInt, none, none, amountGr.toInt⟩)
    · rw [htables]
      rfl
    · rw [htables]
      rfl
    · rfl
    · rw [htables]
      rfl
  | refunded userId user _ _ _ htables =>
    apply h.of_movement hids
      (x := ⟨.withdrawal, userId.toInt, none, none, (-Int32.ofInt user.balance).toInt⟩)
    · rw [htables]
      rfl
    · rw [htables]
      rfl
    · rfl
    · rw [htables]
      rfl
  | restocked slotId qty slot _ _ hslot htables =>
    exact h.restocked hids hslot (hc.toInt_itemId (d.findSlot_eq_some hslot).1) htables
  | repriced itemId priceGr _ _ htables =>
    apply h.of_cash hids
    · rw [htables]
      rfl
    · rw [htables]
      rfl
    · intro id
      rw [htables]
      rfl
  | lookedUp fingerprint _ htables =>
    obtain ⟨us, n, husers⟩ := d.upsertFingerprint_frame fingerprint
    rw [husers] at htables
    apply h.of_cash hids
    · rw [htables]
    · rw [htables]
    · intro id
      rw [htables]
      rfl

/-- In every reachable database the stock of each item agrees with its log, each removal is a
purchase, and no quantity is negative. -/
theorem stockLedger_reachable (xs : List FaultyCall) :
    StockLedger (run serve start xs).committed.toTables := by
  have hseed : Catalogue seed.toTables ∧ StockLedger seed.toTables :=
    ⟨catalogue_seed, stockLedger_seed⟩
  have hstep : ∀ d call a d', (Catalogue d.toTables ∧ StockLedger d.toTables) → True →
      Effect d call a d' → Catalogue d'.toTables ∧ StockLedger d'.toTables := by
    intro d call a d' ⟨hc, hl⟩ _ he
    exact ⟨hc.effect he, hl.effect hc he⟩
  exact (reachable_invariant hseed hstep xs (meets_true serve start xs)).2.2

end Sshnack
