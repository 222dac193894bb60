import Sshnack.Database
import Sshnack.KeyedRows
import Sshnack.TxnProgram

/-!
# The SQL statements of the services

One constructor per SQL text of the source, with the values bound to its parameters; `perform` is
what one `sqlite3_step` of it does. An UPDATE that matches no row succeeds and changes nothing. A
statement that would break a constraint fails, and so does one whose sum would leave 64 bits, which is
assumed not to happen (`Database`).

The cursor of `products_list` advances over the slots in the order of `slot_id`;
`selectProductsAfter` is one step of it, past the slot it returned last.
-/

namespace Sshnack

inductive Value where
  | int (x : Int)
  | text (s : CString)
  deriving DecidableEq

abbrev Row := List Value

/-- `sqlite3_column_int`: the low 32 bits of the stored integer, as a signed int. -/
def columnInt (r : Row) (i : ℕ) : Int32 :=
  match r[i]? with
  | some (.int x) => Int32.ofInt x
  | _ => 0

def columnText (r : Row) (i : ℕ) : CString :=
  match r[i]? with
  | some (.text s) => s
  | _ => []

inductive Stmt where
  | selectSlotItem (slotId : Int32)
  | selectBalance (userId : Int32)
  | debitBalance (price userId : Int32)
  | decrementStock (slotId : Int32)
  | insertPurchase (userId itemId totalAmount : Int32)
  | insertCash (type : TransactionType) (userId totalAmount : Int32)
  | selectStockItem (slotId : Int32)
  | insertStockLog (itemId : Int32) (type : ChangeType) (quantityChanged : Int32)
  | upsertBalance (userId amount : Int32)
  | zeroBalance (userId : Int32)
  | addStock (qty slotId : Int32)
  | setPrice (price itemId : Int32)
  | upsertFingerprint (fingerprint : CString)
  | selectProduct (slotId : Int32)
  | selectProductsAfter (last : Option Int)
  deriving DecidableEq

namespace Tables

def findUser (t : Tables) (id : Int) : Option User := t.users.find? fun u => u.userId = id

def findItem (t : Tables) (id : Int) : Option Item := t.items.find? fun i => i.itemId = id

def findSlot (t : Tables) (id : Int) : Option Slot := t.stock.find? fun s => s.slotId = id

def findFingerprint (t : Tables) (f : CString) : Option User :=
  t.users.find? fun u => u.fingerprint = some f

/-- `stock s JOIN items i ON s.item_id = i.item_id`, at one slot. -/
def slotItem (t : Tables) (id : Int) : Option (Slot × Item) :=
  (t.findSlot id).bind fun s => (t.findItem s.itemId).map fun i => (s, i)

def updateBalance (t : Tables) (id : Int) (f : Int → Int) : Tables :=
  { t with users := t.users.map fun u =>
      if u.userId = id then { u with balance := f u.balance } else u }

def updateQuantity (t : Tables) (id : Int) (f : Int → Int) : Tables :=
  { t with stock := t.stock.map fun s =>
      if s.slotId = id then { s with quantity := f s.quantity } else s }

def updatePrice (t : Tables) (id price : Int) : Tables :=
  { t with items := t.items.map fun i => if i.itemId = id then { i with price := price } else i }

def insertTransaction (t : Tables) (x : Transaction) : Tables :=
  { t with transactions := t.transactions ++ [x] }

def insertLog (t : Tables) (l : StockLog) : Tables := { t with stockLogs := t.stockLogs ++ [l] }

def upsertBalance (t : Tables) (id amount : Int) : Tables :=
  match t.findUser id with
  | some _ => t.updateBalance id (· + amount)
  | none => { t with
      users := t.users ++ [⟨id, none, amount⟩]
      usersSeq := max t.usersSeq id }

/-- The upsert of `users_lookup` with the id it returns. AUTOINCREMENT draws an id for the attempted
insert, so the sequence moves on even when the fingerprint is already there. -/
def upsertFingerprint (t : Tables) (f : CString) : Tables × Int :=
  match t.findFingerprint f with
  | some u => ({ t with usersSeq := t.usersSeq + 1 }, u.userId)
  | none => ({ t with
      users := t.users ++ [⟨t.usersSeq + 1, some f, 0⟩]
      usersSeq := t.usersSeq + 1 }, t.usersSeq + 1)

end Tables

namespace Tables

variable (t : Tables)

@[simp] theorem insertTransaction_stock (x : Transaction) :
    (t.insertTransaction x).stock = t.stock := rfl

/-- The upserts touch only the users. -/
theorem upsertBalance_frame (id amount : Int) :
    ∃ us n, t.upsertBalance id amount = { t with users := us, usersSeq := n } := by
  unfold upsertBalance
  cases t.findUser id with
  | some u => exact ⟨_, t.usersSeq, rfl⟩
  | none => exact ⟨_, _, rfl⟩

theorem upsertFingerprint_frame (f : CString) :
    ∃ us n, (t.upsertFingerprint f).1 = { t with users := us, usersSeq := n } := by
  unfold upsertFingerprint
  cases t.findFingerprint f with
  | some u => exact ⟨t.users, _, rfl⟩
  | none => exact ⟨_, _, rfl⟩

theorem findUser_eq_some {id : Int} {u : User} (h : t.findUser id = some u) :
    u ∈ t.users ∧ u.userId = id :=
  Keyed.find_eq_some h

theorem findItem_eq_some {id : Int} {i : Item} (h : t.findItem id = some i) :
    i ∈ t.items ∧ i.itemId = id :=
  Keyed.find_eq_some h

theorem findSlot_eq_some {id : Int} {s : Slot} (h : t.findSlot id = some s) :
    s ∈ t.stock ∧ s.slotId = id :=
  Keyed.find_eq_some h

theorem slotItem_eq_some {id : Int} {s : Slot} {i : Item} (h : t.slotItem id = some (s, i)) :
    t.findSlot id = some s ∧ t.findItem s.itemId = some i := by
  obtain ⟨s', hslot, hjoin⟩ := Option.bind_eq_some_iff.1 h
  obtain ⟨i', hitem, heq⟩ := Option.map_eq_some_iff.1 hjoin
  obtain ⟨rfl, rfl⟩ := Prod.mk.inj heq
  exact ⟨hslot, hitem⟩

theorem findSlot_updateQuantity (id id' : Int) (f : Int → Int) :
    (t.updateQuantity id f).findSlot id' = (t.findSlot id').map fun s =>
      if s.slotId = id then { s with quantity := f s.quantity } else s :=
  Keyed.find_update fun _ => rfl

theorem findSlot_updateQuantity_self {id : Int} {f : Int → Int} {s : Slot}
    (h : t.findSlot id = some s) :
    (t.updateQuantity id f).findSlot id = some { s with quantity := f s.quantity } := by
  rw [findSlot_updateQuantity, h, Option.map_some, if_pos (t.findSlot_eq_some h).2]

theorem findUser_updateBalance (id id' : Int) (f : Int → Int) :
    (t.updateBalance id f).findUser id' = (t.findUser id').map fun u =>
      if u.userId = id then { u with balance := f u.balance } else u :=
  Keyed.find_update fun _ => rfl

theorem findSlot_of_updateQuantity {id id' : Int} {f : Int → Int} {s' : Slot}
    (h : (t.updateQuantity id f).findSlot id' = some s') :
    ∃ s, t.findSlot id' = some s ∧ s'.itemId = s.itemId := by
  rw [findSlot_updateQuantity] at h
  obtain ⟨s, hs, rfl⟩ := Option.map_eq_some_iff.1 h
  exact ⟨s, hs, by rw [apply_ite Slot.itemId, ite_self]⟩

end Tables

def productRow (p : Slot × Item) : Row :=
  [.int p.1.slotId, .int p.1.itemId, .text p.2.name, .int p.2.price, .int p.1.quantity]

def lowestSlot : List Slot → Option Slot
  | [] => none
  | s :: ss => match lowestSlot ss with
    | none => some s
    | some m => some (if m.slotId < s.slotId then m else s)

/-- The first slot past `last` in the order of `slot_id`. -/
def Tables.nextSlot (t : Tables) (last : Option Int) : Option Slot :=
  lowestSlot (t.stock.filter fun s => decide (∀ l ∈ last, l < s.slotId))

def Stmt.perform : Txn.Engine Db Stmt Row
  | .selectSlotItem slotId, d => some (d, (d.slotItem slotId.toInt).map fun p =>
      [.int p.1.itemId, .int p.2.price, .int p.1.quantity])
  | .selectBalance userId, d => some (d, (d.findUser userId.toInt).map fun u => [.int u.balance])
  | .debitBalance price userId, d =>
      (d.updateBalance userId.toInt (· - price.toInt)).check.map fun d' => (d', none)
  | .decrementStock slotId, d =>
      (d.updateQuantity slotId.toInt (· - 1)).check.map fun d' => (d', none)
  | .insertPurchase userId itemId totalAmount, d =>
      (d.insertTransaction ⟨.purchase, userId.toInt, some itemId.toInt, some 1,
        totalAmount.toInt⟩).check.map fun d' => (d', none)
  | .insertCash type userId totalAmount, d =>
      (d.insertTransaction ⟨type, userId.toInt, none, none, totalAmount.toInt⟩).check.map
        fun d' => (d', none)
  | .selectStockItem slotId, d => some (d, (d.findSlot slotId.toInt).map fun s => [.int s.itemId])
  | .insertStockLog itemId type quantityChanged, d =>
      (d.insertLog ⟨itemId.toInt, type, quantityChanged.toInt⟩).check.map fun d' => (d', none)
  | .upsertBalance userId amount, d =>
      (d.upsertBalance userId.toInt amount.toInt).check.map fun d' => (d', none)
  | .zeroBalance userId, d =>
      (d.updateBalance userId.toInt (fun _ => 0)).check.map fun d' => (d', none)
  | .addStock qty slotId, d =>
      (d.updateQuantity slotId.toInt (· + qty.toInt)).check.map fun d' => (d', none)
  | .setPrice price itemId, d =>
      (d.updatePrice itemId.toInt price.toInt).check.map fun d' => (d', none)
  | .upsertFingerprint f, d =>
      (d.upsertFingerprint f).1.check.map fun d' => (d', some [.int (d.upsertFingerprint f).2])
  | .selectProduct slotId, d => some (d, (d.slotItem slotId.toInt).map productRow)
  | .selectProductsAfter last, d =>
      some (d, ((d.nextSlot last).bind fun s => d.slotItem s.slotId).map productRow)

end Sshnack
