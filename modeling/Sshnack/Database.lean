import Sshnack.CStrings

/-!
# The database schema of `init.sql`

The five tables are lists of rows. `Tables.Valid` is the schema: primary keys, UNIQUE, the CHECK
constraints and the foreign keys (`db_init` turns them on). A `Db` carries its validity, so a state
that breaks a constraint cannot be built; a statement that would produce one fails instead
(`Tables.check`).

That stored numbers stay signed 64-bit integers is an assumption, not the schema. A sum beyond 64 bits
does not fail in SQLite but is stored as a REAL; the range is a part of `Tables.Valid` here, and what
the program does after such a sum is not modelled.

`usersSeq` is the `sqlite_sequence` entry of `users`: the largest `user_id` ever drawn. Row ids and
timestamps of the two log tables are never read by the program and are left out.
-/

namespace Sshnack

structure User where
  userId : Int
  fingerprint : Option CString
  balance : Int
  deriving DecidableEq

structure Item where
  itemId : Int
  name : CString
  price : Int
  deriving DecidableEq

structure Slot where
  slotId : Int
  itemId : Int
  quantity : Int
  deriving DecidableEq

inductive TransactionType where
  | purchase
  | deposit
  | withdrawal
  | refund
  deriving DecidableEq

structure Transaction where
  type : TransactionType
  userId : Int
  itemId : Option Int
  quantity : Option Int
  totalAmount : Int
  deriving DecidableEq

/-- The table constraint of `transactions`. A CHECK is violated only by a false value, and comparing
a NULL quantity gives NULL. -/
def Transaction.Check (t : Transaction) : Prop :=
  match t.type with
  | .purchase => t.itemId.isSome ∧ (∀ q ∈ t.quantity, 0 < q) ∧ t.totalAmount < 0
  | .deposit => t.itemId = none ∧ t.quantity = none ∧ 0 < t.totalAmount
  | .withdrawal => t.itemId = none ∧ t.quantity = none ∧ t.totalAmount < 0
  | .refund => t.itemId.isSome ∧ (∀ q ∈ t.quantity, 0 < q) ∧ 0 < t.totalAmount

inductive ChangeType where
  | addition
  | removal
  deriving DecidableEq

structure StockLog where
  itemId : Int
  changeType : ChangeType
  quantityChanged : Int
  deriving DecidableEq

/-- The table constraint of `stock_logs`. -/
def StockLog.Check (l : StockLog) : Prop :=
  match l.changeType with
  | .addition => 0 < l.quantityChanged
  | .removal => l.quantityChanged < 0

structure Tables where
  users : List User
  items : List Item
  stock : List Slot
  transactions : List Transaction
  stockLogs : List StockLog
  usersSeq : Int
  deriving DecidableEq

def InInt64 (x : Int) : Prop := -2 ^ 63 ≤ x ∧ x < 2 ^ 63

namespace Tables

def userIds (t : Tables) : List Int := t.users.map User.userId

def itemIds (t : Tables) : List Int := t.items.map Item.itemId

def slotIds (t : Tables) : List Int := t.stock.map Slot.slotId

structure ValidUsers (t : Tables) : Prop where
  key : t.userIds.Nodup
  unique : (t.users.filterMap User.fingerprint).Nodup
  check : ∀ u ∈ t.users, 0 ≤ u.balance
  range : ∀ u ∈ t.users, InInt64 u.userId ∧ InInt64 u.balance
  sequence : 0 ≤ t.usersSeq ∧ InInt64 t.usersSeq ∧ ∀ u ∈ t.users, u.userId ≤ t.usersSeq

structure ValidItems (t : Tables) : Prop where
  key : t.itemIds.Nodup
  range : ∀ i ∈ t.items, InInt64 i.itemId ∧ InInt64 i.price

structure ValidStock (t : Tables) : Prop where
  key : t.slotIds.Nodup
  check : ∀ s ∈ t.stock, 0 ≤ s.quantity
  range : ∀ s ∈ t.stock, InInt64 s.slotId ∧ InInt64 s.quantity
  item : ∀ s ∈ t.stock, s.itemId ∈ t.itemIds

structure ValidTransactions (t : Tables) : Prop where
  check : ∀ x ∈ t.transactions, x.Check
  range : ∀ x ∈ t.transactions, InInt64 x.totalAmount
  user : ∀ x ∈ t.transactions, x.userId ∈ t.userIds
  item : ∀ x ∈ t.transactions, ∀ i ∈ x.itemId, i ∈ t.itemIds

structure ValidStockLogs (t : Tables) : Prop where
  check : ∀ l ∈ t.stockLogs, l.Check
  range : ∀ l ∈ t.stockLogs, InInt64 l.quantityChanged
  item : ∀ l ∈ t.stockLogs, l.itemId ∈ t.itemIds

structure Valid (t : Tables) : Prop where
  users : t.ValidUsers
  items : t.ValidItems
  stock : t.ValidStock
  transactions : t.ValidTransactions
  stockLogs : t.ValidStockLogs

end Tables

instance (x : Int) : Decidable (InInt64 x) := inferInstanceAs (Decidable (_ ∧ _))

instance (t : Transaction) : Decidable t.Check :=
  match t with
  | ⟨.purchase, _, i, q, a⟩ =>
      inferInstanceAs (Decidable (i.isSome ∧ (∀ n ∈ q, 0 < n) ∧ a < 0))
  | ⟨.deposit, _, i, q, a⟩ => inferInstanceAs (Decidable (i = none ∧ q = none ∧ 0 < a))
  | ⟨.withdrawal, _, i, q, a⟩ => inferInstanceAs (Decidable (i = none ∧ q = none ∧ a < 0))
  | ⟨.refund, _, i, q, a⟩ => inferInstanceAs (Decidable (i.isSome ∧ (∀ n ∈ q, 0 < n) ∧ 0 < a))

instance (l : StockLog) : Decidable l.Check :=
  match l with
  | ⟨_, .addition, q⟩ => inferInstanceAs (Decidable (0 < q))
  | ⟨_, .removal, q⟩ => inferInstanceAs (Decidable (q < 0))

namespace Tables

instance (t : Tables) : Decidable t.ValidUsers :=
  decidable_of_iff (t.userIds.Nodup ∧ (t.users.filterMap User.fingerprint).Nodup ∧
      (∀ u ∈ t.users, 0 ≤ u.balance) ∧ (∀ u ∈ t.users, InInt64 u.userId ∧ InInt64 u.balance) ∧
      0 ≤ t.usersSeq ∧ InInt64 t.usersSeq ∧ ∀ u ∈ t.users, u.userId ≤ t.usersSeq)
    ⟨fun ⟨h₁, h₂, h₃, h₄, h₅⟩ => ⟨h₁, h₂, h₃, h₄, h₅⟩, fun ⟨h₁, h₂, h₃, h₄, h₅⟩ =>
      ⟨h₁, h₂, h₃, h₄, h₅⟩⟩

instance (t : Tables) : Decidable t.ValidItems :=
  decidable_of_iff (t.itemIds.Nodup ∧ ∀ i ∈ t.items, InInt64 i.itemId ∧ InInt64 i.price)
    ⟨fun ⟨h₁, h₂⟩ => ⟨h₁, h₂⟩, fun ⟨h₁, h₂⟩ => ⟨h₁, h₂⟩⟩

instance (t : Tables) : Decidable t.ValidStock :=
  decidable_of_iff (t.slotIds.Nodup ∧ (∀ s ∈ t.stock, 0 ≤ s.quantity) ∧
      (∀ s ∈ t.stock, InInt64 s.slotId ∧ InInt64 s.quantity) ∧ ∀ s ∈ t.stock, s.itemId ∈ t.itemIds)
    ⟨fun ⟨h₁, h₂, h₃, h₄⟩ => ⟨h₁, h₂, h₃, h₄⟩, fun ⟨h₁, h₂, h₃, h₄⟩ => ⟨h₁, h₂, h₃, h₄⟩⟩

instance (t : Tables) : Decidable t.ValidTransactions :=
  decidable_of_iff ((∀ x ∈ t.transactions, x.Check) ∧ (∀ x ∈ t.transactions, InInt64 x.totalAmount) ∧
      (∀ x ∈ t.transactions, x.userId ∈ t.userIds) ∧
      ∀ x ∈ t.transactions, ∀ i ∈ x.itemId, i ∈ t.itemIds)
    ⟨fun ⟨h₁, h₂, h₃, h₄⟩ => ⟨h₁, h₂, h₃, h₄⟩, fun ⟨h₁, h₂, h₃, h₄⟩ => ⟨h₁, h₂, h₃, h₄⟩⟩

instance (t : Tables) : Decidable t.ValidStockLogs :=
  decidable_of_iff ((∀ l ∈ t.stockLogs, l.Check) ∧ (∀ l ∈ t.stockLogs, InInt64 l.quantityChanged) ∧
      ∀ l ∈ t.stockLogs, l.itemId ∈ t.itemIds)
    ⟨fun ⟨h₁, h₂, h₃⟩ => ⟨h₁, h₂, h₃⟩, fun ⟨h₁, h₂, h₃⟩ => ⟨h₁, h₂, h₃⟩⟩

instance (t : Tables) : Decidable t.Valid :=
  decidable_of_iff (t.ValidUsers ∧ t.ValidItems ∧ t.ValidStock ∧ t.ValidTransactions ∧
      t.ValidStockLogs)
    ⟨fun ⟨h₁, h₂, h₃, h₄, h₅⟩ => ⟨h₁, h₂, h₃, h₄, h₅⟩, fun ⟨h₁, h₂, h₃, h₄, h₅⟩ =>
      ⟨h₁, h₂, h₃, h₄, h₅⟩⟩

end Tables

/-- A database state: tables that meet every constraint of the schema. -/
structure Db extends Tables where
  valid : toTables.Valid

theorem Db.ext {d d' : Db} (h : d.toTables = d'.toTables) : d = d' := by
  cases d
  cases d'
  congr

instance : DecidableEq Db := fun d d' =>
  decidable_of_iff (d.toTables = d'.toTables) ⟨Db.ext, fun h => by rw [h]⟩

theorem Db.user_eq_of_id (d : Db) {u v : User} (hu : u ∈ d.users) (hv : v ∈ d.users)
    (hid : u.userId = v.userId) : u = v :=
  List.inj_on_of_nodup_map d.valid.users.key hu hv hid

theorem Db.slot_eq_of_id (d : Db) {s s' : Slot} (hs : s ∈ d.stock) (hs' : s' ∈ d.stock)
    (hid : s.slotId = s'.slotId) : s = s' :=
  List.inj_on_of_nodup_map d.valid.stock.key hs hs' hid

/-- The constraints are enforced: tables that break one are not stored. -/
def Tables.check (t : Tables) : Option Db := if h : t.Valid then some ⟨t, h⟩ else none

theorem Tables.check_eq_some_iff {t : Tables} {d : Db} : t.check = some d ↔ d.toTables = t := by
  unfold Tables.check
  constructor
  · intro h
    split_ifs at h with hv
    cases h
    rfl
  · rintro rfl
    rw [dif_pos d.valid]

theorem Tables.check_of_valid {t : Tables} (h : t.Valid) : t.check = some ⟨t, h⟩ := dif_pos h

end Sshnack
