import Sshnack.ServiceDiscipline

/-!
# Service calls and what each of them can do

`ServiceCall` is one call of the service layer with its arguments. `Effect` lists everything a call
can do to a database with no transaction open, whatever faults it meets: fail and change nothing, or
have its one effect. The effects are stated on the tables; what the program reads of them goes
through `sqlite3_column_int`, so the guards speak of the low 32 bits.
-/

namespace Sshnack

open Txn

/-- The operations that open a transaction. -/
inductive TxnOp where
  | ordersPurchase (userId slotId : Int32)
  | balanceDeposit (userId amountGr : Int32)
  | balanceReset (userId : Int32)
  | productRestock (slotId qty : Int32)
  | usersLookup (fingerprint : CString)
  deriving DecidableEq

inductive ReadOp where
  | balanceGet (userId : Int32)
  | productsList (rows : ℕ)
  | productGet (slotId : Int32)
  deriving DecidableEq

inductive ServiceCall where
  | txn (op : TxnOp)
  | updatePrice (itemId priceGr : Int32)
  | read (op : ReadOp)
  deriving DecidableEq

def TxnOp.prog : TxnOp → Service
  | .ordersPurchase userId slotId => Sshnack.ordersPurchase userId slotId
  | .balanceDeposit userId amountGr => Sshnack.balanceDeposit userId amountGr
  | .balanceReset userId => Sshnack.balanceReset userId
  | .productRestock slotId qty => Sshnack.productRestock slotId qty
  | .usersLookup fingerprint => Sshnack.usersLookup fingerprint

def ReadOp.prog : ReadOp → Service
  | .balanceGet userId => Sshnack.balanceGet userId
  | .productsList rows => Sshnack.productsList rows
  | .productGet slotId => Sshnack.productGet slotId

def ServiceCall.prog : ServiceCall → Service
  | .txn op => op.prog
  | .updatePrice itemId priceGr => productUpdatePrice itemId priceGr
  | .read op => op.prog

theorem TxnOp.bracketed (op : TxnOp) : Bracketed op.prog := by
  cases op with
  | ordersPurchase userId slotId => exact bracketed_ordersPurchase userId slotId
  | balanceDeposit userId amountGr => exact bracketed_balanceDeposit userId amountGr
  | balanceReset userId => exact bracketed_balanceReset userId
  | productRestock slotId qty => exact bracketed_productRestock slotId qty
  | usersLookup fingerprint => exact bracketed_usersLookup fingerprint

theorem ReadOp.reading (op : ReadOp) : Reading Stmt.perform op.prog := by
  cases op with
  | balanceGet userId => exact reading_balanceGet userId
  | productsList rows => exact reading_productsList rows
  | productGet slotId => exact reading_productGet slotId

namespace Tables

def purchased (t : Tables) (userId slotId : Int) (itemId price : Int32) : Tables :=
  (((t.updateBalance userId (· - price.toInt)).updateQuantity slotId (· - 1)).insertTransaction
    ⟨.purchase, userId, some itemId.toInt, some 1, (-price).toInt⟩).insertLog
      ⟨itemId.toInt, .removal, -1⟩

def deposited (t : Tables) (userId amount : Int) : Tables :=
  (t.upsertBalance userId amount).insertTransaction ⟨.deposit, userId, none, none, amount⟩

def refunded (t : Tables) (userId : Int) (balance : Int32) : Tables :=
  (t.updateBalance userId (fun _ => 0)).insertTransaction
    ⟨.withdrawal, userId, none, none, (-balance).toInt⟩

def restocked (t : Tables) (slotId qty : Int) (itemId : Int32) : Tables :=
  (t.updateQuantity slotId (· + qty)).insertLog ⟨itemId.toInt, .addition, qty⟩

end Tables

inductive Effect (d : Db) : ServiceCall → Except Int32 Answer → Db → Prop
  | failed (call rc) : Effect d call (.error rc) d
  | read (op a) : Effect d (.read op) a d
  | purchased (userId slotId : Int32) (slot item user) (d' : Db)
      (hslot : d.findSlot slotId.toInt = some slot) (hitem : d.findItem slot.itemId = some item)
      (huser : d.findUser userId.toInt = some user)
      (hquantity : 0 < Int32.ofInt slot.quantity)
      (hbalance : Int32.ofInt item.price ≤ Int32.ofInt user.balance)
      (htables : d'.toTables = d.purchased userId.toInt slotId.toInt (Int32.ofInt slot.itemId)
        (Int32.ofInt item.price)) :
      Effect d (.txn (.ordersPurchase userId slotId)) (.ok (.code 0)) d'
  | deposited (userId amountGr : Int32) (d' : Db) (hamount : 0 < amountGr)
      (htables : d'.toTables = d.deposited userId.toInt amountGr.toInt) :
      Effect d (.txn (.balanceDeposit userId amountGr)) (.ok (.code 0)) d'
  | nothingToRefund (userId : Int32) (user) (huser : d.findUser userId.toInt = some user)
      (hzero : Int32.ofInt user.balance = 0) :
      Effect d (.txn (.balanceReset userId)) (.ok (.amount 0)) d
  | refunded (userId : Int32) (user) (d' : Db) (huser : d.findUser userId.toInt = some user)
      (hzero : Int32.ofInt user.balance ≠ 0)
      (htables : d'.toTables = d.refunded userId.toInt (Int32.ofInt user.balance)) :
      Effect d (.txn (.balanceReset userId)) (.ok (.amount (Int32.ofInt user.balance))) d'
  | restocked (slotId qty : Int32) (slot) (d' : Db) (hqty : 0 < qty)
      (hslot : d.findSlot slotId.toInt = some slot)
      (htables : d'.toTables = d.restocked slotId.toInt qty.toInt (Int32.ofInt slot.itemId)) :
      Effect d (.txn (.productRestock slotId qty)) (.ok (.code 0)) d'
  | repriced (itemId priceGr : Int32) (d' : Db) (hprice : 0 < priceGr)
      (htables : d'.toTables = d.updatePrice itemId.toInt priceGr.toInt) :
      Effect d (.updatePrice itemId priceGr) (.ok (.code 0)) d'
  | lookedUp (fingerprint) (d' : Db)
      (htables : d'.toTables = (d.upsertFingerprint fingerprint).1) :
      Effect d (.txn (.usersLookup fingerprint))
        (.ok (.code (Int32.ofInt (d.upsertFingerprint fingerprint).2))) d'

end Sshnack
