import Sshnack.Statements
import Sshnack.TxnDiscipline

/-!
# The service functions as programs of SQLite calls

Each function makes the calls of its C source in the same order and leaves through the same exits;
the messages it prints to stderr are left out. A failure exit carries the returned code in
`Except.error`. A success exit carries what the function returns and, for the functions that write
through an out parameter, what they write there.

The product loop of `products_list` runs as long as SQLite returns rows; `rows` bounds it, and a run
of the source corresponds to any bound above the number of rows it is given. C ints are `Int32`,
whose negation wraps.
-/

namespace Sshnack

open Txn

/-- `product_t`. -/
structure Product where
  slotId : Int32
  itemId : Int32
  name : CString
  priceGr : Int32
  stockQty : Int32
  deriving DecidableEq

inductive Answer where
  | code (rc : Int32)
  | amount (out : Int32)
  | products (out : List Product)
  deriving DecidableEq

abbrev Service := Prog Stmt Row (Except Int32 Answer)

def balanceNotFound : Int32 := -2

def maxNameLen : ℕ := 50

def exec (c : Call Stmt) : Prog Stmt Row (Reply Row) := Prog.exec c

@[simp] theorem exec_bind {α : Type} (c : Call Stmt) (f : Reply Row → Prog Stmt Row α) :
    (exec c >>= f) = .call c f := rfl

/-- The exit `ROLLBACK; return rc;`. -/
def rollbackAndFail (rc : Int32) : Service := do
  let _ ← exec .rollback
  return .error rc

def dbLogCashTransaction (userId amountGr : Int32) (type : TransactionType) :
    Prog Stmt Row Int32 := do
  let rc ← exec (.prepare (.insertCash type userId amountGr))
  if rc ≠ .ok then return -1
  let rc ← exec (.step (.insertCash type userId amountGr))
  if rc ≠ .done then return -1
  return 0

def dbLogStockChange (slotId changeQty : Int32) (type : ChangeType) : Prog Stmt Row Int32 := do
  let rc ← exec (.prepare (.selectStockItem slotId))
  if rc ≠ .ok then return -1
  let .row r ← exec (.step (.selectStockItem slotId)) | return -1
  let itemId := columnInt r 0
  let rc ← exec (.prepare (.insertStockLog itemId type changeQty))
  if rc ≠ .ok then return -1
  let rc ← exec (.step (.insertStockLog itemId type changeQty))
  if rc ≠ .done then return -1
  return 0

def balanceGet (userId : Int32) : Service := do
  let rc ← exec (.prepare (.selectBalance userId))
  if rc ≠ .ok then return .error (-1)
  match ← exec (.step (.selectBalance userId)) with
  | .done => return .error balanceNotFound
  | .row r => return .ok (.amount (columnInt r 0))
  | _ => return .error (-1)

def balanceDeposit (userId amountGr : Int32) : Service := do
  if amountGr ≤ 0 then return .error (-1)
  let rc ← exec .begin
  if rc ≠ .ok then return .error (-1)
  let rc ← exec (.prepare (.upsertBalance userId amountGr))
  if rc ≠ .ok then rollbackAndFail (-1) else
  let rc ← exec (.step (.upsertBalance userId amountGr))
  if rc ≠ .done then rollbackAndFail (-1) else
  let logged ← dbLogCashTransaction userId amountGr .deposit
  if logged ≠ 0 then rollbackAndFail (-1) else
  let rc ← exec .commit
  if rc ≠ .ok then rollbackAndFail (-1) else
  return .ok (.code 0)

def balanceReset (userId : Int32) : Service := do
  let rc ← exec .begin
  if rc ≠ .ok then return .error (-1)
  let rc ← exec (.prepare (.selectBalance userId))
  if rc ≠ .ok then rollbackAndFail (-1) else
  match ← exec (.step (.selectBalance userId)) with
  | .done => rollbackAndFail balanceNotFound
  | .row r =>
    let balance := columnInt r 0
    if balance = 0 then
      let _ ← exec .rollback
      return .ok (.amount 0)
    else
    let rc ← exec (.prepare (.zeroBalance userId))
    if rc ≠ .ok then rollbackAndFail (-1) else
    let rc ← exec (.step (.zeroBalance userId))
    if rc ≠ .done then rollbackAndFail (-1) else
    let logged ← dbLogCashTransaction userId (-balance) .withdrawal
    if logged ≠ 0 then rollbackAndFail (-1) else
    let rc ← exec .commit
    if rc ≠ .ok then rollbackAndFail (-1) else
    return .ok (.amount balance)
  | _ => rollbackAndFail (-1)

def ordersPurchase (userId slotId : Int32) : Service := do
  let rc ← exec .begin
  if rc ≠ .ok then return .error (-1)
  let rc ← exec (.prepare (.selectSlotItem slotId))
  if rc ≠ .ok then rollbackAndFail (-1) else
  let .row r ← exec (.step (.selectSlotItem slotId)) | rollbackAndFail (-1)
  let itemId := columnInt r 0
  let price := columnInt r 1
  let quantity := columnInt r 2
  if quantity ≤ 0 then rollbackAndFail (-1) else
  let rc ← exec (.prepare (.selectBalance userId))
  if rc ≠ .ok then rollbackAndFail (-1) else
  let .row r ← exec (.step (.selectBalance userId)) | rollbackAndFail (-1)
  let balance := columnInt r 0
  if balance < price then rollbackAndFail (-1) else
  let rc ← exec (.prepare (.debitBalance price userId))
  if rc ≠ .ok then rollbackAndFail (-1) else
  let rc ← exec (.step (.debitBalance price userId))
  if rc ≠ .done then rollbackAndFail (-1) else
  let rc ← exec (.prepare (.decrementStock slotId))
  if rc ≠ .ok then rollbackAndFail (-1) else
  let rc ← exec (.step (.decrementStock slotId))
  if rc ≠ .done then rollbackAndFail (-1) else
  let rc ← exec (.prepare (.insertPurchase userId itemId (-price)))
  if rc ≠ .ok then rollbackAndFail (-1) else
  let rc ← exec (.step (.insertPurchase userId itemId (-price)))
  if rc ≠ .done then rollbackAndFail (-1) else
  let logged ← dbLogStockChange slotId (-1) .removal
  if logged ≠ 0 then rollbackAndFail (-1) else
  let rc ← exec .commit
  if rc ≠ .ok then rollbackAndFail (-1) else
  return .ok (.code 0)

def readProduct (r : Row) : Product where
  slotId := columnInt r 0
  itemId := columnInt r 1
  name := ((columnText r 2).takeWhile (· ≠ 0)).take (maxNameLen - 1)
  priceGr := columnInt r 3
  stockQty := columnInt r 4

/-- Where the cursor of `products_list` stands after returning this row. -/
def cursorAfter (r : Row) : Option Int :=
  match r.head? with
  | some (.int x) => some x
  | _ => none

def productsLoop : ℕ → Option Int → List Product → Service
  | 0, _, _ => .ret (.error (-1))
  | rows + 1, last, products => do
    match ← exec (.step (.selectProductsAfter last)) with
    | .row r => productsLoop rows (cursorAfter r) (products ++ [readProduct r])
    | .done => return .ok (.products products)
    | _ => return .error (-1)

def productsList (rows : ℕ) : Service := do
  let rc ← exec (.prepare (.selectProductsAfter none))
  if rc ≠ .ok then return .error (-1)
  productsLoop rows none []

def productGet (slotId : Int32) : Service := do
  let rc ← exec (.prepare (.selectProduct slotId))
  if rc ≠ .ok then return .error (-1)
  let .row r ← exec (.step (.selectProduct slotId)) | return .error (-1)
  return .ok (.products [readProduct r])

def productRestock (slotId qty : Int32) : Service := do
  if qty ≤ 0 then return .error (-1)
  let rc ← exec .begin
  if rc ≠ .ok then return .error (-1)
  let rc ← exec (.prepare (.addStock qty slotId))
  if rc ≠ .ok then rollbackAndFail (-1) else
  let rc ← exec (.step (.addStock qty slotId))
  if rc ≠ .done then rollbackAndFail (-1) else
  let logged ← dbLogStockChange slotId qty .addition
  if logged ≠ 0 then rollbackAndFail (-1) else
  let rc ← exec .commit
  if rc ≠ .ok then rollbackAndFail (-1) else
  return .ok (.code 0)

def productUpdatePrice (itemId priceGr : Int32) : Service := do
  if priceGr ≤ 0 then return .error (-1)
  let rc ← exec (.prepare (.setPrice priceGr itemId))
  if rc ≠ .ok then return .error (-1)
  let rc ← exec (.step (.setPrice priceGr itemId))
  if rc ≠ .done then return .error (-1)
  return .ok (.code 0)

def usersLookup (fingerprint : CString) : Service := do
  let rc ← exec .begin
  if rc ≠ .ok then return .error (-1)
  let rc ← exec (.prepare (.upsertFingerprint fingerprint))
  if rc ≠ .ok then rollbackAndFail (-1) else
  let .row r ← exec (.step (.upsertFingerprint fingerprint)) | rollbackAndFail (-1)
  let userId := columnInt r 0
  let rc ← exec .commit
  if rc ≠ .ok then rollbackAndFail (-1) else
  return .ok (.code userId)

end Sshnack
