import Sshnack.HttpRequest
import Sshnack.Services

/-!
# Request handlers

Each handler checks the credentials, scans its numbers from the path and the body and makes at most
one service call. The `send_json` functions of the five files differ in the buffer and in the status
codes they know. What a handler prints and the ten seconds that `handle_get_slow` sleeps are left
out. `handleGetStock` makes the text of its list without the allocated buffer, which `StockBuffers`
adds (`handleGetStockIn`).
-/

namespace Sshnack

open Txn

/-- What is passed to `send`: `text.length` bytes from a buffer of `size` bytes, in which `text` was
written as far as it fits. -/
structure Response where
  size : ℕ
  text : CString
  deriving DecidableEq

/-- A string literal sent with its `strlen`. -/
def literalResponse (text : String) : Response := ⟨(ascii text).length + 1, ascii text⟩

def sendJson (size : ℕ) (statusStrs : List (ℕ × String)) (status : ℕ) (body : CString) : Response :=
  ⟨size, ascii "HTTP/1.1 " ++
    ascii ((statusStrs.lookup status).getD "500 Internal Server Error") ++
    ascii "\r\nContent-Type: application/json\r\nContent-Length: " ++
    ascii (toString body.length) ++ ascii "\r\n\r\n" ++ body⟩

def Admin.sendJson : ℕ → CString → Response := Sshnack.sendJson 512
  [(200, "200 OK"), (400, "400 Bad Request"), (403, "403 Forbidden")]

def Balance.sendJson : ℕ → CString → Response := Sshnack.sendJson 512
  [(200, "200 OK"), (400, "400 Bad Request"), (401, "401 Unauthorized"), (404, "404 Not Found")]

def Orders.sendJson : ℕ → CString → Response := Sshnack.sendJson 512
  [(200, "200 OK"), (400, "400 Bad Request"), (401, "401 Unauthorized")]

def Products.sendJson : ℕ → CString → Response := Sshnack.sendJson 8192
  [(200, "200 OK"), (404, "404 Not Found")]

def Users.sendJson : ℕ → CString → Response := Sshnack.sendJson 512
  [(200, "200 OK"), (400, "400 Bad Request")]

def errorBody (message : String) : CString :=
  ascii "\x7b\"error\":\"" ++ ascii message ++ ascii "\"\x7d"

def okBody : CString := ascii "\x7b\"ok\":true\x7d"

/-- The body with one number, `{"<key>":%d}`. -/
def numberBody (key : String) (x : Int32) : CString :=
  ascii "\x7b\"" ++ ascii key ++ ascii "\":" ++ formatInt x ++ ascii "\x7d"

/-- The value that a service function returns. -/
def returned : Except Int32 Answer → Int32
  | .error rc => rc
  | .ok (.code rc) => rc
  | .ok _ => 0

/-- The number that a service function writes through its out parameter. -/
def written : Except Int32 Answer → Int32
  | .ok (.amount out) => out
  | _ => 0

/-- The array that `products_list` writes through its out parameters. -/
def listed : Except Int32 Answer → List Product
  | .ok (.products out) => out
  | _ => []

/-- `sscanf(s, "<literal>%d..", &x)`, where what follows the number in the format cannot change the
count of conversions. -/
def scanNumber (literal : CString) (s : CString) : Option Int32 := (scanLiteral literal s).bind scanInt

/-- The format `{"<key>":%d}`. -/
def scanField (key : String) (body : CString) : Option Int32 :=
  scanNumber (ascii "\x7b\"" ++ ascii key ++ ascii "\":") body

/-- An admin action on an id from the path with a number from the body. -/
def adminAction (path key failed : String) (service : Int32 → Int32 → Service) (req : Request) :
    Prog Stmt Row Response := do
  if req.auth.role ≠ .admin then return Admin.sendJson 403 (errorBody "forbidden")
  let some id := scanNumber (ascii path) req.path
    | return Admin.sendJson 400 (errorBody "invalid path")
  let some x := scanField key req.body
    | return Admin.sendJson 400 (errorBody ("missing " ++ key))
  let result ← service id x
  if returned result ≠ 0 then return Admin.sendJson 500 (errorBody failed)
  return Admin.sendJson 200 okBody

def handlePostRestock : Request → Prog Stmt Row Response :=
  adminAction "/stock/" "qty" "restock failed" productRestock

def handlePostUpdatePrice : Request → Prog Stmt Row Response :=
  adminAction "/items/" "price_gr" "update failed" productUpdatePrice

/-- An action of the caller with a number from the body. -/
def userAction (send : ℕ → CString → Response) (key failed : String)
    (service : Int32 → Int32 → Service) (req : Request) : Prog Stmt Row Response := do
  if req.auth.role = .none then return send 401 (errorBody "unauthorized")
  let some x := scanField key req.body
    | return send 400 (errorBody ("missing " ++ key))
  let result ← service req.auth.userId x
  if returned result ≠ 0 then return send 500 (errorBody failed)
  return send 200 okBody

def handlePostDeposit : Request → Prog Stmt Row Response :=
  userAction Balance.sendJson "amount_gr" "internal error" balanceDeposit

def handlePostPurchase : Request → Prog Stmt Row Response :=
  userAction Orders.sendJson "slot_id" "purchase failed" ordersPurchase

/-- An answer with an amount of the caller. -/
def balanceReport (key : String) (service : Int32 → Service) (req : Request) :
    Prog Stmt Row Response := do
  if req.auth.role = .none then return Balance.sendJson 401 (errorBody "unauthorized")
  let result ← service req.auth.userId
  if returned result = balanceNotFound then
    return Balance.sendJson 404 (errorBody "user not found")
  if returned result ≠ 0 then return Balance.sendJson 500 (errorBody "internal error")
  return Balance.sendJson 200 (numberBody key (written result))

def handleGetBalance : Request → Prog Stmt Row Response := balanceReport "balance_gr" balanceGet

def handleDeleteBalance : Request → Prog Stmt Row Response := balanceReport "refund_gr" balanceReset

/-- The format ` {"fingerprint" : "%127[^"]" }`. -/
def scanFingerprint (body : CString) : Option CString := do
  let s ← scanLiteral (ascii "\x7b\"fingerprint\"") (skipSpace body)
  let s ← scanLiteral (ascii ":") (skipSpace s)
  let s ← scanLiteral (ascii "\"") (skipSpace s)
  let scanned ← scanUntil 34 127 s
  return scanned.1

def handleLookupUser (req : Request) : Prog Stmt Row Response := do
  let some fingerprint := scanFingerprint req.body
    | return Users.sendJson 400 (errorBody "missing fingerprint")
  let result ← usersLookup fingerprint
  if returned result = -1 then return Users.sendJson 500 (errorBody "lookup failed")
  return Users.sendJson 200 (numberBody "user_id" (returned result))

def productJson (p : Product) : CString :=
  ascii "\x7b\"slot_id\":" ++ formatInt p.slotId ++ ascii ",\"item_id\":" ++ formatInt p.itemId ++
    ascii ",\"name\":\"" ++ p.name ++ ascii "\",\"price_gr\":" ++ formatInt p.priceGr ++
    ascii ",\"stock_qty\":" ++ formatInt p.stockQty ++ ascii "\x7d"

def stockBody (products : List Product) : CString :=
  ascii "[" ++ List.intercalate (ascii ",") (products.map productJson) ++ ascii "]"

/-- `rows` is the bound of `productsList`. -/
def handleGetStock (rows : ℕ) (_ : Request) : Prog Stmt Row Response := do
  let result ← productsList rows
  if returned result ≠ 0 then return Products.sendJson 500 (errorBody "internal error")
  return Products.sendJson 200 (stockBody (listed result))

def handleGetSlow (_ : Request) : Prog Stmt Row Response :=
  return literalResponse
    "HTTP/1.1 200 OK\r\nContent-Type: text/plain\r\nContent-Length: 2\r\n\r\nok"

end Sshnack
