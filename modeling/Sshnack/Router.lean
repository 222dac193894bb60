import Sshnack.Handlers
import Sshnack.RadixTree

/-!
# Routing a request to its handler

`init_router` registers the routes; `dispatch` looks the path up, refuses an internal route on the
public socket and picks the function for the method. A missing function is a NULL pointer, and a
request of no known method is rejected by `handle_client` before it gets here.

`handle_client` calls `recv` once. `chunks` are the pieces in which the bytes arrive, one for each
call of `recv` that a receiver would need; a closed connection has none.
-/

namespace Sshnack

open Txn

/-- `handler_fn`. -/
inductive HandlerFn where
  | getStock
  | postRestock
  | getBalance
  | postDeposit
  | deleteBalance
  | postPurchase
  | postUpdatePrice
  | getSlow
  | lookupUser
  deriving DecidableEq

def HandlerFn.call (rows : ℕ) : HandlerFn → Request → Prog Stmt Row Response
  | .getStock => handleGetStock rows
  | .postRestock => handlePostRestock
  | .getBalance => handleGetBalance
  | .postDeposit => handlePostDeposit
  | .deleteBalance => handleDeleteBalance
  | .postPurchase => handlePostPurchase
  | .postUpdatePrice => handlePostUpdatePrice
  | .getSlow => handleGetSlow
  | .lookupUser => handleLookupUser

/-- `handler_t`. -/
structure Handler where
  get : Option HandlerFn := none
  post : Option HandlerFn := none
  patch : Option HandlerFn := none
  del : Option HandlerFn := none
  internal : Bool := false
  deriving DecidableEq

def Handler.fn (h : Handler) : Option Method → Option HandlerFn
  | some .get => h.get
  | some .post => h.post
  | some .patch => h.patch
  | some .delete => h.del
  | none => none

def registerRoute (tree : RadixTree Handler) (path : String) (handler : Handler) :
    RadixTree Handler :=
  tree.addNode (ascii path) (some handler)

def stockHandler : Handler where
  get := some .getStock

def stockSlotHandler : Handler where
  patch := some .postRestock

def balanceHandler : Handler where
  get := some .getBalance
  post := some .postDeposit
  del := some .deleteBalance

def ordersHandler : Handler where
  post := some .postPurchase

def itemsHandler : Handler where
  patch := some .postUpdatePrice

def debugHandler : Handler where
  get := some .getSlow

def userLookupHandler : Handler where
  post := some .lookupUser
  internal := true

/-- The delimiter is `/` and the wildcard is `:`. -/
def initRouter : RadixTree Handler :=
  let tree := RadixTree.init 47 58
  let tree := registerRoute tree "/stock" stockHandler
  let tree := registerRoute tree "/stock/:slot_id" stockSlotHandler
  let tree := registerRoute tree "/balance" balanceHandler
  let tree := registerRoute tree "/orders" ordersHandler
  let tree := registerRoute tree "/items/:item_id" itemsHandler
  let tree := registerRoute tree "/debug/slow" debugHandler
  registerRoute tree "/users/lookup" userLookupHandler

/-- The function that `dispatch` calls, or the answer that it sends instead. -/
def route (req : Request) (internal : Bool) : Except Response HandlerFn :=
  match initRouter.searchNode req.path with
  | none => .error (literalResponse "HTTP/1.1 404 Not Found\r\nContent-Length: 0\r\n\r\n")
  | some h =>
      if h.internal ∧ ¬ internal then
        .error (literalResponse "HTTP/1.1 403 Forbidden\r\nContent-Length: 0\r\n\r\n")
      else match h.fn req.method with
        | none => .error
            (literalResponse "HTTP/1.1 405 Method Not Allowed\r\nContent-Length: 0\r\n\r\n")
        | some fn => .ok fn

def dispatch (rows : ℕ) (req : Request) (internal : Bool) : Prog Stmt Row Response :=
  match route req internal with
  | .error response => return response
  | .ok fn => fn.call rows req

/-- One call of `recv` for at most `size` bytes. -/
def recv (size : ℕ) (chunks : List (List UInt8)) : List UInt8 := (chunks.headD []).take size

def bufSize : ℕ := 2048

/-- The request that `handle_client` parses, unless `recv` returns no bytes. -/
def received (adminToken : CString) (chunks : List (List UInt8)) : Option Request :=
  match recv (bufSize - 1) chunks with
  | [] => none
  | c :: buf => some (parseRequest adminToken (cString (c :: buf)))

/-- A client that closed its connection gets no answer. -/
def handleClient (rows : ℕ) (adminToken : CString) (internal : Bool) (chunks : List (List UInt8)) :
    Prog Stmt Row (Option Response) :=
  match received adminToken chunks with
  | none => return none
  | some req =>
      if req.method = none then
        return some (literalResponse "HTTP/1.1 400 Bad Request\r\nContent-Length: 0\r\n\r\n")
      else do
        let response ← dispatch rows req internal
        return some response

end Sshnack
