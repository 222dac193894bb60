import Sshnack.WireMessages
import Sshnack.HandlerNumbers
import Sshnack.ServiceCalls
import Sshnack.StockBuffers

/-!
# Agreement of the client and the server

For each call of the API: the handler that the route tree gives for its request, the numbers that the
handler scans, the one service call that it makes and the response that it sends for the outcome.
-/

namespace Sshnack.Tui

open Txn

/-! ### Routes -/

def stockSlotNode : TreeNode Handler := .mk (ascii ":slot_id") (some stockSlotHandler) []

def itemNode : TreeNode Handler := .mk (ascii ":item_id") (some itemsHandler) []

theorem childFor_stock : initRouter.childFor initRouter.root (ascii "stock") =
    some (.mk (ascii "stock") (some stockHandler) [stockSlotNode]) := by
  rfl

theorem childFor_items : initRouter.childFor initRouter.root (ascii "items") =
    some (.mk (ascii "items") none [itemNode]) := by
  rfl

/-- A path of two segments whose second one matches a wildcard. -/
theorem searchNode_wildcard {first : String} {child : TreeNode Handler} {name : CString}
    {payload : Option Handler}
    (hfirst : initRouter.childFor initRouter.root (ascii first) = some (.mk name payload [child]))
    (hne : ascii first ≠ []) (hslash : 47 ∉ ascii first) (hwild : child.name.headD 0 = 58)
    (x : Int32) :
    initRouter.searchNode (47 :: (ascii first ++ 47 :: formatInt x)) = child.payload := by
  have hnumber : 47 ∉ formatInt x := fun hmem => (formatInt_plain x 47 hmem).2.2 rfl
  have htok₁ : strtok 47 (47 :: (ascii first ++ 47 :: formatInt x)) =
      (some (ascii first), formatInt x) := by
    rw [strtok_delim, strtok_word hne hslash (by simp)]
    rfl
  have htok₂ : strtok 47 (formatInt x) = (some (formatInt x), []) := by
    have hlast : strtok 47 (formatInt x ++ []) = (some (formatInt x), List.drop 1 []) :=
      strtok_word (formatInt_ne_nil x) hnumber (by simp)
    simpa using hlast
  have hchild : initRouter.childFor (.mk name payload [child]) (formatInt x) = some child := by
    have hsecond : [child].find? (fun c => c.name.headD 0 = initRouter.wildcard) = some child := by
      exact List.find?_cons_of_pos (decide_eq_true hwild)
    simp only [RadixTree.childFor, TreeNode.findChild, TreeNode.children, hsecond]
    by_cases hname : child.name = formatInt x
    · simp [hname]
    · rw [List.find?_cons_of_neg (by simpa using hname), List.find?_nil]
      exact if_pos (by decide)
  rw [RadixTree.searchNode, RadixTree.search_token htok₁, hfirst, Option.bind_some,
    RadixTree.search_token htok₂, hchild, Option.bind_some, RadixTree.search_none rfl]

theorem route_of_searchNode {req : Request} (handler : Handler) {fn : HandlerFn}
    (hsearch : initRouter.searchNode req.path = some handler) (hpublic : handler.internal = false)
    (hfn : handler.fn req.method = some fn) (internal : Bool) : route req internal = .ok fn := by
  simp [route, hsearch, hpublic, hfn]

/-! ### Responses -/

def amountReply (key : String) (result : Except Int32 Answer) : Response :=
  if returned result = balanceNotFound then Balance.sendJson 404 (errorBody "user not found")
  else if returned result ≠ 0 then Balance.sendJson 500 (errorBody "internal error")
  else Balance.sendJson 200 (numberBody key (written result))

def stockReply (result : Except Int32 Answer) : Response :=
  if returned result ≠ 0 then Products.sendJson 500 (errorBody "internal error")
  else Products.sendJson 200 (stockBody (listed result))

section Actions

variable {req : Request} {key failed : String} {service : Int32 → Int32 → Service} {id x : Int32}

theorem userAction_scanned {send : ℕ → CString → Response} (hrole : req.auth.role ≠ .none)
    (hx : scanField key req.body = some x) :
    userAction send key failed service req =
      service req.auth.userId x >>= fun result => .ret (answered send failed result) := by
  rw [userAction_eq send key failed service hrole, hx]

theorem adminAction_scanned {path : String} (hrole : req.auth.role = .admin)
    (hid : scanNumber (ascii path) req.path = some id) (hx : scanField key req.body = some x) :
    adminAction path key failed service req =
      service id x >>= fun result => .ret (answered Admin.sendJson failed result) := by
  rw [adminAction_eq path key failed service hrole, hid, hx]

end Actions

theorem balanceReport_eq (req : Request) (key : String) (service : Int32 → Service)
    (hrole : req.auth.role = .user) :
    balanceReport key service req =
      service req.auth.userId >>= fun result => .ret (amountReply key result) := by
  simp only [balanceReport, hrole, reduceCtorEq, if_false, Prog.pure_eq, ← apply_ite Prog.ret]
  rfl

theorem handleGetStock_eq (rows : ℕ) (req : Request) :
    handleGetStock rows req = productsList rows >>= fun result => .ret (stockReply result) := by
  simp only [handleGetStock, Prog.pure_eq, ← apply_ite Prog.ret]
  rfl

/-! ### Agreement -/

def ApiCall.handler : ApiCall → HandlerFn
  | .getStock => .getStock
  | .getBalance => .getBalance
  | .deposit _ => .postDeposit
  | .purchase _ => .postPurchase
  | .refund => .deleteBalance
  | .restock _ _ => .postRestock
  | .setPrice _ _ => .postUpdatePrice

/-- The service call that the client means; `rows` bounds the listing. -/
def ApiCall.service (rows : ℕ) (userId : Int32) : ApiCall → ServiceCall
  | .getStock => .read (.productsList rows)
  | .getBalance => .read (.balanceGet userId)
  | .deposit amountGr => .txn (.balanceDeposit userId amountGr)
  | .purchase slotId => .txn (.ordersPurchase userId slotId)
  | .refund => .txn (.balanceReset userId)
  | .restock slotId qty => .txn (.productRestock slotId qty)
  | .setPrice itemId priceGr => .updatePrice itemId priceGr

theorem route_parsed (userId : Int32) (call : ApiCall) (internal : Bool) :
    route (call.parsed userId) internal = .ok call.handler := by
  have hbalance : initRouter.searchNode (ascii "/balance") = some balanceHandler := by
    decide
  have hstock : initRouter.searchNode (ascii "/stock") = some stockHandler := by decide
  have horders : initRouter.searchNode (ascii "/orders") = some ordersHandler := by decide
  cases call with
  | getStock => exact route_of_searchNode stockHandler hstock rfl rfl internal
  | getBalance | deposit amountGr | refund =>
    exact route_of_searchNode balanceHandler hbalance rfl rfl internal
  | purchase slotId => exact route_of_searchNode ordersHandler horders rfl rfl internal
  | restock slotId qty =>
    exact route_of_searchNode stockSlotHandler
      (searchNode_wildcard childFor_stock (by decide) (by decide) rfl slotId) rfl rfl internal
  | setPrice itemId priceGr =>
    exact route_of_searchNode itemsHandler
      (searchNode_wildcard childFor_items (by decide) (by decide) rfl itemId) rfl rfl internal

/-- The response that the handler of a call sends for the outcome of its service, the stock list as a
text of any length. -/
def ApiCall.reply : ApiCall → Except Int32 Answer → Response
  | .getStock => stockReply
  | .getBalance => amountReply "balance_gr"
  | .refund => amountReply "refund_gr"
  | .deposit _ => answered Balance.sendJson "internal error"
  | .purchase _ => answered Orders.sendJson "purchase failed"
  | .restock _ _ => answered Admin.sendJson "restock failed"
  | .setPrice _ _ => answered Admin.sendJson "update failed"

/-- The response with the buffer of the stock list; there is none where the list is printed beyond
it. -/
def ApiCall.replyIn (malloc : (n : ℕ) → Option (Vector UInt8 n)) (call : ApiCall)
    (result : Except Int32 Answer) : Option Response :=
  match call with
  | .getStock => sendStock malloc result
  | call => some (call.reply result)

/-- The handler of a call scans the numbers of the call from the request. -/
def ApiCall.ScannedFrom (req : Request) : ApiCall → Prop
  | .getStock | .getBalance | .refund => True
  | .deposit amountGr => scanField "amount_gr" req.body = some amountGr
  | .purchase slotId => scanField "slot_id" req.body = some slotId
  | .restock slotId qty =>
      scanNumber (ascii "/stock/") req.path = some slotId ∧ scanField "qty" req.body = some qty
  | .setPrice itemId priceGr =>
      scanNumber (ascii "/items/") req.path = some itemId ∧
        scanField "price_gr" req.body = some priceGr

theorem scannedFrom_parsed (userId : Int32) (call : ApiCall) :
    call.ScannedFrom (call.parsed userId) := by
  cases call with
  | getStock | getBalance | refund => trivial
  | deposit amountGr => exact scanField_numberBody _ amountGr
  | purchase slotId => exact scanField_numberBody _ slotId
  | restock slotId qty => exact ⟨scanNumber_path _ slotId, scanField_numberBody _ qty⟩
  | setPrice itemId priceGr => exact ⟨scanNumber_path _ itemId, scanField_numberBody _ priceGr⟩

theorem call_parsed (rows : ℕ) (userId : Int32) (call : ApiCall) :
    call.handler.call rows (call.parsed userId) =
      (call.service rows userId).prog >>= fun result => .ret (call.reply result) := by
  have hscanned := scannedFrom_parsed userId call
  have hauth : (call.parsed userId).auth = call.auth userId := by cases call <;> rfl
  cases call with
  | getStock => exact handleGetStock_eq rows (ApiCall.getStock.parsed userId)
  | getBalance => exact balanceReport_eq (ApiCall.getBalance.parsed userId) "balance_gr" _ rfl
  | refund => exact balanceReport_eq (ApiCall.refund.parsed userId) "refund_gr" _ rfl
  | deposit | purchase => exact userAction_scanned (by rw [hauth]; exact Role.noConfusion) hscanned
  | restock | setPrice =>
    exact adminAction_scanned (by rw [hauth]; rfl) hscanned.1 hscanned.2

theorem callIn_parsed (malloc : (n : ℕ) → Option (Vector UInt8 n)) (rows : ℕ) (userId : Int32)
    (call : ApiCall) : call.handler.callIn malloc rows (call.parsed userId) =
      (call.service rows userId).prog >>= fun result => .ret (call.replyIn malloc result) := by
  have hcall := call_parsed rows userId call
  cases call with
  | getStock => rfl
  | getBalance | deposit | purchase | refund | restock | setPrice =>
    refine (congrArg (· >>= fun response => .ret (some response)) hcall).trans ?_
    exact Prog.bind_bind _ _ _

/-- Every call of a client with a positive user id and a token that is no numeral reaches its
handler, with the credentials of the client. The handler scans the numbers of the call, calls its
service function with them and answers what that returns. -/
theorem wire_agreement (baseUrl : CString) (userId : Int32) (token : CString) (hpos : 0 < userId)
    (htoken : 1 ≤ token.length ∧ token.length ≤ 127) (hnum : ¬ IsNumeral token) (call : ApiCall)
    (m : CurlMessage (apiClientInit baseUrl userId token).baseUrl
      (call.options (apiClientInit baseUrl userId token)))
    (hsize : m.bytes.length ≤ 2047) (malloc : (n : ℕ) → Option (Vector UInt8 n)) (rows : ℕ)
    (internal : Bool) :
    ∃ req, received token [m.bytes] = some req ∧ req.auth = call.auth userId ∧
      route req internal = .ok call.handler ∧ call.ScannedFrom req ∧
      dispatchIn malloc rows req internal =
        (call.service rows userId).prog >>= fun result => .ret (call.replyIn malloc result) := by
  have hadmin : (apiClientInit baseUrl userId token).adminToken = token :=
    List.take_of_length_le htoken.2
  have hne : token ≠ [] := List.ne_nil_of_length_pos htoken.1
  have hroute := route_parsed userId call internal
  refine ⟨call.parsed userId, ?_, ?_, hroute, scannedFrom_parsed userId call, ?_⟩
  · have hreceived := received_parsed (apiClientInit baseUrl userId token)
      (Int32.lt_iff_toInt_lt.1 hpos) (by rwa [hadmin]) (by rwa [hadmin]) call m hsize
    rwa [hadmin] at hreceived
  · cases call <;> rfl
  · rw [dispatchIn, hroute]
    exact callIn_parsed malloc rows userId call

def restockOptions : CurlOptions :=
  (ApiCall.restock 11 5).options
    (apiClientInit (ascii "http://127.0.0.1:8080") 67 (ascii "admin"))

def restockHeaders : List CString :=
  [ascii "Host: 127.0.0.1:8080", ascii "Accept: */*", ascii "Authorization: Bearer admin",
    ascii "Content-Type: application/json", ascii "Content-Length: 9"]

theorem word_version : Word (ascii "HTTP/1.1") :=
  ⟨by decide +kernel, by decide +kernel, by decide +kernel⟩

theorem restockHeaders_lines : ∀ line ∈ restockHeaders, HeaderLine line := by
  intro line hline
  fin_cases hline <;>
    exact ⟨by decide, by decide, by decide, by decide⟩

theorem restockHeaders_given : ∀ line ∈ restockOptions.httpHeader, line ∈ restockHeaders := by
  decide

theorem restockHeaders_replaced :
    ∀ line ∈ restockHeaders, IsAuthorization line → line ∈ restockOptions.httpHeader := by
  intro line hline
  fin_cases hline <;> unfold IsAuthorization <;> decide

/-- A restock as libcurl may send it. -/
def restockMessage :
    CurlMessage (apiClientInit (ascii "http://127.0.0.1:8080") 67 (ascii "admin")).baseUrl
      restockOptions where
  target := ascii "/stock/11"
  version := ascii "HTTP/1.1"
  headers := restockHeaders
  url_eq := by decide
  version_word := word_version
  headers_lines := restockHeaders_lines
  given := restockHeaders_given
  replaced := restockHeaders_replaced

theorem wire_agreement_restockMessage :
    restockMessage.bytes.length ≤ 2047 ∧
      ∃ req, received (ascii "admin") [restockMessage.bytes] = some req ∧
        req.auth = ⟨.admin, 0⟩ ∧ route req false = .ok .postRestock ∧
        (scanNumber (ascii "/stock/") req.path = some 11 ∧ scanField "qty" req.body = some 5) ∧
        dispatchIn (fun _ => none) 0 req false = productRestock 11 5 >>= fun result =>
          .ret (some (answered Admin.sendJson "restock failed" result)) := by
  have hsize : restockMessage.bytes.length ≤ 2047 := by decide +kernel
  have hnum : ¬ IsNumeral (ascii "admin") := by
    rintro ⟨_, hdigits⟩
    exact absurd (hdigits 97 (by decide)) (by decide)
  exact ⟨hsize, wire_agreement (ascii "http://127.0.0.1:8080") 67 (ascii "admin") (by decide)
    (by decide) hnum (.restock 11 5) restockMessage hsize (fun _ => none) 0 false⟩

end Sshnack.Tui
