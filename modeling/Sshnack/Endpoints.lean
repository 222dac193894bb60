import Sshnack.RouteMatching
import Sshnack.Router

/-!
# The endpoint table

`init_router` registers seven routes. `Endpoint` is the table they stand for, on the segments of a
path, and `dispatch` does what the table says: it answers 404 off the table, 403 for the internal
endpoint on the public socket and 405 for a method without a function, and otherwise calls the
function.
-/

namespace Sshnack

open Routing

def apiRoutes : List (CString × Handler) :=
  [(ascii "/stock", stockHandler), (ascii "/stock/:slot_id", stockSlotHandler),
    (ascii "/balance", balanceHandler), (ascii "/orders", ordersHandler),
    (ascii "/items/:item_id", itemsHandler), (ascii "/debug/slow", debugHandler),
    (ascii "/users/lookup", userLookupHandler)]

def apiSegments : List (Route CString Handler) :=
  [([ascii "stock"], some stockHandler), ([ascii "stock", ascii ":slot_id"], some stockSlotHandler),
    ([ascii "balance"], some balanceHandler), ([ascii "orders"], some ordersHandler),
    ([ascii "items", ascii ":item_id"], some itemsHandler),
    ([ascii "debug", ascii "slow"], some debugHandler),
    ([ascii "users", ascii "lookup"], some userLookupHandler)]

/-- The endpoints by the segments of the path; `x` is any segment. -/
inductive Endpoint : List CString → Handler → Prop
  | stock : Endpoint [ascii "stock"] stockHandler
  | stockSlot (x : CString) : Endpoint [ascii "stock", x] stockSlotHandler
  | balance : Endpoint [ascii "balance"] balanceHandler
  | orders : Endpoint [ascii "orders"] ordersHandler
  | item (x : CString) : Endpoint [ascii "items", x] itemsHandler
  | debug : Endpoint [ascii "debug", ascii "slow"] debugHandler
  | userLookup : Endpoint [ascii "users", ascii "lookup"] userLookupHandler

def notFound : Response := literalResponse "HTTP/1.1 404 Not Found\r\nContent-Length: 0\r\n\r\n"

def forbidden : Response := literalResponse "HTTP/1.1 403 Forbidden\r\nContent-Length: 0\r\n\r\n"

def methodNotAllowed : Response :=
  literalResponse "HTTP/1.1 405 Method Not Allowed\r\nContent-Length: 0\r\n\r\n"

theorem initRouter_eq : initRouter = registered 47 58 (payloadCalls apiRoutes) := rfl

theorem routesOf_apiRoutes : routesOf 47 (payloadCalls apiRoutes) = apiSegments := by
  decide

theorem searchNode_initRouter (path : CString) : initRouter.searchNode path =
    walk (isWild 58) apiSegments [] (segments 47 path) := by
  rw [initRouter_eq, searchNode_eq_walk (by decide), routesOf_apiRoutes]

/-- A registered route matches only paths of its endpoint. -/
theorem endpoint_of_matches {route path : List CString} {h : Handler}
    (hroute : (route, some h) ∈ apiSegments) (hmatches : Matches (isWild 58) route path) :
    Endpoint path h := by
  simp only [apiSegments, List.mem_cons, Prod.mk.injEq, Option.some.injEq, List.not_mem_nil,
    or_false] at hroute
  rcases hroute with ⟨rfl, rfl⟩ | ⟨rfl, rfl⟩ | ⟨rfl, rfl⟩ | ⟨rfl, rfl⟩ | ⟨rfl, rfl⟩ | ⟨rfl, rfl⟩ |
    ⟨rfl, rfl⟩
  · obtain ⟨path, rfl, hrest⟩ := hmatches.literal (by decide)
    cases hrest
    exact .stock
  · obtain ⟨path, rfl, hrest⟩ := hmatches.literal (by decide)
    obtain ⟨x, rest, rfl, hnil⟩ := hrest.uncons
    cases hnil
    exact .stockSlot x
  · obtain ⟨path, rfl, hrest⟩ := hmatches.literal (by decide)
    cases hrest
    exact .balance
  · obtain ⟨path, rfl, hrest⟩ := hmatches.literal (by decide)
    cases hrest
    exact .orders
  · obtain ⟨path, rfl, hrest⟩ := hmatches.literal (by decide)
    obtain ⟨x, rest, rfl, hnil⟩ := hrest.uncons
    cases hnil
    exact .item x
  · obtain ⟨path, rfl, hrest⟩ := hmatches.literal (by decide)
    obtain ⟨rest, rfl, hnil⟩ := hrest.literal (by decide)
    cases hnil
    exact .debug
  · obtain ⟨path, rfl, hrest⟩ := hmatches.literal (by decide)
    obtain ⟨rest, rfl, hnil⟩ := hrest.literal (by decide)
    cases hnil
    exact .userLookup

/-- A second segment that only a wildcard can take. -/
theorem walk_wildcard {first : CString} (name : CString) {h : Handler}
    (hfirst : choice (isWild 58) apiSegments [] first = some first)
    (hnexts : nexts apiSegments [first] = [name]) (hwild : isWild 58 name = true)
    (hpayload : payloadAt apiSegments [first, name] = some h) (x : CString) :
    walk (isWild 58) apiSegments [] [first, x] = some h := by
  rw [walk_cons, hfirst, Option.bind_some, List.nil_append, walk_cons,
    choice_eq_of_single hnexts hwild x, Option.bind_some]
  exact hpayload

theorem walk_of_endpoint {path : List CString} {h : Handler} (hpath : Endpoint path h) :
    walk (isWild 58) apiSegments [] path = some h := by
  cases hpath with
  | stock => decide
  | stockSlot x =>
    exact walk_wildcard (ascii ":slot_id") (by decide) (by decide)
      (by decide) (by decide) x
  | balance => decide
  | orders => decide
  | item x =>
    exact walk_wildcard (ascii ":item_id") (by decide) (by decide)
      (by decide) (by decide) x
  | debug => decide
  | userLookup => decide

theorem searchNode_iff_endpoint {path : CString} {h : Handler} :
    initRouter.searchNode path = some h ↔ Endpoint (segments 47 path) h := by
  rw [searchNode_initRouter]
  constructor
  · intro hwalk
    obtain ⟨route, hchosen, hpayload⟩ := exists_chosen hwalk
    exact endpoint_of_matches (payloadAt_eq_some hpayload) hchosen.matches
  · exact walk_of_endpoint

theorem Endpoint.internal_iff {path : List CString} {h : Handler} (hpath : Endpoint path h) :
    h.internal = true ↔ path = [ascii "users", ascii "lookup"] := by
  cases hpath with
  | stock => decide
  | stockSlot x => simp [stockSlotHandler, show ascii "stock" ≠ ascii "users" by decide]
  | balance => decide
  | orders => decide
  | item x => simp [itemsHandler, show ascii "items" ≠ ascii "users" by decide]
  | debug => decide
  | userLookup => decide

theorem Endpoint.unique {path : List CString} {h h' : Handler} (hpath : Endpoint path h)
    (hpath' : Endpoint path h') : h' = h :=
  Option.some.inj ((walk_of_endpoint hpath').symm.trans (walk_of_endpoint hpath))

section Dispatch

variable {req : Request} {internal : Bool}

theorem route_off_table (hpath : ¬ ∃ h, Endpoint (segments 47 req.path) h) :
    route req internal = .error notFound := by
  have hnone : initRouter.searchNode req.path = none := by
    cases hsearch : initRouter.searchNode req.path with
    | none => rfl
    | some h => exact absurd ⟨h, searchNode_iff_endpoint.1 hsearch⟩ hpath
  rw [route, hnone]
  rfl

theorem route_on_table {h : Handler} (hpath : Endpoint (segments 47 req.path) h) :
    route req internal =
      if h.internal ∧ ¬ internal then .error forbidden
      else match h.fn req.method with
        | none => .error methodNotAllowed
        | some fn => .ok fn := by
  rw [route, searchNode_iff_endpoint.2 hpath]
  rfl

theorem endpoint_of_route {fn : HandlerFn} (hroute : route req internal = .ok fn) :
    ∃ h, Endpoint (segments 47 req.path) h ∧ h.fn req.method = some fn := by
  by_cases htable : ∃ h, Endpoint (segments 47 req.path) h
  · obtain ⟨h, hpath⟩ := htable
    rw [route_on_table hpath] at hroute
    split_ifs at hroute with hhidden
    cases hm : h.fn req.method with
    | none =>
      rw [hm] at hroute
      cases hroute
    | some fn' =>
      rw [hm] at hroute
      rw [Except.ok.inj hroute] at hm
      exact ⟨h, hpath, hm⟩
  · rw [route_off_table htable] at hroute
    cases hroute

theorem segments_of_route_postRestock (hroute : route req internal = .ok .postRestock) :
    ∃ x, segments 47 req.path = [ascii "stock", x] := by
  obtain ⟨h, hpath, hfn⟩ := endpoint_of_route hroute
  generalize segments 47 req.path = words at hpath ⊢
  generalize req.method = m at hfn
  cases hpath with
  | stockSlot x => exact ⟨x, rfl⟩
  | stock | balance | orders | item x | debug | userLookup =>
    rcases m with _ | m
    · cases hfn
    · cases m <;> cases hfn

theorem segments_of_route_postUpdatePrice (hroute : route req internal = .ok .postUpdatePrice) :
    ∃ x, segments 47 req.path = [ascii "items", x] := by
  obtain ⟨h, hpath, hfn⟩ := endpoint_of_route hroute
  generalize segments 47 req.path = words at hpath ⊢
  generalize req.method = m at hfn
  cases hpath with
  | item x => exact ⟨x, rfl⟩
  | stock | stockSlot x | balance | orders | debug | userLookup =>
    rcases m with _ | m
    · cases hfn
    · cases m <;> cases hfn

end Dispatch

/-- For every path, method and socket, `route` decides by the table of endpoints, in the order 404,
403, 405, and `dispatch` sends that answer or runs that one function. -/
theorem dispatch_endpoints (rows : ℕ) (m : Method) (path body : CString) (auth : Auth)
    (internal : Bool) :
    let req : Request := ⟨some m, path, body, auth⟩
    let words := segments 47 path
    let hidden := words = [ascii "users", ascii "lookup"] ∧ internal = false
    (route req internal = .error notFound ↔ ¬ ∃ h, Endpoint words h) ∧
    (route req internal = .error forbidden ↔ hidden) ∧
    (route req internal = .error methodNotAllowed ↔
      ¬ hidden ∧ ∃ h, Endpoint words h ∧ h.fn (some m) = none) ∧
    (∀ fn, route req internal = .ok fn ↔
      ¬ hidden ∧ ∃ h, Endpoint words h ∧ h.fn (some m) = some fn) ∧
    dispatch rows req internal =
      match route req internal with
      | .error response => return response
      | .ok fn => fn.call rows req := by
  intro req words hidden
  have h404 : notFound ≠ forbidden := by decide +kernel
  have h403 : forbidden ≠ methodNotAllowed := by decide
  have h405 : notFound ≠ methodNotAllowed := by decide
  by_cases htable : ∃ h, Endpoint words h
  · obtain ⟨h, hpath⟩ := htable
    have hroute : route req internal = _ := route_on_table hpath
    have hhidden : (h.internal = true ∧ ¬ internal = true) ↔ hidden := by
      rw [hpath.internal_iff, Bool.not_eq_true]
    have hfn (o : Option HandlerFn) :
        (∃ h', Endpoint words h' ∧ h'.fn (some m) = o) ↔ h.fn (some m) = o := by
      constructor
      · rintro ⟨h', hpath', ho⟩
        rwa [← hpath.unique hpath']
      · exact fun ho => ⟨h, hpath, ho⟩
    have hon : ∃ h, Endpoint words h := ⟨h, hpath⟩
    by_cases hid : hidden
    · rw [if_pos (hhidden.2 hid)] at hroute
      refine ⟨?_, ?_, ?_, fun fn => ?_, rfl⟩ <;> rw [hroute] <;>
        simp [hon, hid, h404.symm, h403]
    · rw [if_neg (mt hhidden.1 hid)] at hroute
      have hmethod : req.method = some m := rfl
      cases hm : h.fn (some m) with
      | none =>
        rw [hmethod, hm] at hroute
        refine ⟨?_, ?_, ?_, fun fn => ?_, rfl⟩ <;> rw [hroute] <;>
          simp [hon, hid, hfn, hm, h405.symm, h403.symm]
      | some fn' =>
        rw [hmethod, hm] at hroute
        refine ⟨?_, ?_, ?_, fun fn => ?_, rfl⟩ <;> rw [hroute] <;> simp [hon, hid, hfn, hm]
  · have hroute : route req internal = .error notFound := route_off_table htable
    have hshown : ¬ hidden := by
      rintro ⟨hwords, _⟩
      apply htable
      rw [hwords]
      exact ⟨userLookupHandler, .userLookup⟩
    have hnone (o : Option HandlerFn) : ¬ ∃ h, Endpoint words h ∧ h.fn (some m) = o :=
      fun ⟨h, hpath, _⟩ => htable ⟨h, hpath⟩
    refine ⟨?_, ?_, ?_, fun fn => ?_, rfl⟩ <;> rw [hroute] <;>
      simp [htable, hshown, hnone, h404, h405]

end Sshnack
