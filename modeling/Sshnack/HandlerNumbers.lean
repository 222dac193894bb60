import Sshnack.Endpoints
import Sshnack.JsonNumbers
import Sshnack.Seed

/-!
# The numbers that the handlers act on

The path of an admin action is read twice, by segments in the route tree and with the format
`/stock/%d` in the handler, and the body is read with the format `{"qty":%d}`. Both formats end with
their conversion, since a mismatch behind it does not change the count that `sscanf` returns. So a
handler acts on exactly the numbers sent if nothing but the end of the segment and of the object
follows them and they fit an int.
-/

namespace Sshnack

open Txn

/-- The answer of a handler that has called its service function. -/
def answered (send : ℕ → CString → Response) (failed : String) (result : Except Int32 Answer) :
    Response :=
  if returned result ≠ 0 then send 500 (errorBody failed) else send 200 okBody

/-- Every run answers 400 and leaves the connection as it was. -/
def Rejects (send : ℕ → CString → Response) (p : Prog Stmt Row Response) : Prop :=
  ∃ message, ∀ flt k, p.run Stmt.perform flt k = (send 400 (errorBody message), k)

/-- The handler makes one of the service calls that `Sent` admits, or rejects the request. -/
def ActsExactly (send : ℕ → CString → Response) (failed : String) (Sent : Service → Prop)
    (p : Prog Stmt Row Response) : Prop :=
  (∃ service, Sent service ∧ p = service >>= fun result => .ret (answered send failed result)) ∨
    Rejects send p

/-- The id is denoted by the whole segment behind `first`, and the body is the object with `x`. -/
def SentToAdmin (first : CString) (key : String) (service : Int32 → Int32 → Service) (req : Request)
    (called : Service) : Prop :=
  ∃ segment, ∃ id x : Int32, segments 47 req.path = [first, segment] ∧ Denotes segment id.toInt ∧
    JsonObject (ascii key) x.toInt req.body ∧ called = service id x

/-- The body is the object with `x`. -/
def SentByUser (key : String) (service : Int32 → Int32 → Service) (req : Request)
    (called : Service) : Prop :=
  ∃ x : Int32, JsonObject (ascii key) x.toInt req.body ∧ called = service req.auth.userId x

/-- The id stands directly behind `/<first>/`, and only slashes follow it. -/
def PlainPath (first : CString) (n : ℤ) (path : CString) : Prop :=
  ∃ s k, Denotes s n ∧ path = 47 :: (first ++ 47 :: (s ++ List.replicate k 47))

/-- If a number stands where the format looks for it in the body, then it is an int and the only thing
in the object. -/
def PlainBody (key : String) (req : Request) : Prop :=
  (scanField key req.body).isSome → ∃ x : Int32, PlainField (ascii key) x.toInt req.body

/-- If numbers stand where the formats look for them, then they are ints, the id is the whole segment
and the other number is the only thing in the object. -/
def PlainAction (first key : String) (req : Request) : Prop :=
  (scanNumber (ascii ("/" ++ first ++ "/")) req.path).isSome → (scanField key req.body).isSome →
    (∃ id : Int32, PlainPath (ascii first) id.toInt req.path) ∧
      ∃ x : Int32, PlainField (ascii key) x.toInt req.body

/-! ### Status codes -/

/-- The status code of a response. -/
def Response.code (r : Response) : CString := (r.text.drop 9).take 3

theorem code_sendJson (size : ℕ) (statusStrs : List (ℕ × String)) (status : ℕ) (body : CString)
    (h : 3 ≤ (ascii ((statusStrs.lookup status).getD "500 Internal Server Error")).length) :
    (sendJson size statusStrs status body).code =
      (ascii ((statusStrs.lookup status).getD "500 Internal Server Error")).take 3 := by
  have hline : (ascii "HTTP/1.1 ").length = 9 := by decide
  simp only [Response.code, sendJson, List.append_assoc]
  rw [← hline, List.drop_left, List.take_append_of_le_length h]

/-- A sender that knows the status codes 200, 400 and 500. -/
structure Sender (send : ℕ → CString → Response) : Prop where
  ok : ∀ body, (send 200 body).code = ascii "200"
  badRequest : ∀ body, (send 400 body).code = ascii "400"
  failed : ∀ body, (send 500 body).code = ascii "500"

theorem sender_sendJson (size : ℕ) {statusStrs : List (ℕ × String)}
    (hok : statusStrs.lookup 200 = some "200 OK")
    (hbad : statusStrs.lookup 400 = some "400 Bad Request") (hfailed : statusStrs.lookup 500 = none) :
    Sender (sendJson size statusStrs) where
  ok body := by
    rw [code_sendJson _ _ _ _ (by rw [hok]; decide), hok]
    decide
  badRequest body := by
    rw [code_sendJson _ _ _ _ (by rw [hbad]; decide), hbad]
    decide
  failed body := by
    rw [code_sendJson _ _ _ _ (by rw [hfailed]; decide), hfailed]
    decide

theorem sender_admin : Sender Admin.sendJson := sender_sendJson 512 rfl rfl rfl

theorem sender_balance : Sender Balance.sendJson := sender_sendJson 512 rfl rfl rfl

theorem sender_orders : Sender Orders.sendJson := sender_sendJson 512 rfl rfl rfl

section Actions

variable {send : ℕ → CString → Response} {failed : String}

theorem Sender.not_rejects (hsend : Sender send) (service : Service) :
    ¬ Rejects send (service >>= fun result => .ret (answered send failed result)) := by
  rintro ⟨message, hrun⟩
  have hcode := congrArg (fun r => r.1.code) (hrun (fun _ => false) ⟨seed, none⟩)
  simp only [Prog.run_bind, hsend.badRequest, answered] at hcode
  split_ifs at hcode with hzero
  · rw [hsend.failed] at hcode
    exact absurd hcode (by decide)
  · rw [hsend.ok] at hcode
    exact absurd hcode (by decide)

theorem rejects_ret (message : String) : Rejects send (.ret (send 400 (errorBody message))) :=
  ⟨message, fun _ _ => rfl⟩

/-! ### The four handlers -/

theorem userAction_eq (send : ℕ → CString → Response) (key failed : String)
    (service : Int32 → Int32 → Service) {req : Request} (hrole : req.auth.role ≠ .none) :
    userAction send key failed service req =
      match scanField key req.body with
      | none => .ret (send 400 (errorBody ("missing " ++ key)))
      | some x => service req.auth.userId x >>= fun result => .ret (answered send failed result) := by
  unfold userAction
  rw [if_neg hrole]
  cases scanField key req.body with
  | none => rfl
  | some x => simp only [Prog.pure_eq, ← apply_ite Prog.ret, answered]

theorem adminAction_eq (path key failed : String) (service : Int32 → Int32 → Service)
    {req : Request} (hrole : req.auth.role = .admin) :
    adminAction path key failed service req =
      match scanNumber (ascii path) req.path, scanField key req.body with
      | none, _ => .ret (Admin.sendJson 400 (errorBody "invalid path"))
      | some _, none => .ret (Admin.sendJson 400 (errorBody ("missing " ++ key)))
      | some id, some x =>
          service id x >>= fun result => .ret (answered Admin.sendJson failed result) := by
  unfold adminAction
  rw [if_neg (not_not_intro hrole)]
  cases scanNumber (ascii path) req.path with
  | none => rfl
  | some id =>
    cases scanField key req.body with
    | none => rfl
    | some x => simp only [Prog.pure_eq, ← apply_ite Prog.ret, answered]

theorem userAction_exact_iff (hsend : Sender send) (key : String)
    (service : Int32 → Int32 → Service) {req : Request} (hrole : req.auth.role ≠ .none) :
    ActsExactly send failed (SentByUser key service req) (userAction send key failed service req) ↔
      PlainBody key req := by
  rw [userAction_eq send key failed service hrole]
  cases hscan : scanField key req.body with
  | none =>
    refine iff_of_true (.inr (rejects_ret _)) fun h => ?_
    rw [hscan] at h
    cases h
  | some x =>
    constructor
    · rintro (⟨_, ⟨y, hbody, -⟩, -⟩ | hrejects) hsome
      · exact ⟨y, hbody.plainField hsome⟩
      · exact absurd hrejects (hsend.not_rejects _)
    · intro h
      obtain ⟨y, hbody⟩ := h (by rw [hscan]; rfl)
      obtain rfl : x = y := Option.some.inj (hscan.symm.trans hbody.scanField)
      exact .inl ⟨_, ⟨x, hbody.jsonObject, rfl⟩, rfl⟩

end Actions

/-! ### Paths -/

section Paths

variable {first : String} {path segment : CString} {n : ℤ}

theorem pathLiteral (first : String) (t : CString) :
    ascii ("/" ++ first ++ "/") ++ t = 47 :: (ascii first ++ 47 :: t) := by
  have hslash : ascii "/" = [47] := by decide
  simp [ascii_append, hslash]

theorem Denotes.word (h : Denotes segment n) : segment ≠ [] ∧ 47 ∉ segment := by
  obtain ⟨v, m, ⟨hne, hdigits, -⟩, hs⟩ := h
  have hv : 47 ∉ v := fun hmem => absurd (hdigits 47 hmem) (by decide)
  rcases hs with ⟨rfl, -⟩ | ⟨rfl, -⟩ | ⟨rfl, -⟩
  · exact ⟨hne, hv⟩
  · exact ⟨List.cons_ne_nil _ _, by simp [hv]⟩
  · exact ⟨List.cons_ne_nil _ _, by simp [hv]⟩

section Segment

variable (hfirst : segments 47 (ascii first) = [ascii first])
include hfirst

theorem segments_pathLiteral (t : CString) :
    segments 47 (47 :: (ascii first ++ 47 :: t)) = ascii first :: segments 47 t := by
  rw [segments_delim, segments_append, hfirst]
  rfl

theorem segments_plainPath {k : ℕ} (h : Denotes segment n) :
    segments 47 (47 :: (ascii first ++ 47 :: (segment ++ List.replicate k 47))) =
      [ascii first, segment] := by
  rw [segments_pathLiteral hfirst, segments_append_replicate, segments_word h.word.1 h.word.2]

/-- A routed path in which the format finds its number starts with the literal and the segment. -/
theorem PlainPath.of_segment (hpath : segments 47 path = [ascii first, segment])
    (hscan : (scanNumber (ascii ("/" ++ first ++ "/")) path).isSome) (h : Denotes segment n) :
    PlainPath (ascii first) n path := by
  obtain ⟨t, rfl, ht⟩ := exists_of_scanNumber hscan
  rw [pathLiteral] at hpath ⊢
  rw [segments_pathLiteral hfirst] at hpath
  have hhead : t.head? ≠ some 47 := by
    intro hhead
    obtain ⟨t, rfl⟩ := List.head?_eq_some_iff.1 hhead
    rw [scanInt_slash] at ht
    cases ht
  obtain ⟨k, rfl⟩ := eq_append_of_segments (List.cons.inj hpath).2 hhead
  exact ⟨segment, k, h, rfl⟩

end Segment

theorem PlainPath.scanNumber {x : Int32} (h : PlainPath (ascii first) x.toInt path) :
    scanNumber (ascii ("/" ++ first ++ "/")) path = some x := by
  obtain ⟨s, k, hs, rfl⟩ := h
  have hrest : ∀ c ∈ (List.replicate k (47 : UInt8)).head?, isDigit c = false := by
    intro c hc
    rw [List.eq_of_mem_replicate (List.mem_of_head? hc)]
    rfl
  rw [← pathLiteral, scanNumber_append, scanInt_denotes hs hrest]

theorem PlainPath.exists_segment (hfirst : segments 47 (ascii first) = [ascii first])
    (h : PlainPath (ascii first) n path) :
    ∃ segment, segments 47 path = [ascii first, segment] ∧ Denotes segment n := by
  obtain ⟨s, k, hs, rfl⟩ := h
  exact ⟨s, segments_plainPath hfirst hs, hs⟩

end Paths

theorem adminAction_exact_iff {first : String} (hfirst : segments 47 (ascii first) = [ascii first])
    (key failed : String) (service : Int32 → Int32 → Service) {req : Request}
    (hrole : req.auth.role = .admin) :
    ActsExactly Admin.sendJson failed (SentToAdmin (ascii first) key service req)
        (adminAction ("/" ++ first ++ "/") key failed service req) ↔ PlainAction first key req := by
  rw [adminAction_eq _ key failed service hrole]
  cases hid : scanNumber (ascii ("/" ++ first ++ "/")) req.path with
  | none =>
    refine iff_of_true (.inr (rejects_ret _)) fun h => ?_
    rw [hid] at h
    cases h
  | some id =>
    cases hx : scanField key req.body with
    | none =>
      refine iff_of_true (.inr (rejects_ret _)) fun _ h => ?_
      rw [hx] at h
      cases h
    | some x =>
      constructor
      · rintro (⟨_, ⟨segment, id', x', hpath, hsegment, hbody, -⟩, -⟩ | hrejects) hid hx
        · exact ⟨⟨id', .of_segment hfirst hpath hid hsegment⟩, x', hbody.plainField hx⟩
        · exact absurd hrejects (sender_admin.not_rejects _)
      · intro h
        obtain ⟨⟨id', hpath⟩, x', hbody⟩ := h (by rw [hid]; rfl) (by rw [hx]; rfl)
        obtain rfl : id = id' := Option.some.inj (hid.symm.trans hpath.scanNumber)
        obtain rfl : x = x' := Option.some.inj (hx.symm.trans hbody.scanField)
        obtain ⟨segment, hsegments, hsegment⟩ := hpath.exists_segment hfirst
        exact .inl ⟨_, ⟨segment, id, x, hsegments, hsegment, hbody.jsonObject, rfl⟩, rfl⟩

theorem handlePostRestock_exact_iff {req : Request} (hrole : req.auth.role = .admin) :
    ActsExactly Admin.sendJson "restock failed" (SentToAdmin (ascii "stock") "qty" productRestock req)
      (handlePostRestock req) ↔ PlainAction "stock" "qty" req :=
  adminAction_exact_iff (by decide) "qty" "restock failed" productRestock hrole

/-- The router hands an admin action a path with one segment for the id; and each handler, called
with valid credentials, acts on exactly the numbers sent or answers 400 if and only if the numbers
that it reads stand alone and fit. -/
theorem handlers_exact_iff (req : Request) :
    (∀ internal, route req internal = .ok .postRestock →
      ∃ segment, segments 47 req.path = [ascii "stock", segment]) ∧
    (∀ internal, route req internal = .ok .postUpdatePrice →
      ∃ segment, segments 47 req.path = [ascii "items", segment]) ∧
    (req.auth.role = .admin →
      (ActsExactly Admin.sendJson "restock failed"
          (SentToAdmin (ascii "stock") "qty" productRestock req) (handlePostRestock req) ↔
        PlainAction "stock" "qty" req) ∧
      (ActsExactly Admin.sendJson "update failed"
          (SentToAdmin (ascii "items") "price_gr" productUpdatePrice req)
          (handlePostUpdatePrice req) ↔
        PlainAction "items" "price_gr" req)) ∧
    (req.auth.role ≠ .none →
      (ActsExactly Balance.sendJson "internal error" (SentByUser "amount_gr" balanceDeposit req)
          (handlePostDeposit req) ↔ PlainBody "amount_gr" req) ∧
      (ActsExactly Orders.sendJson "purchase failed" (SentByUser "slot_id" ordersPurchase req)
          (handlePostPurchase req) ↔ PlainBody "slot_id" req)) := by
  refine ⟨fun _ => segments_of_route_postRestock, fun _ => segments_of_route_postUpdatePrice,
    fun hrole => ⟨handlePostRestock_exact_iff hrole, ?_⟩, fun hrole => ⟨?_, ?_⟩⟩
  · exact adminAction_exact_iff (by decide) "price_gr" "update failed" productUpdatePrice hrole
  · exact userAction_exact_iff sender_balance "amount_gr" balanceDeposit hrole
  · exact userAction_exact_iff sender_orders "slot_id" ordersPurchase hrole

/-- The path goes on behind the number. -/
def suffixedRestock : Request :=
  ⟨some .patch, ascii "/stock/11abc", ascii "\x7b\"qty\":5\x7d", ⟨.admin, 0⟩⟩

/-- It restocks slot 11. -/
theorem handlers_not_exact : ¬ ∀ (req : Request) (internal : Bool),
    route req internal = .ok .postRestock → req.auth.role = .admin →
    ActsExactly Admin.sendJson "restock failed"
      (SentToAdmin (ascii "stock") "qty" productRestock req) (handlePostRestock req) := by
  intro h
  have hplain := (handlePostRestock_exact_iff rfl).1
    (h suffixedRestock false (by decide) (by decide))
  obtain ⟨⟨id, hpath⟩, -⟩ := hplain (by decide) (by decide)
  obtain ⟨segment, hsegments, v, m, ⟨-, hdigits, -⟩, hs⟩ := hpath.exists_segment (by decide)
  have hsegment : segments 47 suffixedRestock.path = [ascii "stock", [49, 49, 97, 98, 99]] := by
    decide
  obtain rfl : [49, 49, 97, 98, 99] = segment := by simpa using hsegment.symm.trans hsegments
  rcases hs with ⟨rfl, -⟩ | ⟨hplus, -⟩ | ⟨hminus, -⟩
  · exact absurd (hdigits 97 (by decide)) (by decide)
  · exact absurd (List.cons.inj hplus).1 (by decide)
  · exact absurd (List.cons.inj hminus).1 (by decide)

end Sshnack
