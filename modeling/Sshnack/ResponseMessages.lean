import Sshnack.HttpMessages
import Sshnack.Endpoints
import Sshnack.StockBuffers
import Sshnack.Seed

/-!
# The answers of the server as messages

Whatever bytes a client sends and whatever fails in SQLite, the answer is one response whose declared
length is the length of its body, unless a product list is printed beyond the end of its buffer. It is
sent whole, except for a product list that does not fit the buffer of its message.
-/

namespace Sshnack

open Txn

/-- The text of the response is a message with this status and this body. -/
def Response.Carries (r : Response) (status : ℕ) (body : CString) : Prop :=
  ∃ m : Http.Message, r.text = m.text ∧ m.status = status ∧ m.body = body

/-- The status codes of the server. -/
def answerCodes : List ℕ := [200, 400, 401, 403, 404, 405, 500]

/-! ### `send_json` -/

/-- The name and the value of a header field. -/
structure FieldText (name value : CString) : Prop where
  name_nonempty : name ≠ []
  name_closed : 58 ∉ name
  name_inline : Http.Inline name
  value_inline : Http.Inline value
  value_trimmed : ∀ c ∈ value.head?, Http.isBlank c = false

def field {name value : CString} (h : FieldText name value) : Http.Field where
  name := name
  value := value
  name_nonempty := h.name_nonempty
  name_closed := h.name_closed
  name_inline := h.name_inline
  value_inline := h.value_inline
  value_trimmed := h.value_trimmed

theorem fieldText_json : FieldText (ascii "Content-Type") (ascii "application/json") :=
  ⟨by decide, by decide, by decide, by decide, fun c hc => by cases hc; decide⟩

theorem fieldText_length (n : ℕ) : FieldText (ascii "Content-Length") (Http.digits n) := by
  have hdigit : ∀ c ∈ Http.digits n, Http.isDigit c = true := by
    intro c hc
    obtain ⟨d, hd, rfl⟩ := List.mem_map.1 hc
    exact (Http.toDigits_byte hd).1
  refine ⟨by decide, by decide, by decide, ⟨fun hmem => ?_, fun hmem => ?_⟩, fun c hc => ?_⟩
  · exact absurd (hdigit 13 hmem) (by decide)
  · exact absurd (hdigit 10 hmem) (by decide)
  · have hrange := hdigit c (List.mem_of_mem_head? hc)
    by_contra hblank
    rw [Bool.not_eq_false, Http.isBlank, Bool.or_eq_true, decide_eq_true_iff,
      decide_eq_true_iff] at hblank
    rcases hblank with rfl | rfl <;> exact absurd hrange (by decide)

theorem contentLength_json (n : ℕ) :
    Http.contentLength ([field fieldText_json, field (fieldText_length n)].map fun f =>
      (f.name, f.value)) = some n := by
  have htype : (ascii "Content-Type").map Http.lower ≠ Http.lengthName := by decide
  have hlength : (ascii "Content-Length").map Http.lower = Http.lengthName := by decide
  change Http.contentLength [(ascii "Content-Type", ascii "application/json"),
    (ascii "Content-Length", Http.digits n)] = some n
  rw [Http.contentLength, List.find?_cons_of_neg (by simpa using htype),
    List.find?_cons_of_pos (by simpa using hlength), Option.bind_some, Http.readNumber_digits]

theorem uncoded_json (n : ℕ) : ∀ f ∈ [field fieldText_json, field (fieldText_length n)],
    f.name.map Http.lower ≠ Http.codingName := by
  have htype : (ascii "Content-Type").map Http.lower ≠ Http.codingName := by decide
  have hlength : (ascii "Content-Length").map Http.lower ≠ Http.codingName := by decide
  exact List.forall_mem_cons.2 ⟨htype, List.forall_mem_singleton.2 hlength⟩

/-- A status text of the form `<code> <reason>`. -/
structure StatusText (code : ℕ) (text : String) : Prop where
  three_digits : 100 ≤ code ∧ code < 1000
  code_first : (ascii text).take 4 = Http.digits code ++ [32]
  inline : Http.Inline ((ascii text).drop 4)

def jsonMessage {code : ℕ} {text : String} (h : StatusText code text) (body : CString) :
    Http.Message where
  status := code
  reason := (ascii text).drop 4
  fields := [field fieldText_json, field (fieldText_length body.length)]
  body := body
  three_digits := h.three_digits
  reason_inline := h.inline
  length_declared := contentLength_json body.length
  uncoded := uncoded_json body.length

theorem jsonMessage_text {code : ℕ} {text : String} (h : StatusText code text) (body : CString) :
    (jsonMessage h body).text = ascii "HTTP/1.1 " ++ ascii text ++
      ascii "\r\nContent-Type: application/json\r\nContent-Length: " ++
      ascii (toString body.length) ++ ascii "\r\n\r\n" ++ body := by
  have hsplit : ascii text = Http.digits code ++ 32 :: (ascii text).drop 4 := by
    conv_lhs => rw [← List.take_append_drop 4 (ascii text), h.code_first]
    simp
  have hversion : ascii "HTTP/1.1 " = Http.versionText ++ [32] := by decide
  have hfields : ascii "\r\nContent-Type: application/json\r\nContent-Length: " =
      Http.lineEnd ++ (ascii "Content-Type" ++ 58 :: 32 :: (ascii "application/json" ++
        (Http.lineEnd ++ (ascii "Content-Length" ++ [58, 32])))) := by decide
  have hblank : ascii "\r\n\r\n" = Http.lineEnd ++ Http.lineEnd := by decide
  have hdigits : ascii (toString body.length) = Http.digits body.length := ascii_toString _
  rw [hversion, hsplit, hfields, hblank, hdigits]
  simp [Http.Message.text, Http.Message.statusLine, jsonMessage, Http.Field.line, field]

/-- The status that `send_json` sends: an unknown one becomes 500. -/
def sentStatus (statusStrs : List (ℕ × String)) (status : ℕ) : ℕ :=
  if (statusStrs.lookup status).isSome then status else 500

structure StatusTexts (statusStrs : List (ℕ × String)) : Prop where
  texts : ∀ p ∈ statusStrs, StatusText p.1 p.2
  codes : ∀ p ∈ statusStrs, p.1 ∈ answerCodes
  short : ∀ p ∈ statusStrs, (ascii p.2).length ≤ 25

theorem mem_of_lookup {α : Type} {l : List (ℕ × α)} {k : ℕ} {x : α} (h : l.lookup k = some x) :
    (k, x) ∈ l := by
  obtain ⟨l₁, l₂, rfl, -⟩ := List.lookup_eq_some_iff.1 h
  exact List.mem_append_right _ List.mem_cons_self

variable {statusStrs : List (ℕ × String)}

theorem statusText_internal : StatusText 500 "500 Internal Server Error" :=
  ⟨by decide, by decide, by decide⟩

theorem StatusTexts.sent (h : StatusTexts statusStrs) (status : ℕ) :
    StatusText (sentStatus statusStrs status)
        ((statusStrs.lookup status).getD "500 Internal Server Error") ∧
      sentStatus statusStrs status ∈ answerCodes ∧
      (ascii ((statusStrs.lookup status).getD "500 Internal Server Error")).length ≤ 25 := by
  unfold sentStatus
  cases hlookup : statusStrs.lookup status with
  | none =>
    have hcode : 500 ∈ answerCodes := by decide
    exact ⟨statusText_internal, hcode, by decide⟩
  | some text =>
    have hmem := mem_of_lookup hlookup
    exact ⟨h.texts _ hmem, h.codes _ hmem, h.short _ hmem⟩

theorem carries_sendJson (h : StatusTexts statusStrs) (size status : ℕ) (body : CString) :
    (sendJson size statusStrs status body).Carries (sentStatus statusStrs status) body :=
  ⟨jsonMessage (h.sent status).1 body, (jsonMessage_text _ body).symm, rfl, rfl⟩

theorem sent_of_length {r : Response} (h : r.text.length < r.size) : r.sent = some r.text := by
  have hfit : r.text.take (r.size - 1) = r.text := List.take_of_length_le (by omega)
  rw [Response.sent, if_pos h.le, snprintf, hfit, List.take_left]

/-- A message with a short body fits every buffer of the server. -/
theorem sent_sendJson (h : StatusTexts statusStrs) {size : ℕ} (hsize : 512 ≤ size) (status : ℕ)
    {body : CString} (hbody : body.length ≤ 100) :
    (sendJson size statusStrs status body).sent =
      some (sendJson size statusStrs status body).text := by
  apply sent_of_length
  have hline : (ascii "HTTP/1.1 ").length = 9 := by decide
  have hheads : (ascii "\r\nContent-Type: application/json\r\nContent-Length: ").length = 50 := by
    decide
  have hblank : (ascii "\r\n\r\n").length = 4 := by decide
  have hstatus := (h.sent status).2.2
  have hdigits : (decimal body.length).length ≤ 3 := decimal_length (by decide) (by omega)
  simp only [sendJson, List.length_append, ascii_toString]
  omega

/-- A `send_json` function of the server. -/
structure JsonSender (send : ℕ → CString → Response) : Prop where
  ok : ∀ body, (send 200 body).Carries 200 body
  refused : ∀ status ≠ 200, ∀ body, ∃ code ∈ answerCodes, 400 ≤ code ∧
    (send status body).Carries code body
  whole : ∀ status body, body.length ≤ 100 → (send status body).sent = some (send status body).text

theorem jsonSender_sendJson (h : StatusTexts statusStrs) (hok : (statusStrs.lookup 200).isSome)
    {size : ℕ} (hsize : 512 ≤ size) : JsonSender (sendJson size statusStrs) where
  ok body := by
    have hcarries := carries_sendJson h size 200 body
    rwa [sentStatus, if_pos hok] at hcarries
  refused status hne body := by
    have hcode := (h.sent status).2.1
    refine ⟨sentStatus statusStrs status, hcode, ?_, carries_sendJson h size status body⟩
    have herror : ∀ code ∈ answerCodes, code ≠ 200 → 400 ≤ code := by decide
    refine herror _ hcode fun heq => hne ?_
    unfold sentStatus at heq
    split_ifs at heq
    · exact heq
    · cases heq
  whole status body hbody := sent_sendJson h hsize status hbody

theorem statusText_ok : StatusText 200 "200 OK" := ⟨by decide, by decide, by decide⟩

theorem statusText_badRequest : StatusText 400 "400 Bad Request" :=
  ⟨by decide, by decide, by decide⟩

theorem statusText_unauthorized : StatusText 401 "401 Unauthorized" :=
  ⟨by decide, by decide, by decide⟩

theorem statusText_forbidden : StatusText 403 "403 Forbidden" :=
  ⟨by decide, by decide, by decide⟩

theorem statusText_notFound : StatusText 404 "404 Not Found" :=
  ⟨by decide, by decide, by decide⟩

theorem jsonSender_admin : JsonSender Admin.sendJson :=
  jsonSender_sendJson ⟨by simp [statusText_ok, statusText_badRequest, statusText_forbidden],
    by decide, by decide⟩ rfl le_rfl

theorem jsonSender_balance : JsonSender Balance.sendJson :=
  jsonSender_sendJson ⟨by simp [statusText_ok, statusText_badRequest, statusText_unauthorized,
    statusText_notFound], by decide, by decide⟩ rfl le_rfl

theorem jsonSender_orders : JsonSender Orders.sendJson :=
  jsonSender_sendJson ⟨by simp [statusText_ok, statusText_badRequest, statusText_unauthorized],
    by decide, by decide⟩ rfl le_rfl

theorem jsonSender_products : JsonSender Products.sendJson :=
  jsonSender_sendJson ⟨by simp [statusText_ok, statusText_notFound], by decide, by decide⟩ rfl
    (by decide)

theorem jsonSender_users : JsonSender Users.sendJson :=
  jsonSender_sendJson ⟨by simp [statusText_ok, statusText_badRequest], by decide, by decide⟩ rfl
    le_rfl

/-! ### The handlers -/

/-- One message with a status of the server; a body of more than 8118 bytes, which only a product list
has, is not sent whole. -/
def Response.WellFormed (r : Response) : Prop :=
  ∃ code ∈ answerCodes, ∃ body, r.Carries code body ∧
    (r.sent = some r.text ↔ body.length ≤ 8118)

theorem JsonSender.wellFormed {send : ℕ → CString → Response} (h : JsonSender send) (status : ℕ)
    {body : CString} (hbody : body.length ≤ 100) : (send status body).WellFormed := by
  have hwhole := iff_of_true (h.whole status body hbody) (hbody.trans (by decide : 100 ≤ 8118))
  by_cases hok : status = 200
  · have hcode : 200 ∈ answerCodes := by decide
    exact ⟨200, hcode, body, hok ▸ h.ok body, hwhole⟩
  · obtain ⟨code, hcode, -, hcarries⟩ := h.refused status hok body
    exact ⟨code, hcode, body, hcarries, hwhole⟩

theorem errorBody_length {message : String} (h : (ascii message).length ≤ 40) :
    (errorBody message).length ≤ 100 := by
  have hopen : (ascii "\x7b\"error\":\"").length = 10 := by decide
  have hclose : (ascii "\"\x7d").length = 2 := by decide
  simp only [errorBody, List.length_append]
  omega

theorem numberBody_length {key : String} (h : (ascii key).length ≤ 40) (x : Int32) :
    (numberBody key x).length ≤ 100 := by
  have hx := formatInt_length x
  have hopen : (ascii "\x7b\"").length = 2 := by decide
  have hmid : (ascii "\":").length = 2 := by decide
  have hclose : (ascii "\x7d").length = 1 := by decide
  simp only [numberBody, List.length_append]
  omega

theorem okBody_length : okBody.length ≤ 100 := by decide

variable {k : Conn Db} {flt : ℕ → Bool} {send : ℕ → CString → Response} {key failed : String}

/-- Every run of the program ends with a well-formed answer. -/
def AnswersWell (p : Prog Stmt Row Response) : Prop :=
  ∀ flt k, (p.run Stmt.perform flt k).1.WellFormed

theorem answersWell_calling (service : Service) {f : Except Int32 Answer → Response}
    (h : ∀ result, (f result).WellFormed) : AnswersWell (service >>= fun result => .ret (f result)) := by
  intro flt k
  rw [Prog.run_bind]
  exact h _

theorem answersWell_ret {r : Response} (h : r.WellFormed) : AnswersWell (.ret r) := fun _ _ => h

theorem missing_length (hkey : (ascii key).length ≤ 30) : (ascii ("missing " ++ key)).length ≤ 40 := by
  have hmissing : (ascii "missing ").length = 8 := by decide
  rw [ascii_append, List.length_append]
  omega

theorem answersWell_adminAction (path : String) (hkey : (ascii key).length ≤ 30)
    (hfailed : (ascii failed).length ≤ 40) (service : Int32 → Int32 → Service) (req : Request) :
    AnswersWell (adminAction path key failed service req) := by
  have hsend := jsonSender_admin
  unfold adminAction
  split_ifs
  · exact answersWell_ret (hsend.wellFormed 403 (by decide))
  split
  · split
    · simp only [Prog.pure_eq, ← apply_ite Prog.ret]
      refine answersWell_calling _ fun result => ?_
      split_ifs
      · exact hsend.wellFormed 500 (errorBody_length hfailed)
      · exact hsend.wellFormed 200 okBody_length
    · exact answersWell_ret (hsend.wellFormed 400 (errorBody_length (missing_length hkey)))
  · exact answersWell_ret (hsend.wellFormed 400 (by decide))

theorem answersWell_userAction (hsend : JsonSender send) (hkey : (ascii key).length ≤ 30)
    (hfailed : (ascii failed).length ≤ 40) (service : Int32 → Int32 → Service) (req : Request) :
    AnswersWell (userAction send key failed service req) := by
  unfold userAction
  split_ifs
  · exact answersWell_ret (hsend.wellFormed 401 (by decide))
  split
  · simp only [Prog.pure_eq, ← apply_ite Prog.ret]
    refine answersWell_calling _ fun result => ?_
    split_ifs
    · exact hsend.wellFormed 500 (errorBody_length hfailed)
    · exact hsend.wellFormed 200 okBody_length
  · exact answersWell_ret (hsend.wellFormed 400 (errorBody_length (missing_length hkey)))

theorem answersWell_balanceReport (hkey : (ascii key).length ≤ 40) (service : Int32 → Service)
    (req : Request) : AnswersWell (balanceReport key service req) := by
  have hsend := jsonSender_balance
  unfold balanceReport
  split_ifs
  · exact answersWell_ret (hsend.wellFormed 401 (by decide))
  simp only [Prog.pure_eq, ← apply_ite Prog.ret]
  refine answersWell_calling _ fun result => ?_
  split_ifs
  · exact hsend.wellFormed 404 (by decide)
  · exact hsend.wellFormed 500 (by decide)
  · exact hsend.wellFormed 200 (numberBody_length hkey _)

theorem answersWell_handleLookupUser (req : Request) : AnswersWell (handleLookupUser req) := by
  have hsend := jsonSender_users
  unfold handleLookupUser
  split
  · simp only [Prog.pure_eq, ← apply_ite Prog.ret]
    refine answersWell_calling _ fun result => ?_
    split_ifs
    · exact hsend.wellFormed 500 (by decide)
    · exact hsend.wellFormed 200 (numberBody_length (by decide) _)
  · exact answersWell_ret (hsend.wellFormed 400 (by decide))

/-- The list of products is printed within its buffer, whose size is an `int`. -/
def ListingFits (ps : List Product) : Prop :=
  ps.length * 128 + 8 < 2 ^ 31 ∧ listingWidth ps ≤ 69 * ps.length + 6

/-- The list is the only answer that may be longer than the buffer of its message. -/
theorem sendStock_wellFormed (malloc : (n : ℕ) → Option (Vector UInt8 n))
    {result : Except Int32 Answer} (hlisted : ∀ p ∈ listed result, Listed p)
    (hfits : ListingFits (listed result)) :
    ∃ r, sendStock malloc result = some r ∧ r.WellFormed := by
  have hsend := jsonSender_products
  have hfailed : (Products.sendJson 500 (errorBody "internal error")).WellFormed :=
    hsend.wellFormed 500 (by decide)
  unfold sendStock
  split_ifs with _ hsize
  · exact ⟨_, rfl, hfailed⟩
  · exact absurd hfits.1 (Nat.not_lt.2 hsize)
  cases hmalloc : malloc ((listed result).length * 128 + 8) with
  | none => exact ⟨_, rfl, hfailed⟩
  | some body =>
    obtain ⟨buf, hprint, hcstr⟩ := printStock_cstr hlisted hfits.2 body
    have hcode : 200 ∈ answerCodes := by decide
    refine ⟨Products.sendJson 200 (stockBody (listed result)), ?_, 200, hcode, _, hsend.ok _,
      sent_stockBody_iff hlisted⟩
    simp only [hprint, Option.bind_some, hcstr, Option.map_some]

/-! ### The answers that are written out -/

theorem contentLength_single (n : ℕ) :
    Http.contentLength ([field (fieldText_length n)].map fun f => (f.name, f.value)) = some n := by
  have hlength : (ascii "Content-Length").map Http.lower = Http.lengthName := by decide
  change Http.contentLength [(ascii "Content-Length", Http.digits n)] = some n
  rw [Http.contentLength, List.find?_cons_of_pos (by simpa using hlength), Option.bind_some,
    Http.readNumber_digits]

theorem uncoded_single (n : ℕ) : ∀ f ∈ [field (fieldText_length n)],
    f.name.map Http.lower ≠ Http.codingName := by
  have hlength : (ascii "Content-Length").map Http.lower ≠ Http.codingName := by decide
  exact List.forall_mem_singleton.2 hlength

def bareMessage {code : ℕ} {text : String} (h : StatusText code text) : Http.Message where
  status := code
  reason := (ascii text).drop 4
  fields := [field (fieldText_length 0)]
  body := []
  three_digits := h.three_digits
  reason_inline := h.inline
  length_declared := contentLength_single 0
  uncoded := uncoded_single 0

theorem fieldText_plain : FieldText (ascii "Content-Type") (ascii "text/plain") :=
  ⟨by decide, by decide, by decide, by decide, fun c hc => by cases hc; decide⟩

theorem contentLength_slow :
    Http.contentLength ([field fieldText_plain, field (fieldText_length 2)].map fun f =>
      (f.name, f.value)) = some 2 := by
  decide

theorem uncoded_slow : ∀ f ∈ [field fieldText_plain, field (fieldText_length 2)],
    f.name.map Http.lower ≠ Http.codingName := by
  decide

def slowMessage : Http.Message where
  status := 200
  reason := ascii "OK"
  fields := [field fieldText_plain, field (fieldText_length 2)]
  body := ascii "ok"
  three_digits := statusText_ok.three_digits
  reason_inline := statusText_ok.inline
  length_declared := contentLength_slow
  uncoded := uncoded_slow

theorem sent_literalResponse (text : String) :
    (literalResponse text).sent = some (literalResponse text).text :=
  sent_of_length (Nat.lt_succ_self _)

theorem wellFormed_literal {text : String} (m : Http.Message) (hcode : m.status ∈ answerCodes)
    (hbody : m.body.length ≤ 8118) (htext : ascii text = m.text) :
    (literalResponse text).WellFormed :=
  ⟨m.status, hcode, m.body, ⟨m, htext, rfl, rfl⟩, iff_of_true (sent_literalResponse text) hbody⟩

theorem statusText_notAllowed : StatusText 405 "405 Method Not Allowed" :=
  ⟨by decide, by decide, by decide⟩

theorem wellFormed_notFound : notFound.WellFormed :=
  wellFormed_literal (bareMessage statusText_notFound) (by decide : 404 ∈ answerCodes)
    (Nat.zero_le _) (by decide)

theorem wellFormed_forbidden : forbidden.WellFormed :=
  wellFormed_literal (bareMessage statusText_forbidden) (by decide : 403 ∈ answerCodes)
    (Nat.zero_le _) (by decide)

theorem wellFormed_notAllowed : methodNotAllowed.WellFormed :=
  wellFormed_literal (bareMessage statusText_notAllowed) (by decide : 405 ∈ answerCodes)
    (Nat.zero_le _) (by decide)

def badRequest : Response := literalResponse "HTTP/1.1 400 Bad Request\r\nContent-Length: 0\r\n\r\n"

theorem wellFormed_badRequest : badRequest.WellFormed :=
  wellFormed_literal (bareMessage statusText_badRequest) (by decide : 400 ∈ answerCodes)
    (Nat.zero_le _) (by decide)

theorem wellFormed_slow : (literalResponse
    "HTTP/1.1 200 OK\r\nContent-Type: text/plain\r\nContent-Length: 2\r\n\r\nok").WellFormed :=
  wellFormed_literal slowMessage (by decide : 200 ∈ answerCodes)
    (by decide : (ascii "ok").length ≤ 8118) (by decide)

/-! ### The server -/

/-- If the request asks for the stock, then the list fits its buffer. -/
def Printable (rows : ℕ) (req : Request) (internal : Bool) (flt : ℕ → Bool) (k : Conn Db) : Prop :=
  route req internal = .ok .getStock →
    ListingFits (listed ((productsList rows).run Stmt.perform flt k).1)

variable {malloc : (n : ℕ) → Option (Vector UInt8 n)} {rows : ℕ} {req : Request} {internal : Bool}

/-- This run of the program ends with a well-formed answer, without leaving a buffer. -/
def AnswersWellIn (p : Prog Stmt Row (Option Response)) (flt : ℕ → Bool) (k : Conn Db) : Prop :=
  ∃ r, (p.run Stmt.perform flt k).1 = some r ∧ r.WellFormed

theorem AnswersWell.within {p : Prog Stmt Row Response} (h : AnswersWell p) (flt : ℕ → Bool)
    (k : Conn Db) : AnswersWellIn (p >>= fun response => .ret (some response)) flt k := by
  rw [AnswersWellIn, Prog.run_bind]
  exact ⟨_, rfl, h flt k⟩

theorem answersWellIn_handleGetStock
    (h : ListingFits (listed ((productsList rows).run Stmt.perform flt k).1)) :
    AnswersWellIn (handleGetStockIn malloc rows) flt k := by
  simp only [AnswersWellIn, handleGetStockIn, Prog.pure_eq, Prog.run_bind]
  exact sendStock_wellFormed malloc (listed_productsList rows flt k) h

theorem HandlerFn.answersWell (fn : HandlerFn) (req : Request)
    (hstock : fn = .getStock → ListingFits (listed ((productsList rows).run Stmt.perform flt k).1)) :
    AnswersWellIn (fn.callIn malloc rows req) flt k := by
  cases fn with
  | getStock => exact answersWellIn_handleGetStock (hstock rfl)
  | postRestock | postUpdatePrice =>
    exact (answersWell_adminAction _ (by decide) (by decide) _ req).within flt k
  | getBalance | deleteBalance => exact (answersWell_balanceReport (by decide) _ req).within flt k
  | postDeposit =>
    exact (answersWell_userAction jsonSender_balance (by decide) (by decide) _ req).within flt k
  | postPurchase =>
    exact (answersWell_userAction jsonSender_orders (by decide) (by decide) _ req).within flt k
  | getSlow => exact (answersWell_ret wellFormed_slow).within flt k
  | lookupUser => exact (answersWell_handleLookupUser req).within flt k

theorem route_error {r : Response} (h : route req internal = .error r) :
    r ∈ [notFound, forbidden, methodNotAllowed] := by
  unfold route at h
  split at h
  · cases h
    exact List.mem_cons_self
  · split_ifs at h
    · cases h
      exact List.mem_cons_of_mem _ List.mem_cons_self
    · split at h
      · cases h
        exact List.mem_cons_of_mem _ (List.mem_cons_of_mem _ List.mem_cons_self)
      · cases h

theorem answersWell_dispatch (h : Printable rows req internal flt k) :
    AnswersWellIn (dispatchIn malloc rows req internal) flt k := by
  unfold dispatchIn
  split
  · rename_i r hroute
    have hr := route_error hroute
    simp only [List.mem_cons, List.not_mem_nil, or_false] at hr
    rcases hr with rfl | rfl | rfl
    · exact ⟨_, rfl, wellFormed_notFound⟩
    · exact ⟨_, rfl, wellFormed_forbidden⟩
    · exact ⟨_, rfl, wellFormed_notAllowed⟩
  · rename_i fn hroute
    exact fn.answersWell req fun hfn => h (hfn ▸ hroute)

theorem answersWell_received {adminToken : CString} {chunks : List (List UInt8)}
    (hsome : recv (bufSize - 1) chunks ≠ [])
    (hstock : ∀ req, received adminToken chunks = some req → Printable rows req internal flt k) :
    ∃ r, ((handleClientIn malloc rows adminToken internal chunks).run Stmt.perform flt k).1 =
      some (some r) ∧ r.WellFormed := by
  cases hreceived : received adminToken chunks with
  | none =>
    unfold received at hreceived
    cases hrecv : recv (bufSize - 1) chunks with
    | nil => exact absurd hrecv hsome
    | cons b buf =>
      rw [hrecv] at hreceived
      cases hreceived
  | some req =>
    rw [handleClientIn, hreceived]
    dsimp only
    split_ifs
    · exact ⟨badRequest, rfl, wellFormed_badRequest⟩
    · have hanswer : AnswersWellIn (dispatchIn malloc rows req internal) flt k :=
        answersWell_dispatch (hstock req hreceived)
      obtain ⟨r, hr, hwell⟩ := hanswer
      refine ⟨r, ?_, hwell⟩
      simp only [Prog.pure_eq, Prog.run_bind, hr, Option.map_some]

/-- A client that sends some bytes, whatever they are and whatever fails, gets one answer, unless it
asks for a list that does not fit its buffer; the reader of the answer finds the status and the body
in it, whatever follows on the connection. -/
theorem handleClient_answer_readable (malloc : (n : ℕ) → Option (Vector UInt8 n)) (rows : ℕ)
    (adminToken : CString) (internal : Bool) (chunks : List (List UInt8))
    (hsome : recv (bufSize - 1) chunks ≠ []) (flt : ℕ → Bool) (k : Conn Db)
    (hstock : ∀ req, received adminToken chunks = some req → Printable rows req internal flt k) :
    ∃ r, ((handleClientIn malloc rows adminToken internal chunks).run Stmt.perform flt k).1 =
        some (some r) ∧
      ∃ code ∈ answerCodes, ∃ body,
        (∀ rest, Http.readMessage (r.text ++ rest) = some (code, body, rest)) ∧
        (r.sent = some r.text ↔ body.length ≤ 8118) := by
  obtain ⟨r, hr, code, hcode, body, ⟨m, htext, rfl, rfl⟩, hwhole⟩ :=
    answersWell_received hsome hstock
  refine ⟨r, hr, m.status, hcode, m.body, fun rest => ?_, hwhole⟩
  rw [htext]
  exact m.readMessage_text rest

/-- A request for the stock of the seed. -/
def seedQuery : List UInt8 := ascii "GET /stock HTTP/1.1\r\n\r\n"

theorem handleClient_answer_readable_stock :
    ∃ r, ((handleClientIn (fun n => some (Vector.replicate n 0)) 31 (ascii "admin") false
        [seedQuery]).run Stmt.perform (fun _ => false) ⟨seed, none⟩).1 = some (some r) ∧
      ∃ code ∈ answerCodes, ∃ body,
        (∀ rest, Http.readMessage (r.text ++ rest) = some (code, body, rest)) ∧
        (r.sent = some r.text ↔ body.length ≤ 8118) := by
  have hfits : ListingFits seedListing := by
    unfold ListingFits
    decide +kernel
  exact handleClient_answer_readable _ 31 (ascii "admin") false [seedQuery] (by decide)
    (fun _ => false) ⟨seed, none⟩ fun _ _ _ => hfits

end Sshnack
