import Sshnack.WireAgreement
import Sshnack.ApiAnswers
import Sshnack.JsonTexts
import Sshnack.Shelf

/-!
# Calls of the API across the wire

A call of the client goes out in a message of libcurl, is handled by the server and comes back in a
response that the client reads. The one `recv` of the server may get any part of the message. If it
gets the whole message or nothing, then the round, seen from the client, is the service call of the
server, run on the server's connection to SQLite: an exit with a code other than 0 is `API_ERR_HTTP`,
and any other exit brings what the service returned. A part of a message may be another request.
-/

namespace Sshnack.Tui

open Txn

/-! ### What the client makes of it -/

/-- What a call returns for the outcome of its service. -/
def ApiCall.meaning (result : Except Int32 Answer) (call : ApiCall) : Except ApiError ApiValue :=
  if returned result ≠ 0 then .error .http
  else .ok (match call with
    | .getStock => .products ((listed result).map clientProduct)
    | .getBalance | .refund => .amount (written result)
    | .deposit _ | .purchase _ | .restock _ _ | .setPrice _ _ => .nothing)

/-- The list of products can be sent and read. -/
structure ReadableStock (ps : List Sshnack.Product) : Prop where
  listed : ∀ p ∈ ps, Listed p
  fits : StockFits ps
  verbatim : ∀ p ∈ ps, Verbatim p.name

def ApiCall.Readable (result : Except Int32 Answer) (call : ApiCall) : Prop :=
  call = .getStock → ReadableStock (listed result)

variable (curl : Libcurl) (strtod : Strtod) {r : Response} {code : ℕ} {body : CString}

theorem writeCb_pieces (pieces : List (List UInt8)) (b : Buf) :
    (pieces.foldl writeCb b).data.getD [] = b.data.getD [] ++ pieces.flatten := by
  induction pieces generalizing b with
  | nil => simp
  | cons piece pieces ih =>
    rw [List.foldl_cons, ih, List.flatten_cons, ← List.append_assoc]
    rfl

/-- The client gets the status and the body of a message. -/
theorem doRequestAnswer_carries (h : r.Carries code body) (hcode : code ∈ answerCodes) :
    doRequestAnswer curl r.text = .ok (Int64.ofNat code, body) := by
  obtain ⟨m, htext, rfl, rfl⟩ := h
  obtain ⟨pieces, hperform, hpieces⟩ := curl.exact m hcode
  rw [doRequestAnswer, htext, hperform]
  dsimp only
  rw [writeCb_pieces, hpieces]
  rfl

theorem failure_of_code {code : ℕ} (hcode : code ∈ answerCodes) (hbad : 400 ≤ code) :
    (400 : Int64) ≤ Int64.ofNat code := by
  have hall : ∀ code ∈ answerCodes, 400 ≤ code → (400 : Int64) ≤ Int64.ofNat code := by decide
  exact hall code hcode hbad

theorem answer_failure {status : Int64} (h : 400 ≤ status) (data : List UInt8) (call : ApiCall) :
    call.answer strtod (.ok (status, data)) = some (.error .http) := by
  cases call <;>
    simp only [ApiCall.answer, apiGetStockAnswer, apiGetBalanceAnswer, apiRefundAnswer, amountAnswer,
      statusAnswer, if_pos h] <;> rfl

/-- A refused request. -/
theorem answer_refused {send : ℕ → CString → Response} (hsend : JsonSender send) {status : ℕ}
    (hstatus : status ≠ 200) {message : String} (hmessage : (ascii message).length ≤ 40)
    (call : ApiCall) : ∃ bytes, (send status (errorBody message)).sent = some bytes ∧
      call.answer strtod (doRequestAnswer curl bytes) = some (.error .http) := by
  obtain ⟨code, hcode, hbad, hcarries⟩ := hsend.refused status hstatus (errorBody message)
  refine ⟨_, hsend.whole status _ (errorBody_length hmessage), ?_⟩
  rw [doRequestAnswer_carries curl hcarries hcode]
  exact answer_failure strtod (failure_of_code hcode hbad) _ call

/-- The body with one number as a JSON text. -/
theorem jsonText_numberBody {key : String} (hkey : Verbatim (ascii key))
    (hcontrol : ∀ c ∈ ascii key, 32 ≤ c) (x : Int32) :
    JsonText cjsonNestingLimit (.value (.object [(ascii key, .number x)])) (numberBody key x) := by
  have hblank : Blank [] := fun _ hc => absurd hc List.not_mem_nil
  have hmember := JsonText.lastMember (n := 999) hblank (stringText_verbatim hkey hcontrol) hblank
    hblank (.number 999 x) hblank
  have htext : numberBody key x =
      123 :: (([] ++ 34 :: (ascii key ++ 34 :: ([] ++ 58 :: ([] ++ (formatInt x ++ []))))) ++ [125]) := by
    have hopen : ascii "\x7b\"" = [123, 34] := by decide
    have hmid : ascii "\":" = [34, 58] := by decide
    have hclose : ascii "\x7d" = [125] := by decide
    simp [numberBody, hopen, hmid, hclose]
  rw [htext]
  exact .object hmember

theorem amountAnswer_numberBody {key : String} (hkey : key ∈ ["balance_gr", "refund_gr"]) (x : Int32) :
    amountAnswer strtod key (.ok (200, numberBody key x)) = .ok x := by
  have hchars : ∀ key ∈ ["balance_gr", "refund_gr"], Verbatim (ascii key) ∧
      (∀ c ∈ ascii key, 32 ≤ c) ∧ 0 ∉ ascii key ∧ (ascii key).length ≤ 40 := by
    rintro key hkey
    fin_cases hkey <;>
      exact ⟨by decide, List.all_iff_forall_prop.1 (by decide), by decide, by decide⟩
  obtain ⟨hverbatim, hcontrol, hnul, hlen⟩ := hchars key hkey
  have hblank : Blank [] := fun _ hc => absurd hc List.not_mem_nil
  have htext := jsonText_numberBody hverbatim hcontrol x
  have hparse := (reads strtod htext).cjsonParse hblank htext hblank
  rw [List.nil_append, List.append_nil] at hparse
  have hstring : (numberBody key x).takeWhile (· ≠ 0) = numberBody key x :=
    List.takeWhile_eq_self_iff.2 fun c hc => by
      simpa using fun hz : c = 0 => (numberBody_sendable hnul hlen x).1 (hz ▸ hc)
  have hstatus : ¬ (400 : Int64) ≤ 200 := by decide
  have hitem : cjsonGetObjectItem (.object [(ascii key, .number x)]) (ascii key) =
      some (.number x) := by
    simp [cjsonGetObjectItem]
  rw [amountAnswer, if_neg hstatus, hstring, hparse]
  dsimp only
  rw [hitem]

variable {result : Except Int32 Answer}

theorem answer_stockReply (h : ReadableStock (listed result)) :
    ∃ bytes, (stockReply result).sent = some bytes ∧
      ApiCall.getStock.answer strtod (doRequestAnswer curl bytes) =
        some (ApiCall.getStock.meaning result) := by
  unfold stockReply ApiCall.meaning
  split_ifs with hfailed
  · exact answer_refused curl strtod jsonSender_products (by decide) (by decide) _
  · obtain ⟨hnarrow, hshort⟩ := h.fits.narrow h.listed
    have hlen := stockBody_length (listed result)
    have hempty : (listed result).length = 0 → listingWidth (listed result) = 0 :=
      listingWidth_of_empty
    have htrip : RoundTrip strtod (listed result) :=
      roundTrip_of_verbatim h.listed (by omega) h.verbatim
    obtain ⟨out, hanswer, hout⟩ := htrip
    refine ⟨_, (sent_stockBody_iff h.listed).2 (by omega), ?_⟩
    rw [doRequestAnswer_carries curl (jsonSender_products.ok _) (by decide)]
    change (apiGetStockAnswer strtod (.ok (200, stockBody (listed result)))).map _ = _
    rw [hanswer, ← hout]
    rfl

theorem sendStock_stockReply (malloc : (n : ℕ) → Vector UInt8 n) (h : ReadableStock (listed result)) :
    sendStock (fun n => some (malloc n)) result = some (stockReply result) := by
  obtain ⟨hnarrow, hshort⟩ := h.fits.narrow h.listed
  obtain ⟨buf, hprint, hcstr⟩ :=
    printStock_cstr h.listed hnarrow (malloc ((listed result).length * 128 + 8))
  unfold sendStock stockReply
  split_ifs with _ hsize
  · rfl
  · omega
  · simp only [hprint, Option.bind_some, hcstr, Option.map_some]

theorem answer_amountReply {key : String} (hkey : key ∈ ["balance_gr", "refund_gr"]) {call : ApiCall}
    (hanswer : ∀ resp, call.answer strtod resp = some ((amountAnswer strtod key resp).map .amount))
    (hmeaning : call.meaning result =
      if returned result ≠ 0 then .error .http else .ok (.amount (written result))) :
    ∃ bytes, (amountReply key result).sent = some bytes ∧
      call.answer strtod (doRequestAnswer curl bytes) = some (call.meaning result) := by
  have hlength : ∀ key ∈ ["balance_gr", "refund_gr"], (ascii key).length ≤ 40 := by decide
  rw [hmeaning]
  unfold amountReply
  by_cases hmissing : returned result = balanceNotFound
  · have hfailed : returned result ≠ 0 := hmissing ▸ by decide
    rw [if_pos hmissing, if_pos hfailed]
    exact answer_refused curl strtod jsonSender_balance (by decide) (by decide) call
  rw [if_neg hmissing]
  split_ifs with hfailed
  · exact answer_refused curl strtod jsonSender_balance (by decide) (by decide) call
  · refine ⟨_, jsonSender_balance.whole 200 _ (numberBody_length (hlength key hkey) _), ?_⟩
    rw [doRequestAnswer_carries curl (jsonSender_balance.ok _) (by decide), hanswer]
    change some ((amountAnswer strtod key (.ok (200, numberBody key (written result)))).map _) = _
    rw [amountAnswer_numberBody strtod hkey]
    rfl

theorem answer_answered {send : ℕ → CString → Response} (hsend : JsonSender send) {failed : String}
    (hfailed : (ascii failed).length ≤ 40) {call : ApiCall}
    (hanswer : ∀ resp, call.answer strtod resp = some ((statusAnswer resp).map fun _ => .nothing))
    (hmeaning : call.meaning result =
      if returned result ≠ 0 then .error .http else .ok .nothing) :
    ∃ bytes, (answered send failed result).sent = some bytes ∧
      call.answer strtod (doRequestAnswer curl bytes) = some (call.meaning result) := by
  have hstatus : ¬ (400 : Int64) ≤ 200 := by decide
  rw [hmeaning]
  unfold answered
  split_ifs
  · exact answer_refused curl strtod hsend (by decide) hfailed call
  · refine ⟨_, hsend.whole 200 _ okBody_length, ?_⟩
    rw [doRequestAnswer_carries curl (hsend.ok _) (by decide), hanswer]
    change some ((statusAnswer (.ok (200, okBody))).map _) = _
    rw [statusAnswer, if_neg hstatus]
    rfl

/-- The client reads the answer as the outcome of the service. -/
theorem answer_reply (call : ApiCall) (hreadable : call.Readable result) :
    ∃ bytes, (call.reply result).sent = some bytes ∧
      call.answer strtod (doRequestAnswer curl bytes) = some (call.meaning result) := by
  cases call with
  | getStock => exact answer_stockReply curl strtod (hreadable rfl)
  | getBalance | refund =>
    exact answer_amountReply curl strtod (by decide) (fun _ => rfl) rfl
  | deposit => exact answer_answered curl strtod jsonSender_balance (by decide) (fun _ => rfl) rfl
  | purchase => exact answer_answered curl strtod jsonSender_orders (by decide) (fun _ => rfl) rfl
  | restock | setPrice =>
    exact answer_answered curl strtod jsonSender_admin (by decide) (fun _ => rfl) rfl

/-! ### A round across the wire -/

/-- A server, the library of its clients and the network between them: `faults` gives the SQLite calls
that may fail while a request is handled, and `deliveries` the chunks in which the bytes of a message
may come to the server. -/
structure Deployment where
  baseUrl : CString
  token : CString
  rows : ℕ
  internal : Bool
  curl : Libcurl
  strtod : Strtod
  malloc : (n : ℕ) → Vector UInt8 n
  faults : ApiCall → Set (ℕ → Bool)
  deliveries : List UInt8 → Set (List (List UInt8))
  token_length : 1 ≤ token.length ∧ token.length ≤ 127
  token_word : ¬ IsNumeral token
  rows_enough : 30 < rows

namespace Deployment

variable (D : Deployment) (userId : Int32) (call : ApiCall)

def client : ApiClient := apiClientInit D.baseUrl userId D.token

abbrev Message := CurlMessage (D.client userId).baseUrl (call.options (D.client userId))

/-- What the server makes of a connection that brings these chunks. -/
def handle (chunks : List (List UInt8)) (flt : ℕ → Bool) (k : Conn Db) :
    Option (Option Response) × Conn Db :=
  (handleClientIn (fun n => some (D.malloc n)) D.rows D.token D.internal chunks).run Stmt.perform flt k

/-- One call of a client, in bytes: lost before the server or behind it, or answered. -/
inductive Exchange (k : Conn Db) : Except ApiError ApiValue → Conn Db → Prop
  | unsent : Exchange k (.error .network) k
  | lost (m : D.Message userId call) (hsize : m.bytes.length ≤ 2047) {chunks : List (List UInt8)}
      (hchunks : chunks ∈ D.deliveries m.bytes) {flt : ℕ → Bool} (hflt : flt ∈ D.faults call) :
      Exchange k (.error .network) (D.handle chunks flt k).2
  | answered (m : D.Message userId call) (hsize : m.bytes.length ≤ 2047) {chunks : List (List UInt8)}
      (hchunks : chunks ∈ D.deliveries m.bytes) {flt : ℕ → Bool} (hflt : flt ∈ D.faults call)
      {response : Response} {bytes : List UInt8} {outcome : Except ApiError ApiValue}
      (hresponse : (D.handle chunks flt k).1 = some (some response))
      (hsent : response.sent = some bytes)
      (houtcome : call.answer D.strtod (doRequestAnswer D.curl bytes) = some outcome) :
      Exchange k outcome (D.handle chunks flt k).2

/-- The first chunk of a message is all of it, or nothing comes. -/
def WholeOrNothing : Prop :=
  ∀ bytes, ∀ chunks ∈ D.deliveries bytes, chunks.headD [] = [] ∨ chunks.headD [] = bytes

/-- The service call that the server makes. -/
def request (flt : ℕ → Bool) : FaultyCall := (call.service D.rows userId, flt)

/-- The same without a wire. -/
inductive Served (k : Conn Db) : Except ApiError ApiValue → Conn Db → Prop
  | unsent : Served k (.error .network) k
  | lost {flt : ℕ → Bool} (hflt : flt ∈ D.faults call) :
      Served k (.error .network) (serve k (D.request userId call flt))
  | answered {flt : ℕ → Bool} (hflt : flt ∈ D.faults call) :
      Served k (call.meaning (outcome k (D.request userId call flt)))
        (serve k (D.request userId call flt))

variable {D userId call} {k k' : Conn Db} {chunks : List (List UInt8)}

/-- On the shelf of a reachable database every list can be sent and read. -/
theorem readable_of_settled (hk : Settled (fun d => OnShelf d.toTables) k) (flt : ℕ → Bool) :
    call.Readable (outcome k (D.request userId call flt)) := by
  obtain ⟨d, txn⟩ := k
  obtain ⟨rfl, hd⟩ := hk
  rintro rfl
  obtain ⟨result, hrun, hresult⟩ := run_productsList hd.sorted (hd.length ▸ D.rows_enough) flt
  have hlisted : ∀ p ∈ listed result, Listed p := by
    have hall := listed_productsList D.rows flt ⟨d, none⟩
    rwa [hrun] at hall
  have houtcome : outcome ⟨d, none⟩ (D.request userId .getStock flt) = result :=
    congrArg Prod.fst hrun
  rw [houtcome]
  rcases hresult with ⟨rfl, -⟩ | rfl
  · exact ⟨hlisted, stockFits_of_narrow hlisted (by decide) (by decide),
      fun _ hp => absurd hp List.not_mem_nil⟩
  · exact ⟨hlisted, hd.fits, fun p hp => (hd.name hp).2⟩

theorem handle_nothing (hchunks : chunks.headD [] = []) (flt : ℕ → Bool) (k : Conn Db) :
    D.handle chunks flt k = (some none, k) := by
  have hreceived : received D.token chunks = none := by rw [received, recv, hchunks, List.take_nil]
  rw [handle, handleClientIn, hreceived]
  rfl

theorem run_dispatchIn (hk : Settled (fun d => OnShelf d.toTables) k) (flt : ℕ → Bool) :
    (dispatchIn (fun n => some (D.malloc n)) D.rows (call.parsed userId) D.internal).run Stmt.perform
        flt k =
      (some (call.reply (outcome k (D.request userId call flt))),
        serve k (D.request userId call flt)) := by
  have hreadable : call.Readable (outcome k (D.request userId call flt)) := readable_of_settled hk flt
  have hreply : call.replyIn (fun n => some (D.malloc n))
      (outcome k (D.request userId call flt)) =
        some (call.reply (outcome k (D.request userId call flt))) := by
    cases call with
    | getStock => exact sendStock_stockReply D.malloc (hreadable rfl)
    | getBalance | deposit | purchase | refund | restock | setPrice => rfl
  rw [dispatchIn, route_parsed]
  dsimp only
  rw [callIn_parsed, Prog.run_bind]
  exact congrArg (fun r => (r, _)) hreply

theorem handle_message (hpos : 0 < userId) (hk : Settled (fun d => OnShelf d.toTables) k)
    (m : D.Message userId call) (hsize : m.bytes.length ≤ 2047) (hchunks : chunks.headD [] = m.bytes)
    (flt : ℕ → Bool) :
    D.handle chunks flt k = (some (some (call.reply (outcome k (D.request userId call flt)))),
      serve k (D.request userId call flt)) := by
  have hrecv : recv (bufSize - 1) chunks = recv (bufSize - 1) [m.bytes] := by
    rw [recv, recv, hchunks, List.headD_cons]
  have hadmin : (D.client userId).adminToken = D.token := List.take_of_length_le D.token_length.2
  have hparsed := received_parsed (D.client userId) (Int32.lt_iff_toInt_lt.1 hpos)
    (by rw [hadmin]; exact List.ne_nil_of_length_pos D.token_length.1)
    (by rw [hadmin]; exact D.token_word) call m hsize
  rw [hadmin] at hparsed
  have hreceived : received D.token chunks = some (call.parsed userId) := by
    rw [received, hrecv]
    exact hparsed
  have hmethod : (call.parsed userId).method ≠ none := by cases call <;> exact Option.some_ne_none _
  rw [handle, handleClientIn, hreceived]
  dsimp only
  rw [if_neg hmethod]
  refine (Prog.run_bind _ _ _ _ _).trans ?_
  rw [run_dispatchIn hk flt]
  rfl

/-- Every message that the server gets whole is answered, with the outcome of the service. -/
theorem answered_message (hpos : 0 < userId) (hk : Settled (fun d => OnShelf d.toTables) k)
    (m : D.Message userId call) (hsize : m.bytes.length ≤ 2047) (hchunks : chunks.headD [] = m.bytes)
    (flt : ℕ → Bool) :
    ∃ response bytes, D.handle chunks flt k =
        (some (some response), serve k (D.request userId call flt)) ∧
      response.sent = some bytes ∧ call.answer D.strtod (doRequestAnswer D.curl bytes) =
        some (call.meaning (outcome k (D.request userId call flt))) := by
  have hreadable : call.Readable (outcome k (D.request userId call flt)) :=
    readable_of_settled hk flt
  obtain ⟨bytes, hsent, hanswer⟩ := answer_reply D.curl D.strtod call hreadable
  exact ⟨_, bytes, handle_message hpos hk m hsize hchunks flt, hsent, hanswer⟩

/-- The wire changes neither a call nor its outcome. -/
theorem Exchange.served (hwhole : D.WholeOrNothing) (hpos : 0 < userId)
    (hk : Settled (fun d => OnShelf d.toTables) k) {value : Except ApiError ApiValue}
    (h : D.Exchange userId call k value k') : D.Served userId call k value k' := by
  cases h with
  | unsent => exact .unsent
  | lost m hsize hchunks hflt =>
    rcases hwhole m.bytes _ hchunks with hnone | hall
    · rw [handle_nothing hnone]
      exact .unsent
    · rw [handle_message hpos hk m hsize hall]
      exact .lost hflt
  | @answered m hsize chunks hchunks flt hflt response bytes _ hresponse hsent houtcome =>
    rcases hwhole m.bytes _ hchunks with hnone | hall
    · rw [handle_nothing hnone] at hresponse
      cases hresponse
    · obtain ⟨response', bytes', hhandle, hsent', hanswer⟩ :=
        answered_message hpos hk m hsize hall flt
      rw [hhandle] at hresponse ⊢
      cases hresponse
      cases hsent.symm.trans hsent'
      cases houtcome.symm.trans hanswer
      exact .answered hflt

theorem Served.settled (hk : Settled (fun d => OnShelf d.toTables) k)
    {value : Except ApiError ApiValue} (h : D.Served userId call k value k') :
    Settled (fun d => OnShelf d.toTables) k' := by
  have hserve (x : FaultyCall) : Settled (fun d => OnShelf d.toTables) (serve k x) :=
    hk.serve (P := fun _ _ => True) (fun _ _ _ _ hd _ he => hd.effect he) trivial
  cases h with
  | unsent => exact hk
  | lost => exact hserve _
  | answered => exact hserve _

end Deployment

/-! ### Many clients -/

/-- A call of a client and the outcome that the client saw. -/
structure Sent where
  userId : Int32
  call : ApiCall
  outcome : Except ApiError ApiValue

/-- The calls of several clients, one after another. -/
inductive Transcript (step : Int32 → ApiCall → Conn Db → Except ApiError ApiValue → Conn Db → Prop) :
    Conn Db → List Sent → Conn Db → Prop
  | nil (k : Conn Db) : Transcript step k [] k
  | cons {k k₁ k₂ : Conn Db} {x : Sent} {xs : List Sent} (h : step x.userId x.call k x.outcome k₁)
      (hs : Transcript step k₁ xs k₂) : Transcript step k (x :: xs) k₂

variable {D : Deployment} {k k' : Conn Db} {xs : List Sent}

theorem Transcript.served (hwhole : D.WholeOrNothing) (h : Transcript D.Exchange k xs k')
    (hpos : ∀ x ∈ xs, 0 < x.userId) (hk : Settled (fun d => OnShelf d.toTables) k) :
    Transcript D.Served k xs k' := by
  induction h with
  | nil k => exact .nil k
  | cons h _ ih =>
    have hserved := h.served hwhole (hpos _ List.mem_cons_self) hk
    exact .cons hserved (ih (fun x hx => hpos x (List.mem_cons_of_mem _ hx)) (hserved.settled hk))

end Sshnack.Tui
