import Sshnack.Wire

/-!
# The messages of the client as the server reads them

A message that libcurl sends is parsed to the method, the path, the body and the credentials that the
client gave, whatever headers libcurl adds and in whatever order.
-/

namespace Sshnack.Tui

variable {c : ApiClient} {method path : CString} {body : Option CString} {useAdmin : Bool}

/-- What `do_request` writes behind `Bearer`. -/
def bearer (c : ApiClient) (useAdmin : Bool) : CString :=
  if useAdmin then c.adminToken else formatInt c.userId

theorem bearer_length (c : ApiClient) (useAdmin : Bool) : (bearer c useAdmin).length ≤ 127 := by
  unfold bearer
  split_ifs
  · exact c.adminToken_fits
  · exact (formatInt_length c.userId).trans (by decide)

theorem httpHeader_eq : (doRequest c method path body useAdmin).httpHeader =
    (ascii "Authorization: Bearer " ++ bearer c useAdmin) ::
      if body.isSome then [ascii "Content-Type: application/json"] else [] := by
  have hlen := bearer_length c useAdmin
  have hlead : (ascii "Authorization: Bearer ").length = 22 := rfl
  have hfits : (ascii "Authorization: Bearer " ++ bearer c useAdmin).length < 200 := by
    rw [List.length_append]
    omega
  exact congrArg (· :: _) (snprintf_of_length hfits)

theorem target_eq (hpath : path.length ≤ 63)
    (m : CurlMessage c.baseUrl (doRequest c method path body useAdmin)) : m.target = path := by
  have hurl : (doRequest c method path body useAdmin).url = c.baseUrl ++ path := by
    apply snprintf_of_length
    have hbase := c.baseUrl_fits
    rw [List.length_append]
    omega
  exact (List.append_cancel_left (hurl.symm.trans m.url_eq)).symm

/-- The only credentials in a message are the ones of the client. -/
theorem bearerAfter_message (m : CurlMessage c.baseUrl (doRequest c method path body useAdmin)) :
    bearerAfter [] m.headers = bearer c useAdmin := by
  have hline := bearerOf_authorization (bearer c useAdmin) (bearer_length c useAdmin)
  have hmem : ascii "Authorization: Bearer " ++ bearer c useAdmin ∈ m.headers := by
    apply m.given
    rw [httpHeader_eq]
    exact List.mem_cons_self
  refine bearerAfter_eq hmem hline (fun l hl b hb => ?_) []
  have hgiven := m.replaced l hl (isAuthorization_of_bearerOf hb)
  rw [httpHeader_eq] at hgiven
  rcases List.mem_cons.1 hgiven with rfl | hjson
  · rw [hline] at hb
    exact (Option.some.inj hb).symm
  · have hnone : bearerOf (ascii "Content-Type: application/json") = none := by decide
    split_ifs at hjson
    · rw [List.mem_singleton.1 hjson, hnone] at hb
      cases hb
    · cases hjson

/-- A message that is received whole. -/
theorem received_message (hmethod : Word method) (hmethodLen : method.length ≤ 15)
    (hpath : Word path) (hpathLen : path.length ≤ 63)
    (hbody : 0 ∉ (doRequest c method path body useAdmin).body)
    (hbodyLen : (doRequest c method path body useAdmin).body.length ≤ 511)
    (m : CurlMessage c.baseUrl (doRequest c method path body useAdmin))
    (hsize : m.bytes.length ≤ 2047) (adminToken : CString) :
    received adminToken [m.bytes] =
      some ⟨parseMethod method, path, (doRequest c method path body useAdmin).body,
        authParse (bearer c useAdmin) adminToken⟩ := by
  -- the length that the headers declare plays no part in parsing
  let r : CompleteRequest :=
    { method := method, path := path, version := m.version, headers := m.headers
      body := List.replicate (declaredLength m.headers) 0
      method_word := hmethod, path_word := hpath, version_word := m.version_word
      headers_lines := m.headers_lines, body_declared := List.length_replicate }
  have hbytes : m.bytes = r.head ++ (doRequest c method path body useAdmin).body := by
    simp only [CurlMessage.bytes, CurlMessage.line, target_eq hpathLen m, CompleteRequest.head,
      CompleteRequest.line, List.append_assoc, r]
    rfl
  have hbodyString : cString (doRequest c method path body useAdmin).body =
      (doRequest c method path body useAdmin).body := by
    simpa [cString] using cString_append hbody []
  have hparse := r.parseRequest_closed adminToken (doRequest c method path body useAdmin).body
  have hcredentials : credentials adminToken r.headers =
      authParse (bearer c useAdmin) adminToken := by
    rw [credentials, bearerAfter_message m]
  have hstring : cString m.bytes = r.head ++ (doRequest c method path body useAdmin).body := by
    rw [hbytes, cString_append r.head_noNul, hbodyString]
  have hrecv : recv (bufSize - 1) [m.bytes] = m.bytes := List.take_of_length_le hsize
  rw [received, hrecv]
  cases hm : m.bytes with
  | nil =>
    rw [hm] at hbytes
    have hempty := (List.append_eq_nil_iff.1 (List.append_eq_nil_iff.1 hbytes.symm).1).1
    exact absurd (List.append_eq_nil_iff.1 hempty).1 hmethod.nonempty
  | cons b buf =>
    dsimp only
    rw [← hm, hstring, hparse, hcredentials, List.take_of_length_le hbodyLen,
      List.take_of_length_le hmethodLen, scannedPath, if_pos hmethodLen,
      List.take_of_length_le hpathLen]

/-! ### The calls of the API -/

theorem word_of_path {first : CString} (hfirst : Word first) (x : Int32) :
    Word (first ++ formatInt x) where
  nonempty := by simp [hfirst.nonempty]
  noSpace := by
    intro b hb
    rcases List.mem_append.1 hb with hb | hb
    · exact hfirst.noSpace b hb
    · exact (formatInt_plain x b hb).1
  noNul := by
    intro hzero
    rcases List.mem_append.1 hzero with hzero | hzero
    · exact hfirst.noNul hzero
    · exact (formatInt_plain x 0 hzero).2.1 rfl

theorem numberBody_sendable {key : String} (hnul : 0 ∉ ascii key) (hlen : (ascii key).length ≤ 40)
    (x : Int32) : 0 ∉ numberBody key x ∧ (numberBody key x).length ≤ 511 := by
  have hx := formatInt_length x
  have hopen : (ascii "\x7b\"").length = 2 := rfl
  have hmid : (ascii "\":").length = 2 := rfl
  have hclose : (ascii "\x7d").length = 1 := rfl
  constructor
  · have hdigits : 0 ∉ formatInt x := fun hzero => (formatInt_plain x 0 hzero).2.1 rfl
    simp only [numberBody, List.mem_append, not_or]
    exact ⟨⟨⟨⟨by decide, hnul⟩, by decide⟩, hdigits⟩, by decide⟩
  · simp only [numberBody, List.length_append]
    omega

/-- The methods of the client as words. -/
theorem word_method : ∀ m ∈ [ascii "GET", ascii "POST", ascii "PATCH", ascii "DELETE"],
    Word m ∧ m.length ≤ 15 := by
  intro m hm
  fin_cases hm <;> exact ⟨⟨by decide +kernel, by decide +kernel, by decide +kernel⟩, by decide +kernel⟩

theorem word_literal : ∀ p ∈ [ascii "/stock", ascii "/balance", ascii "/orders", ascii "/stock/",
    ascii "/items/"], Word p ∧ p.length ≤ 10 := by
  intro p hp
  fin_cases hp <;> exact ⟨⟨by decide +kernel, by decide +kernel, by decide +kernel⟩, by decide +kernel⟩

def ApiCall.auth (userId : Int32) : ApiCall → Auth
  | .restock _ _ | .setPrice _ _ => ⟨.admin, 0⟩
  | _ => ⟨.user, userId⟩

/-- The request that the server parses for a call. -/
def ApiCall.parsed (userId : Int32) (call : ApiCall) : Request :=
  match call with
  | .getStock => ⟨some .get, ascii "/stock", [], call.auth userId⟩
  | .getBalance => ⟨some .get, ascii "/balance", [], call.auth userId⟩
  | .deposit amountGr =>
      ⟨some .post, ascii "/balance", numberBody "amount_gr" amountGr, call.auth userId⟩
  | .purchase slotId =>
      ⟨some .post, ascii "/orders", numberBody "slot_id" slotId, call.auth userId⟩
  | .refund => ⟨some .delete, ascii "/balance", [], call.auth userId⟩
  | .restock slotId qty =>
      ⟨some .patch, ascii "/stock/" ++ formatInt slotId, numberBody "qty" qty, call.auth userId⟩
  | .setPrice itemId priceGr =>
      ⟨some .patch, ascii "/items/" ++ formatInt itemId, numberBody "price_gr" priceGr,
        call.auth userId⟩

/-- A request without a body. -/
theorem received_plain {o : CurlOptions} (m : CurlMessage c.baseUrl o) (hsize : m.bytes.length ≤ 2047)
    {method path : CString} {useAdmin : Bool} (ho : o = doRequest c method path none useAdmin)
    (hmethod : Word method ∧ method.length ≤ 15) (hpath : Word path ∧ path.length ≤ 10)
    (hbody : o.body = []) (adminToken : CString) :
    received adminToken [m.bytes] =
      some ⟨parseMethod method, path, [], authParse (bearer c useAdmin) adminToken⟩ := by
  subst ho
  have hreceived := received_message hmethod.1 hmethod.2 hpath.1 (hpath.2.trans (by decide))
    (by simp [hbody]) (by simp [hbody]) m hsize adminToken
  rwa [hbody] at hreceived

/-- A request with a number in its body. -/
theorem received_number {o : CurlOptions} (m : CurlMessage c.baseUrl o)
    (hsize : m.bytes.length ≤ 2047) {method path : CString} {body : Option CString} {useAdmin : Bool}
    (ho : o = doRequest c method path body useAdmin) {key : String} {x : Int32}
    (hmethod : Word method ∧ method.length ≤ 15) (hpath : Word path) (hpathLen : path.length ≤ 63)
    (hkey : 0 ∉ ascii key ∧ (ascii key).length ≤ 40) (hbody : o.body = numberBody key x)
    (adminToken : CString) :
    received adminToken [m.bytes] = some ⟨parseMethod method, path, numberBody key x,
      authParse (bearer c useAdmin) adminToken⟩ := by
  subst ho
  have hsend := numberBody_sendable hkey.1 hkey.2 x
  have hreceived := received_message hmethod.1 hmethod.2 hpath hpathLen
    (by rw [hbody]; exact hsend.1) (by rw [hbody]; exact hsend.2) m hsize adminToken
  rwa [hbody] at hreceived

theorem numberPath_length {first : CString} (hfirst : Word first ∧ first.length ≤ 10) (x : Int32) :
    (first ++ formatInt x).length ≤ 63 := by
  have hlen := formatInt_length x
  have hshort := hfirst.2
  rw [List.length_append]
  omega

theorem numberPath_eq {first : CString} (hfirst : Word first ∧ first.length ≤ 10) (x : Int32) :
    snprintf 64 (first ++ formatInt x) = first ++ formatInt x :=
  snprintf_of_length (Nat.lt_succ_of_le (numberPath_length hfirst x))

theorem received_parsed (c : ApiClient) (hpos : 0 < c.userId.toInt) (hne : c.adminToken ≠ [])
    (hnum : ¬ IsNumeral c.adminToken) (call : ApiCall) (m : CurlMessage c.baseUrl (call.options c))
    (hsize : m.bytes.length ≤ 2047) :
    received c.adminToken [m.bytes] = some (call.parsed c.userId) := by
  have huser : authParse (bearer c false) c.adminToken = ⟨.user, c.userId⟩ :=
    authParse_user hpos hnum
  have hadmin : authParse (bearer c true) c.adminToken = ⟨.admin, 0⟩ := authParse_admin hne
  cases call with
  | getStock =>
    rw [received_plain m hsize rfl (word_method _ (by simp)) (word_literal _ (by simp)) rfl, huser]
    rfl
  | getBalance =>
    rw [received_plain m hsize rfl (word_method _ (by simp)) (word_literal _ (by simp)) rfl, huser]
    rfl
  | refund =>
    rw [received_plain m hsize rfl (word_method _ (by simp)) (word_literal _ (by simp)) rfl, huser]
    rfl
  | deposit amountGr =>
    have hpath := word_literal (ascii "/balance") (by simp)
    rw [received_number m hsize rfl (word_method _ (by simp)) hpath.1 (hpath.2.trans (by decide))
      (by decide) (jsonNumber_eq "amount_gr" amountGr (by decide)), huser]
    rfl
  | purchase slotId =>
    have hpath := word_literal (ascii "/orders") (by simp)
    rw [received_number m hsize rfl (word_method _ (by simp)) hpath.1 (hpath.2.trans (by decide))
      (by decide) (jsonNumber_eq "slot_id" slotId (by decide)), huser]
    rfl
  | restock slotId qty =>
    have hpath := word_literal (ascii "/stock/") (by simp)
    have ho : (ApiCall.restock slotId qty).options c = doRequest c (ascii "PATCH")
        (ascii "/stock/" ++ formatInt slotId) (some (jsonNumber "qty" qty)) true :=
      congrArg (fun path => doRequest c (ascii "PATCH") path _ true) (numberPath_eq hpath slotId)
    rw [received_number m hsize ho (word_method _ (by simp)) (word_of_path hpath.1 slotId)
      (numberPath_length hpath slotId) (by decide) (jsonNumber_eq "qty" qty (by decide)), hadmin]
    rfl
  | setPrice itemId priceGr =>
    have hpath := word_literal (ascii "/items/") (by simp)
    have ho : (ApiCall.setPrice itemId priceGr).options c = doRequest c (ascii "PATCH")
        (ascii "/items/" ++ formatInt itemId) (some (jsonNumber "price_gr" priceGr)) true :=
      congrArg (fun path => doRequest c (ascii "PATCH") path _ true) (numberPath_eq hpath itemId)
    rw [received_number m hsize ho (word_method _ (by simp)) (word_of_path hpath.1 itemId)
      (numberPath_length hpath itemId) (by decide) (jsonNumber_eq "price_gr" priceGr (by decide)),
      hadmin]
    rfl

end Sshnack.Tui
