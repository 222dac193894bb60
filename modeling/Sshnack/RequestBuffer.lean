import Mathlib.Data.List.DropRight
import Sshnack.BufferScans
import Sshnack.RequestText

/-!
# Parsing a request in its buffer

`parseRequestAt` is `parse_request` with its pointers: positions in the buffer, a `bearer` array of
128 bytes and the length that is copied to it. It has no result if an access leaves an array, if the
difference that becomes the length is negative, or if a loop does not end within the size of the
buffer. On every NUL-terminated buffer it has the result of `parseRequest` on the text, and on a
well-formed request that is the method, the path, the body and the credentials that were sent.
-/

namespace Sshnack

/-- `sscanf(raw, "%15s %63s", ..)`, if both conversions are made. -/
def scanWordsAt (buf : List UInt8) : Option (Option (CString × CString)) := do
  let p ← skipSpaceAt buf (buf.length + 1) 0
  let (method, p) ← wordAt buf 15 p
  if method = [] then return none else
  let p ← skipSpaceAt buf (buf.length + 1) p
  let (path, _) ← wordAt buf 63 p
  if path = [] then return none else
  return some (method, path)

/-- The token between `p + 22` and `lineEnd` into `bearer`. -/
def copyToken (buf : List UInt8) (p lineEnd : ℕ) (bearer : Vector UInt8 128) :
    Option (Vector UInt8 128) := do
  let tlen : Int := lineEnd - (p + 22)
  if tlen < 0 then none else
  let tlen := if 128 ≤ tlen then 127 else tlen.toNat
  let bearer ← memcpyAt buf (p + 22) tlen 0 bearer
  store bearer tlen 0

/-- `p[0] == '\r' && p[1] == '\n'`. -/
def blankLineAt (buf : List UInt8) (p : ℕ) : Option Bool := do
  let c ← buf[p]?
  if c ≠ 13 then return false else
  let c' ← buf[p + 1]?
  return decide (c' = 10)

/-- The credentials of the line at `p`, if it has some. -/
def keepToken (buf : List UInt8) (p lineEnd : ℕ) (bearer : Vector UInt8 128) :
    Option (Vector UInt8 128) := do
  if ← startsWithAt buf p bearerPrefix then copyToken buf p lineEnd bearer else return bearer

def headerLoopAt (buf : List UInt8) : ℕ → ℕ → Vector UInt8 128 → Option (Vector UInt8 128 × ℕ)
  | 0, _, _ => none
  | fuel + 1, p, bearer => do
    let c ← buf[p]?
    if c = 0 then return (bearer, p) else
    if ← blankLineAt buf p then return (bearer, p + 2) else
    match ← strstrCrlf buf (buf.length + 1) p with
    | none => return (bearer, p)
    | some lineEnd =>
      let bearer ← keepToken buf p lineEnd bearer
      headerLoopAt buf fuel (lineEnd + 2) bearer

def parseRequestAt (adminToken : CString) (buf : List UInt8) : Option Request := do
  match ← scanWordsAt buf with
  | none => return ⟨none, [], [], noAuth⟩
  | some (method, path) =>
    match ← strstrCrlf buf (buf.length + 1) 0 with
    | none => return ⟨parseMethod method, path, [], noAuth⟩
    | some lineEnd =>
      let (bearer, p) ← headerLoopAt buf (buf.length + 1) (lineEnd + 2) (Vector.replicate 128 0)
      let body ← strncpyAt buf 511 p
      let token ← cstr bearer
      return ⟨parseMethod method, path, body, authParse token adminToken⟩

variable {buf : List UInt8} {p : ℕ} {t : CString}

theorem scanWordsAt_eq (h : PointsTo buf 0 t) : scanWordsAt buf = some (scanWords t) := by
  obtain ⟨p₁, hp₁, h₁⟩ := skipSpaceAt_eq h h.fuel
  obtain ⟨p₂, hp₂, h₂⟩ := wordAt_eq h₁ 15
  obtain ⟨p₃, hp₃, h₃⟩ := skipSpaceAt_eq h₂ h₂.fuel
  obtain ⟨p₄, hp₄, -⟩ := wordAt_eq h₃ 63
  have hidem (s : CString) : skipSpace (skipSpace s) = skipSpace s :=
    List.dropWhile_idempotent isSpace s
  simp only [scanWordsAt, hp₁, hp₂, hp₃, hp₄, Option.bind_eq_bind, Option.bind_some, scanWords,
    scanWord_eq, hidem]
  split_ifs with hmethod hpath
  · rfl
  · rw [Option.bind_some, if_pos hpath]
    rfl
  · rw [Option.bind_some, if_neg hpath]
    rfl

/-- The token of a line that starts with the prefix, in the array. -/
theorem copyToken_eq {line rest : CString} (h : PointsTo buf p (line ++ rest))
    (hlen : 22 ≤ line.length) (bearer : Vector UInt8 128) :
    ∃ bearer', copyToken buf p (p + line.length) bearer = some bearer' ∧
      cstr bearer' = some ((line.drop 22).take 127) := by
  obtain ⟨hnul, tail, hdrop⟩ := h
  have hsize : ((line.drop 22).take 127).length =
      if (128 : Int) ≤ ((p + line.length : ℕ) : Int) - (p + 22) then 127
      else (((p + line.length : ℕ) : Int) - (p + 22)).toNat := by
    rw [List.length_take, List.length_drop]
    split_ifs <;> omega
  have hsrc : buf.drop (p + 22 + 0) = (line.drop 22).take 127 ++
      ((line.drop 22).drop 127 ++ (rest ++ 0 :: tail)) := by
    rw [add_zero, ← List.drop_drop, hdrop, List.append_assoc, List.drop_append_of_le_length hlen,
      ← List.append_assoc ((line.drop 22).take 127), List.take_append_drop]
  have hfits : ((line.drop 22).take 127).length < 128 := by
    rw [List.length_take]
    omega
  have htoken : 0 ∉ (line.drop 22).take 127 := fun hmem =>
    hnul (List.mem_append_left _ (List.mem_of_mem_drop (List.mem_of_mem_take hmem)))
  generalize (line.drop 22).take 127 = token at hsize hsrc hfits htoken
  obtain ⟨copied, hcopy, hlist⟩ := memcpyAt_eq bearer hsrc (by omega)
  refine ⟨copied.set token.length 0 hfits, ?_, cstr_iff.2 ⟨htoken, ?_⟩⟩
  · have hnonneg : ¬ ((p + line.length : ℕ) : Int) - (p + 22) < 0 := by omega
    simp only [copyToken, if_neg hnonneg, ← hsize, hcopy, Option.bind_eq_bind, Option.bind_some,
      store_of_lt copied 0 hfits]
  · refine ⟨(bearer.toList.drop token.length).tail, ?_⟩
    have hrest : bearer.toList.drop token.length ≠ [] := by
      intro hnil
      have hle := List.drop_eq_nil_iff.1 hnil
      rw [Vector.length_toList] at hle
      omega
    obtain ⟨c, rest', hc⟩ := List.exists_cons_of_ne_nil hrest
    rw [Vector.toList_set, hlist, List.take_zero, List.nil_append, zero_add, hc]
    simp

/-- The prefix has no CR, so it is found within the line or not at all. -/
theorem bearerPrefix_iff (line rest : CString) :
    ((line ++ 13 :: rest).take 22).map toLower = bearerPrefix ↔
      (line.take 22).map toLower = bearerPrefix := by
  by_cases hlen : 22 ≤ line.length
  · rw [List.take_append_of_le_length hlen]
  · refine iff_of_false ?_ ?_
    · intro h
      have hcr : (13 : UInt8) ∈ ((line ++ 13 :: rest).take 22).map toLower := by
        rw [List.take_append, List.map_append]
        obtain ⟨k, hk⟩ := Nat.exists_eq_add_of_lt (Nat.lt_of_not_le hlen)
        rw [show 22 - line.length = k + 1 by omega, List.take_succ_cons]
        exact List.mem_append_right _ (List.mem_cons_self)
      rw [h] at hcr
      exact absurd hcr (by decide)
    · intro h
      have hlength := congrArg List.length h
      rw [List.length_map, List.length_take, show bearerPrefix.length = 22 by decide] at hlength
      omega

theorem blankLineAt_eq {c : UInt8} (h : PointsTo buf p (c :: t)) :
    blankLineAt buf p = some (decide (c = 13 ∧ t.head? = some 10)) := by
  by_cases hc : c = 13
  · cases t <;> simp [blankLineAt, h.read_cons, h.tail.read, hc]
  · simp [blankLineAt, h.read_cons, hc]

theorem keepToken_eq {line rest token : CString} {bearer : Vector UInt8 128}
    (h : PointsTo buf p (line ++ 13 :: rest)) (hbearer : cstr bearer = some token) :
    ∃ bearer', keepToken buf p (p + line.length) bearer = some bearer' ∧
      cstr bearer' = some ((bearerOf line).getD token) := by
  have hlength : bearerPrefix.length = 22 := by decide
  have hfound := startsWithAt_eq h (s := bearerPrefix) (by decide)
  rw [hlength] at hfound
  simp only [keepToken, hfound, bearerPrefix_iff, Option.bind_eq_bind, Option.bind_some, bearerOf]
  by_cases hline : (line.take 22).map toLower = bearerPrefix
  · have hlen : 22 ≤ line.length := by
      have hsize := congrArg List.length hline
      rw [List.length_map, List.length_take, hlength] at hsize
      omega
    obtain ⟨bearer', hcopy, hcstr⟩ := copyToken_eq h hlen bearer
    refine ⟨bearer', ?_, ?_⟩
    · rw [decide_eq_true hline, if_pos rfl, hcopy]
    · rw [if_pos hline]
      exact hcstr
  · refine ⟨bearer, ?_, ?_⟩
    · rw [decide_eq_false hline]
      rfl
    · rw [if_neg hline]
      exact hbearer

/-- Around the loop, `p` points to the text that is left and `bearer` holds the token so far. -/
theorem headerLoopAt_eq {fuel k : ℕ} {bearer : Vector UInt8 128} {token : CString}
    (h : PointsTo buf p t) (hfuel : t.length < fuel) (hk : t.length < k)
    (hbearer : cstr bearer = some token) :
    ∃ bearer' p', headerLoopAt buf fuel p bearer = some (bearer', p') ∧
      cstr bearer' = some (headerLoop k t token).1 ∧ PointsTo buf p' (headerLoop k t token).2 := by
  induction fuel generalizing k p t bearer token with
  | zero => omega
  | succ fuel ih =>
    obtain ⟨k, rfl⟩ := Nat.exists_eq_succ_of_ne_zero (Nat.ne_zero_of_lt hk)
    cases t with
    | nil => exact ⟨bearer, p, by simp [headerLoopAt, h.read_nil], hbearer, h⟩
    | cons c t =>
      simp only [headerLoopAt, h.read_cons, Option.bind_eq_bind, Option.bind_some, if_neg h.ne_zero,
        blankLineAt_eq h, strstrCrlf_eq h h.fuel, headerLoop]
      by_cases hcrlf : c = 13 ∧ t.head? = some 10
      · obtain ⟨rfl, hlf⟩ := hcrlf
        obtain ⟨rest, rfl⟩ : ∃ rest, t = 10 :: rest := List.head?_eq_some_iff.1 hlf
        refine ⟨bearer, p + 2, by simp, ?_⟩
        rw [show splitCrlf (13 :: 10 :: rest) = some ([], rest) from rfl]
        exact ⟨hbearer, h.tail.tail⟩
      · simp only [hcrlf, decide_false, Bool.false_eq_true, if_false]
        cases hsplit : splitCrlf (c :: t) with
        | none => exact ⟨bearer, p, rfl, hbearer, h⟩
        | some r =>
          obtain ⟨line, rest⟩ := r
          have hshape := (splitCrlf_eq_some hsplit).1
          rw [hshape] at h hfuel hk
          have hrest : PointsTo buf (p + line.length + 2) rest :=
            h.advance.tail.tail
          obtain ⟨bearer₁, hkeep, hbearer₁⟩ := keepToken_eq h hbearer
          cases line with
          | nil =>
            rw [List.nil_append, List.cons.injEq] at hshape
            exact absurd ⟨hshape.1, by rw [hshape.2]; rfl⟩ hcrlf
          | cons c' line =>
            simp only [List.length_append, List.length_cons] at hfuel hk
            obtain ⟨bearer', p', hloop, hdone⟩ := ih hrest (by omega) (by omega : _ < k) hbearer₁
            refine ⟨bearer', p', ?_, hdone⟩
            simp only [Option.map_some, hkeep, Option.bind_some, hloop]

/-- On every NUL-terminated buffer the parser stays in bounds, ends, and returns what it parses of
the text. -/
theorem parseRequestAt_eq (adminToken : CString) (h : PointsTo buf 0 t) :
    parseRequestAt adminToken buf = some (parseRequest adminToken t) := by
  have hfind := strstrCrlf_eq h h.fuel
  unfold parseRequestAt parseRequest
  simp only [scanWordsAt_eq h, Option.bind_eq_bind, Option.bind_some]
  cases hwords : scanWords t with
  | none => rfl
  | some words =>
    obtain ⟨method, path⟩ := words
    simp only [hfind, Option.bind_some]
    cases hsplit : splitCrlf t with
    | none => rfl
    | some r =>
      obtain ⟨line, rest⟩ := r
      have hrest : PointsTo buf (0 + line.length + 2) rest := by
        have hshape : t = (line ++ [13, 10]) ++ rest := by
          rw [(splitCrlf_eq_some hsplit).1]
          simp
        rw [hshape] at h
        simpa using h.advance
      have hempty : cstr (Vector.replicate 128 (0 : UInt8)) = some [] := by decide
      obtain ⟨bearer, p, hloop, hbearer, hp⟩ :=
        headerLoopAt_eq hrest hrest.fuel (Nat.lt_succ_self _) hempty
      simp only [Option.map_some, hloop, Option.bind_some, strncpyAt_eq hp, hbearer]
      rfl

/-! ### Well-formed requests -/

def methodText : Method → CString
  | .get => ascii "GET"
  | .post => ascii "POST"
  | .patch => ascii "PATCH"
  | .delete => ascii "DELETE"

/-- A request whose parts fit the arrays of `request_t`. -/
structure PlainRequest where
  method : Method
  path : CString
  version : CString
  headers : List CString
  body : CString
  path_word : Word path
  path_fits : path.length ≤ 63
  version_line : 13 ∉ version ∧ 0 ∉ version
  headers_lines : ∀ line ∈ headers, HeaderLine line
  body_text : 0 ∉ body
  body_fits : body.length ≤ 511

def PlainRequest.text (r : PlainRequest) : CString :=
  methodText r.method ++ 32 :: (r.path ++ 32 :: (r.version ++
    (crlf ++ (headerBytes r.headers ++ (crlf ++ r.body)))))

/-- The line starts with `Authorization: Bearer `, in any case. -/
def isBearerLine (line : CString) : Bool := (line.take 22).map toLower = bearerPrefix

/-- The first 127 bytes behind the prefix of the last such line. -/
def lastBearer (lines : List CString) : CString :=
  match (lines.filter isBearerLine).getLast? with
  | none => []
  | some line => (line.drop 22).take 127

theorem bearerAfter_eq_lastBearer (lines : List CString) :
    bearerAfter [] lines = lastBearer lines := by
  induction lines using List.reverseRecOn with
  | nil => rfl
  | append_singleton lines line ih =>
    have hlast : bearerAfter [] (lines ++ [line]) = (bearerOf line).getD (bearerAfter [] lines) := by
      rw [bearerAfter, List.foldl_append]
      rfl
    rw [hlast, lastBearer, List.filter_append, bearerOf]
    by_cases hline : (line.take 22).map toLower = bearerPrefix
    · rw [if_pos hline, List.filter_cons_of_pos (by simpa [isBearerLine] using hline)]
      simp
    · rw [if_neg hline, List.filter_cons_of_neg (by simpa [isBearerLine] using hline), ih]
      simp [lastBearer]

namespace PlainRequest

variable (r : PlainRequest)

theorem methodText_word (m : Method) : Word (methodText m) ∧ (methodText m).length ≤ 15 ∧
    parseMethod (methodText m) = some m := by
  cases m <;> exact ⟨⟨by decide +kernel, by decide +kernel, by decide +kernel⟩, by decide +kernel,
    by decide⟩

theorem text_noNul : 0 ∉ r.text := by
  have hlines := headerBytes_noNul r.headers_lines
  have hcrlf : 0 ∉ crlf := by decide
  simp only [text, List.mem_append, List.mem_cons, not_or]
  exact ⟨(methodText_word r.method).1.noNul, by decide, r.path_word.noNul, by decide,
    r.version_line.2, hcrlf, hlines, hcrlf, r.body_text⟩

theorem parseRequest_text (adminToken : CString) : parseRequest adminToken r.text =
    ⟨some r.method, r.path, r.body, authParse (lastBearer r.headers) adminToken⟩ := by
  obtain ⟨hword, hshort, hparse⟩ := methodText_word r.method
  have hwords : scanWords r.text = some (methodText r.method, r.path) := by
    rw [text, scanWords_line hword r.path_word (by simp [isSpace]), scannedPath, if_pos hshort,
      List.take_of_length_le hshort, List.take_of_length_le r.path_fits]
  have hcr : isSpace 13 = true := by decide
  have hline : 13 ∉ methodText r.method ++ 32 :: (r.path ++ 32 :: r.version) := by
    simp only [List.mem_append, List.mem_cons, not_or]
    exact ⟨not_mem_of_noSpace hword.noSpace hcr, by decide,
      not_mem_of_noSpace r.path_word.noSpace hcr, by decide, r.version_line.1⟩
  have hsplit : splitCrlf r.text = some (methodText r.method ++ 32 :: (r.path ++ 32 :: r.version),
      headerBytes r.headers ++ (crlf ++ r.body)) := by
    rw [← splitCrlf_append (crlf_not_within (by decide) hline)]
    simp [text, crlf]
  have hlen := headerBytes_length r.headers
  have hfuel : r.headers.length < (headerBytes r.headers ++ (crlf ++ r.body)).length + 1 := by
    rw [List.length_append]
    omega
  have hloop := headerLoop_closed (fun line hline => (r.headers_lines line hline).textLine)
    hfuel r.body
  simp only [parseRequest, hwords, hsplit, hloop, hparse, bearerAfter_eq_lastBearer,
    List.take_of_length_le r.body_fits]

/-- A well-formed request in a buffer is parsed in bounds into exactly what was sent. -/
theorem parseRequestAt_text (adminToken : CString) (rest : List UInt8) :
    parseRequestAt adminToken (r.text ++ 0 :: rest) =
      some ⟨some r.method, r.path, r.body, authParse (lastBearer r.headers) adminToken⟩ := by
  rw [parseRequestAt_eq adminToken (pointsTo_start r.text_noNul), r.parseRequest_text]

end PlainRequest

theorem stockPath_word : Word (ascii "/stock") :=
  ⟨by decide +kernel, by decide +kernel, by decide +kernel⟩

theorem stockPath_fits : (ascii "/stock").length ≤ 63 := by decide

theorem stockVersion_line : 13 ∉ ascii "HTTP/1.1" ∧ 0 ∉ ascii "HTTP/1.1" := by decide

theorem stockHeaders_lines : ∀ line ∈ [ascii "Host: vend", ascii "authorization: BEARER 7"],
    HeaderLine line := by
  intro line hline
  fin_cases hline <;>
    exact ⟨by decide, by decide, by decide, by decide⟩

theorem noBody_text : (0 : UInt8) ∉ ([] : CString) := List.not_mem_nil

theorem noBody_fits : ([] : CString).length ≤ 511 := Nat.zero_le 511

/-- User 7 asks for the stock. -/
def stockQuery : PlainRequest :=
  ⟨.get, ascii "/stock", ascii "HTTP/1.1", [ascii "Host: vend", ascii "authorization: BEARER 7"], [],
    stockPath_word, stockPath_fits, stockVersion_line, stockHeaders_lines, noBody_text,
    noBody_fits⟩

theorem parseRequestAt_stockQuery :
    parseRequestAt (ascii "admin") (stockQuery.text ++ [0]) =
      some ⟨some .get, ascii "/stock", [], ⟨.user, 7⟩⟩ := by
  rw [stockQuery.parseRequestAt_text]
  decide

end Sshnack
