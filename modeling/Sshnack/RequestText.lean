import Sshnack.HttpRequest

/-!
# The text of a request and what is parsed of it

A text is taken apart at its line ends: whole header lines, then either the blank line with what
follows it or an unfinished line. `headerLoop_lines` runs the loop of `parse_request` over the whole
lines, so the parsed request is known for a complete text as well as for one that stops early.
-/

namespace Sshnack

/-- A word of the request line. -/
structure Word (w : CString) : Prop where
  nonempty : w ≠ []
  noSpace : ∀ c ∈ w, isSpace c = false
  noNul : 0 ∉ w

structure HeaderLine (line : CString) : Prop where
  nonempty : line ≠ []
  noCr : 13 ∉ line
  noLf : 10 ∉ line
  noNul : 0 ∉ line

/-- A line that the loop goes through. -/
def TextLine (line : CString) : Prop := line ≠ [] ∧ ¬ crlf <:+: line

theorem HeaderLine.textLine {line : CString} (h : HeaderLine line) : TextLine line :=
  ⟨h.nonempty, crlf_not_within (by decide) h.noCr⟩

def headerBytes (lines : List CString) : CString := lines.flatMap (· ++ crlf)

/-- The bearer token that the loop holds after some lines. -/
def bearerAfter (bearer : CString) (lines : List CString) : CString :=
  lines.foldl (fun bearer line => (bearerOf line).getD bearer) bearer

/-- The credentials that some header lines give. -/
def credentials (adminToken : CString) (lines : List CString) : Auth :=
  authParse (bearerAfter [] lines) adminToken

theorem not_mem_of_noSpace {w : CString} (hw : ∀ c ∈ w, isSpace c = false) {c : UInt8}
    (hc : isSpace c = true) : c ∉ w := by
  intro hmem
  rw [hw c hmem] at hc
  cases hc

theorem headerBytes_length (lines : List CString) : lines.length ≤ (headerBytes lines).length := by
  induction lines with
  | nil => exact le_rfl
  | cons line lines ih =>
    simp only [headerBytes, List.flatMap_cons, List.length_append, List.length_cons, crlf] at ih ⊢
    omega

theorem headerBytes_noNul {lines : List CString} (h : ∀ line ∈ lines, HeaderLine line) :
    0 ∉ headerBytes lines := by
  intro hmem
  obtain ⟨line, hline, hzero⟩ := List.mem_flatMap.1 hmem
  rcases List.mem_append.1 hzero with hzero | hzero
  · exact (h line hline).noNul hzero
  · exact absurd hzero (by decide)

/-- The loop goes through whole lines and keeps the last bearer token. -/
theorem headerLoop_lines {lines : List CString} (h : ∀ line ∈ lines, TextLine line) (k : ℕ)
    (rest bearer : CString) : headerLoop (lines.length + k) (headerBytes lines ++ rest) bearer =
      headerLoop k rest (bearerAfter bearer lines) := by
  induction lines generalizing bearer with
  | nil => simp [headerBytes, bearerAfter]
  | cons line lines ih =>
    have hline := h line List.mem_cons_self
    have hsplit : splitCrlf (headerBytes (line :: lines) ++ rest) =
        some (line, headerBytes lines ++ rest) := by
      have hbytes : headerBytes (line :: lines) ++ rest =
          line ++ 13 :: 10 :: (headerBytes lines ++ rest) := by
        simp [headerBytes, crlf]
      rw [hbytes, splitCrlf_append hline.2]
    have hfuel : (line :: lines).length + k = lines.length + k + 1 := by
      rw [List.length_cons]
      omega
    rw [hfuel, headerLoop, hsplit]
    cases line with
    | nil => exact absurd rfl hline.1
    | cons c line =>
      exact ih (fun l hl => h l (List.mem_cons_of_mem _ hl)) _

/-- The loop stops behind the blank line. -/
theorem headerLoop_closed {lines : List CString} (h : ∀ line ∈ lines, TextLine line) {fuel : ℕ}
    (hfuel : lines.length < fuel) (body : CString) :
    headerLoop fuel (headerBytes lines ++ (crlf ++ body)) [] = (bearerAfter [] lines, body) := by
  obtain ⟨k, rfl⟩ := Nat.exists_eq_add_of_lt hfuel
  rw [add_assoc, headerLoop_lines h]
  rfl

/-- The loop stops at an unfinished line. -/
theorem headerLoop_open {lines : List CString} (h : ∀ line ∈ lines, TextLine line) {fuel : ℕ}
    (hfuel : lines.length < fuel) {tail : CString} (htail : ¬ crlf <:+: tail) :
    headerLoop fuel (headerBytes lines ++ tail) [] = (bearerAfter [] lines, tail) := by
  obtain ⟨k, rfl⟩ := Nat.exists_eq_add_of_lt hfuel
  rw [add_assoc, headerLoop_lines h, headerLoop, splitCrlf_none htail]

/-- The two words scanned off a text that starts with a word. -/
theorem scanWords_word {w rest : CString} (hw : ∀ c ∈ w, isSpace c = false) (hne : w ≠ [])
    (hrest : ∀ c ∈ rest.head?, isSpace c = true) : scanWords (w ++ rest) =
      if w.length ≤ 15 then (scanWord 63 (skipSpace rest)).map fun path => (w, path.1)
      else some (w.take 15, (w.drop 15).take 63) := by
  rw [scanWords, scanWord_word hw hne hrest (by decide), Option.bind_some]
  by_cases hlen : w.length ≤ 15
  · rw [if_pos hlen]
    simp only [List.take_of_length_le hlen, List.drop_eq_nil_of_le hlen, List.nil_append]
  · have hw' : ∀ c ∈ w.drop 15, isSpace c = false := fun c hc => hw c (List.mem_of_mem_drop hc)
    have hne' : w.drop 15 ≠ [] := by
      intro hnil
      have := List.drop_eq_nil_iff.1 hnil
      omega
    rw [if_neg hlen, skipSpace_word hw' hne', scanWord_word hw' hne' hrest (by decide)]
    rfl

/-- The path that is scanned off a request line: a method of more than 15 bytes is cut in two. -/
def scannedPath (method path : CString) : CString :=
  if method.length ≤ 15 then path.take 63 else (method.drop 15).take 63

theorem scanWords_line {method path : CString} (hmethod : Word method) (hpath : Word path)
    {rest : CString} (hrest : ∀ c ∈ rest.head?, isSpace c = true) :
    scanWords (method ++ 32 :: (path ++ rest)) =
      some (method.take 15, scannedPath method path) := by
  have hspace : skipSpace (32 :: (path ++ rest)) = path ++ rest :=
    skipSpace_word hpath.noSpace hpath.nonempty rest
  rw [scanWords_word hmethod.noSpace hmethod.nonempty (by simp [isSpace]), hspace,
    scanWord_word hpath.noSpace hpath.nonempty hrest (by decide), scannedPath]
  by_cases hlen : method.length ≤ 15
  · rw [if_pos hlen, if_pos hlen, List.take_of_length_le hlen]
    rfl
  · rw [if_neg hlen, if_neg hlen]

/-- The value of a `Content-Length` line. -/
def contentLengthOf (line : CString) : Option ℕ :=
  if (line.take 15).map toLower = ascii "content-length:" then
    some (digitsValue ((skipSpace (line.drop 15)).takeWhile isDigit))
  else none

def declaredLength (headers : List CString) : ℕ := (headers.findSome? contentLengthOf).getD 0

/-- Request line, headers, blank line and a body of the declared length. -/
structure CompleteRequest where
  method : CString
  path : CString
  version : CString
  headers : List CString
  body : List UInt8
  method_word : Word method
  path_word : Word path
  version_word : Word version
  headers_lines : ∀ line ∈ headers, HeaderLine line
  body_declared : body.length = declaredLength headers

theorem cString_take (bytes : List UInt8) (n : ℕ) : cString (bytes.take n) = (cString bytes).take n :=
  List.take_takeWhile.symm

theorem cString_append {head : CString} (h : 0 ∉ head) (bytes : List UInt8) :
    cString (head ++ bytes) = head ++ cString bytes := by
  unfold cString
  rw [List.takeWhile_append_of_pos]
  intro c hc
  have hzero : c ≠ 0 := fun heq => h (heq ▸ hc)
  exact decide_eq_true hzero

theorem cString_of_noNul {s : CString} (h : 0 ∉ s) : cString s = s := by
  simpa [cString] using cString_append h []

namespace CompleteRequest

variable (r : CompleteRequest)

def line : CString := r.method ++ 32 :: (r.path ++ 32 :: r.version)

def head : CString := r.line ++ (crlf ++ (headerBytes r.headers ++ crlf))

def bytes : List UInt8 := r.head ++ r.body

theorem line_noNul : 0 ∉ r.line := by
  simp only [line, List.mem_append, List.mem_cons, not_or]
  exact ⟨r.method_word.noNul, by decide, r.path_word.noNul, by decide, r.version_word.noNul⟩

theorem line_noCr : 13 ∉ r.line := by
  have h : isSpace 13 = true := by decide
  simp only [line, List.mem_append, List.mem_cons, not_or]
  exact ⟨not_mem_of_noSpace r.method_word.noSpace h, by decide,
    not_mem_of_noSpace r.path_word.noSpace h, by decide,
    not_mem_of_noSpace r.version_word.noSpace h⟩

theorem line_noLf : 10 ∉ r.line := by
  have h : isSpace 10 = true := by decide
  simp only [line, List.mem_append, List.mem_cons, not_or]
  exact ⟨not_mem_of_noSpace r.method_word.noSpace h, by decide,
    not_mem_of_noSpace r.path_word.noSpace h, by decide,
    not_mem_of_noSpace r.version_word.noSpace h⟩

theorem head_noNul : 0 ∉ r.head := by
  have hlines := headerBytes_noNul r.headers_lines
  have hcrlf : 0 ∉ crlf := by decide
  simp only [head, List.mem_append, not_or]
  exact ⟨r.line_noNul, hcrlf, hlines, hcrlf⟩

theorem cString_bytes : cString r.bytes = r.head ++ cString r.body :=
  cString_append r.head_noNul r.body

/-- What is parsed of a text that holds the whole request line. -/
theorem parseRequest_line (adminToken p : CString) :
    parseRequest adminToken (r.line ++ (crlf ++ p)) =
      ⟨parseMethod (r.method.take 15), scannedPath r.method r.path,
        (headerLoop (p.length + 1) p []).2.take 511,
        authParse (headerLoop (p.length + 1) p []).1 adminToken⟩ := by
  have hwords : scanWords (r.line ++ (crlf ++ p)) =
      some (r.method.take 15, scannedPath r.method r.path) := by
    have hshape : r.line ++ (crlf ++ p) =
        r.method ++ 32 :: (r.path ++ 32 :: (r.version ++ (crlf ++ p))) := by
      simp [line]
    rw [hshape]
    exact scanWords_line r.method_word r.path_word (by simp [isSpace])
  have hsplit : splitCrlf (r.line ++ (crlf ++ p)) = some (r.line, p) :=
    splitCrlf_append (crlf_not_within (by decide) r.line_noCr) p
  simp only [parseRequest, hwords, hsplit]

theorem parseRequest_closed (adminToken body : CString) :
    parseRequest adminToken (r.head ++ body) =
      ⟨parseMethod (r.method.take 15), scannedPath r.method r.path, body.take 511,
        credentials adminToken r.headers⟩ := by
  have hshape : r.head ++ body = r.line ++ (crlf ++ (headerBytes r.headers ++ (crlf ++ body))) := by
    simp [head]
  have hlen := headerBytes_length r.headers
  rw [hshape, r.parseRequest_line,
    headerLoop_closed fun line hline => (r.headers_lines line hline).textLine]
  · rfl
  · rw [List.length_append]
    omega

theorem parseRequest_open (adminToken : CString) {lines : List CString}
    (hlines : ∀ line ∈ lines, HeaderLine line) {tail : CString} (htail : 10 ∉ tail) :
    parseRequest adminToken (r.line ++ (crlf ++ (headerBytes lines ++ tail))) =
      ⟨parseMethod (r.method.take 15), scannedPath r.method r.path, tail.take 511,
        credentials adminToken lines⟩ := by
  have hlen := headerBytes_length lines
  rw [r.parseRequest_line, headerLoop_open (fun line hline => (hlines line hline).textLine) _
    (crlf_not_within (by decide) htail)]
  · rfl
  · rw [List.length_append]
    omega

end CompleteRequest
end Sshnack
