import Sshnack.RequestBuffer
import Sshnack.RequestHeads
import Sshnack.Router

/-!
# Requests that do not fit their buffers

`parse_request` cuts the path at 63 bytes and the body at 511, and a NUL ends the text wherever it
stands. `parseRequest_body` says what is left of the body of any text. A request line that is too
short, or whose method is too long, is rejected; what is cut is handed on.
-/

namespace Sshnack

/-- What follows the first blank line. -/
def afterBlank : List UInt8 → Option (List UInt8)
  | [] => none
  | c :: s => if crlf ++ crlf <+: c :: s then some (s.drop 3) else afterBlank s

/-- What follows the last line break. -/
def unfinished : List UInt8 → List UInt8
  | [] => []
  | c :: s => if crlf <+: c :: s ∧ ¬ crlf <:+: s then s.drop 1 else unfinished s

/-! ### Blank lines -/

section Blank

variable {s t body : List UInt8}

theorem afterBlank_eq_some (h : afterBlank t = some body) :
    ∃ head, FirstBlank head ∧ t = head ++ body := by
  induction t with
  | nil => cases h
  | cons c s ih =>
    rw [afterBlank] at h
    split_ifs at h with hblank
    · obtain ⟨rest, hrest⟩ := hblank
      refine ⟨crlf ++ crlf, ⟨List.suffix_rfl, by decide⟩, ?_⟩
      have hbody : rest = body := by
        rw [← Option.some.inj h, ← (List.cons.inj hrest).2]
        rfl
      rw [← hrest, hbody]
    · obtain ⟨head, hhead, rfl⟩ := ih h
      have hne : head ≠ [] := by
        rintro rfl
        exact absurd hhead.closed (by decide)
      refine ⟨c :: head, ⟨hhead.closed.trans (List.suffix_cons c head), ?_⟩, rfl⟩
      rw [List.dropLast_cons_of_ne_nil hne]
      intro hwithin
      rcases List.infix_cons_iff.1 hwithin with hfront | hwithin
      · have hfront' : c :: head.dropLast <+: c :: (head ++ body) :=
          List.cons_prefix_cons.2 ⟨rfl, (List.dropLast_prefix head).trans (List.prefix_append _ _)⟩
        exact hblank (hfront.trans hfront')
      · exact hhead.first hwithin

theorem afterBlank_eq_none (h : afterBlank t = none) : ¬ crlf ++ crlf <:+: t := by
  induction t with
  | nil => decide
  | cons c s ih =>
    rw [afterBlank] at h
    split_ifs at h with hblank
    intro hwithin
    rcases List.infix_cons_iff.1 hwithin with hfront | hwithin
    · exact hblank hfront
    · exact ih h hwithin

theorem afterBlank_append (h : afterBlank t = some body) (u : List UInt8) :
    afterBlank (t ++ u) = some (body ++ u) := by
  induction t with
  | nil => cases h
  | cons c s ih =>
    rw [afterBlank] at h
    rw [List.cons_append, afterBlank]
    by_cases hblank : crlf ++ crlf <+: c :: s
    · have hlen : 3 ≤ s.length := by
        have hle := hblank.length_le
        simp only [crlf, List.length_append, List.length_cons] at hle
        simpa using hle
      have hblank' : crlf ++ crlf <+: c :: (s ++ u) :=
        hblank.trans (List.prefix_append (c :: s) u)
      rw [if_pos hblank] at h
      rw [if_pos hblank', List.drop_append_of_le_length hlen, Option.some.inj h]
    · rw [if_neg hblank] at h
      have hblank' : ¬ crlf ++ crlf <+: c :: (s ++ u) := by
        obtain ⟨head, hhead, rfl⟩ := afterBlank_eq_some h
        have hlen : 4 ≤ head.length := hhead.closed.length_le
        intro hfront
        have hlong : (crlf ++ crlf).length ≤ (c :: (head ++ body)).length := by
          simp only [crlf, List.length_append, List.length_cons, List.length_nil]
          omega
        exact hblank (List.prefix_of_prefix_length_le hfront (List.prefix_append _ u) hlong)
      rw [if_neg hblank', ih h]

theorem unfinished_append (s : CString) (ht : ¬ crlf <:+: t) :
    unfinished (s ++ (crlf ++ t)) = t := by
  induction s with
  | nil =>
    have hlf : ¬ crlf <:+: (10 : UInt8) :: t := by
      intro hwithin
      rcases List.infix_cons_iff.1 hwithin with hfront | hwithin
      · exact absurd (crlf_prefix_cons.1 hfront).1 (by decide)
      · exact ht hwithin
    rw [List.nil_append, crlf, List.cons_append, unfinished,
      if_pos ⟨crlf_prefix_cons.2 ⟨rfl, rfl⟩, hlf⟩]
    rfl
  | cons c s ih =>
    have hmem : crlf <:+: s ++ (crlf ++ t) := ⟨s, t, by simp⟩
    rw [List.cons_append, unfinished, if_neg fun h => h.2 hmem, ih]

theorem unfinished_none (h : ¬ crlf <:+: t) : unfinished t = [] := by
  induction t with
  | nil => rfl
  | cons c s ih =>
    have hfront : ¬ (crlf <+: c :: s ∧ ¬ crlf <:+: s) := fun hfront => h hfront.1.isInfix
    rw [unfinished, if_neg hfront, ih fun hwithin => h (hwithin.trans (List.suffix_cons c s).isInfix)]

/-- The body that is parsed of any text with two words. -/
theorem parseRequest_body (adminToken : CString) {raw : CString} {words : CString × CString}
    (hwords : scanWords raw = some words) :
    (parseRequest adminToken raw).method = parseMethod words.1 ∧
      (parseRequest adminToken raw).path = words.2 ∧
      (parseRequest adminToken raw).body = ((afterBlank raw).getD (unfinished raw)).take 511 := by
  cases hblank : afterBlank raw with
  | some body =>
    obtain ⟨head, hhead, rfl⟩ := afterBlank_eq_some hblank
    obtain ⟨auth, hparse⟩ := hhead.parseRequest adminToken
    rw [hparse, hwords]
    exact ⟨rfl, rfl, rfl⟩
  | none =>
    have hopen := afterBlank_eq_none hblank
    rcases splitCrlf_cases raw with ⟨line, p, hsplit⟩ | hline
    · obtain ⟨hraw, -⟩ := splitCrlf_eq_some hsplit
      obtain ⟨lines, hlines, ⟨body, rfl⟩ | ⟨tail, htail, rfl⟩⟩ := exists_lines p
      · exfalso
        obtain ⟨u, hu⟩ := crlf_suffix_headerBytes lines
        have hshape : raw = line ++ u ++ (crlf ++ crlf) ++ body := by
          have hraw' : raw = line ++ (crlf ++ headerBytes lines) ++ crlf ++ body := by
            simp [hraw, crlf]
          rw [hraw', ← hu]
          simp
        exact hopen ⟨line ++ u, body, hshape.symm⟩
      · obtain ⟨u, hu⟩ := crlf_suffix_headerBytes lines
        have hshape : raw = line ++ u ++ (crlf ++ tail) := by
          have hraw' : raw = line ++ (crlf ++ headerBytes lines) ++ tail := by simp [hraw, crlf]
          rw [hraw', ← hu]
          simp
        have hlen := headerBytes_length lines
        have hlast : unfinished raw = tail := hshape ▸ unfinished_append (line ++ u) htail
        simp only [parseRequest, hwords, hsplit, hlast, Option.getD_none]
        rw [headerLoop_open hlines (by rw [List.length_append]; omega) htail]
        exact ⟨trivial, trivial, rfl⟩
    · simp only [parseRequest, hwords, splitCrlf_none hline, unfinished_none hline]
      exact ⟨trivial, trivial, rfl⟩

end Blank

/-! ### Request lines -/

/-- A part of the request line; it may contain a NUL. -/
structure Token (w : List UInt8) : Prop where
  nonempty : w ≠ []
  noSpace : ∀ c ∈ w, isSpace c = false

/-- A received buffer that starts with a whole request line. -/
structure ReceivedRequest where
  method : List UInt8
  path : List UInt8
  version : List UInt8
  rest : List UInt8
  method_token : Token method
  path_token : Token path
  version_token : Token version

/-- The bytes of a buffer that reach the handler as its body are all that follow the blank line. -/
def BodyFits (bytes : List UInt8) : Prop :=
  (0 ∉ bytes ∧ ∃ body, afterBlank bytes = some body ∧ body.length ≤ 511) ∨
    -- a NUL before the blank line: the line that it cuts happens to be the body again
    (0 ∈ bytes ∧ afterBlank (cString bytes) = none ∧
      afterBlank bytes = some ((unfinished (cString bytes)).take 511))

theorem methodText_of_parseMethod {m : CString} {method : Method}
    (h : parseMethod m = some method) : m = methodText method := by
  unfold parseMethod at h
  split_ifs at h with hget hpost hpatch hdelete <;> cases h
  · exact hget
  · exact hpost
  · exact hpatch
  · exact hdelete

theorem methodText_length (method : Method) : (methodText method).length < 15 := by
  cases method <;> decide

theorem parseMethod_nul {m : CString} (h : 0 ∈ m) : parseMethod m = none := by
  by_contra hsome
  obtain ⟨method, hmethod⟩ := Option.ne_none_iff_exists'.1 hsome
  rw [methodText_of_parseMethod hmethod] at h
  exact (PlainRequest.methodText_word method).1.noNul h

theorem parseMethod_long {m : CString} (h : 15 ≤ m.length) : parseMethod m = none := by
  by_contra hsome
  obtain ⟨method, hmethod⟩ := Option.ne_none_iff_exists'.1 hsome
  rw [methodText_of_parseMethod hmethod] at h
  exact absurd (methodText_length method) (by omega)

theorem parseMethod_take (m : CString) : parseMethod (m.take 15) = parseMethod m := by
  by_cases hlen : m.length ≤ 15
  · rw [List.take_of_length_le hlen]
  · rw [parseMethod_long (by rw [List.length_take]; omega), parseMethod_long (by omega)]

/-- A text with one word is rejected, whatever its length. -/
theorem rejected_of_word (adminToken : CString) {w rest : CString}
    (hw : ∀ c ∈ w, isSpace c = false) (hrest : ∀ c ∈ rest.head?, isSpace c = true)
    (hskip : skipSpace rest = []) : (parseRequest adminToken (w ++ rest)).method = none := by
  by_cases hne : w = []
  · have hwords : scanWords (w ++ rest) = none := by
      rw [hne, List.nil_append, ← scanWords_skipSpace, hskip]
      rfl
    rw [parseRequest, hwords]
  · have hwords := scanWords_word hw hne hrest
    by_cases hlen : w.length ≤ 15
    · rw [if_pos hlen, hskip, scanWord_nil, Option.map_none] at hwords
      rw [parseRequest, hwords]
    · rw [if_neg hlen] at hwords
      rw [(parseRequest_body adminToken hwords).1, parseMethod_take, parseMethod_long (by omega)]

theorem cString_append_of_mem {s : List UInt8} (h : 0 ∈ s) (t : List UInt8) :
    cString (s ++ t) = cString s := by
  have hstop : s.takeWhile (· ≠ 0) ≠ s := by
    intro heq
    have hall := List.takeWhile_eq_self_iff.1 heq 0 h
    simp at hall
  have hlen : (s.takeWhile (· ≠ 0)).length ≠ s.length := fun hlen =>
    hstop ((List.takeWhile_prefix _).eq_of_length hlen)
  rw [cString, List.takeWhile_append, if_neg hlen, cString]

theorem bodyFits_iff (bytes : List UInt8) :
    afterBlank bytes = some (((afterBlank (cString bytes)).getD
      (unfinished (cString bytes))).take 511) ↔ BodyFits bytes := by
  by_cases hnul : 0 ∈ bytes
  · have hcut : cString bytes ++ bytes.dropWhile (· ≠ 0) = bytes :=
      List.takeWhile_append_dropWhile
    cases hblank : afterBlank (cString bytes) with
    | none => simp [BodyFits, hnul, hblank]
    | some body =>
      have hlong : bytes.dropWhile (· ≠ 0) ≠ [] := by
        intro hnil
        have hall := List.dropWhile_eq_nil_iff.1 hnil 0 hnul
        simp at hall
      have hbytes := afterBlank_append hblank (bytes.dropWhile (· ≠ 0))
      rw [hcut] at hbytes
      have hne : body ++ bytes.dropWhile (· ≠ 0) ≠ body.take 511 := by
        intro heq
        have hlen := congrArg List.length heq
        have hpos := List.length_pos_iff.2 hlong
        rw [List.length_append, List.length_take] at hlen
        omega
      rw [hbytes]
      constructor
      · intro heq
        exact absurd (Option.some.inj heq) hne
      · rintro (⟨hfree, -⟩ | ⟨-, hnone, -⟩)
        · exact absurd hnul hfree
        · rw [hblank] at hnone
          cases hnone
  · rw [cString_of_noNul hnul]
    cases hblank : afterBlank bytes with
    | none => simp [BodyFits, hnul, hblank]
    | some body => simp [BodyFits, hnul, hblank, eq_comm (a := body), List.take_eq_self_iff]

namespace ReceivedRequest

variable (r : ReceivedRequest)

def bytes : List UInt8 := r.method ++ 32 :: (r.path ++ 32 :: (r.version ++ (crlf ++ r.rest)))

/-- The method is unknown, the path is empty as a C string, or nothing is cut. -/
def Whole : Prop :=
  parseMethod r.method = none ∨ r.path.head? = some 0 ∨
    0 ∉ r.path ∧ r.path.length ≤ 63 ∧ BodyFits r.bytes

theorem cString_bytes (h : 0 ∉ r.method) : cString r.bytes =
    r.method ++ 32 :: cString (r.path ++ 32 :: (r.version ++ (crlf ++ r.rest))) := by
  rw [bytes, cString_append h, cString, List.takeWhile_cons_of_pos (by decide), cString]

/-- The path up to its first NUL is read as a word. -/
theorem scanWords_bytes (hmethod : 0 ∉ r.method) (hpath : r.path.head? ≠ some 0) :
    scanWords (cString r.bytes) =
      some (r.method.take 15, scannedPath r.method (cString r.path)) := by
  have hmethod' : Word r.method := ⟨r.method_token.nonempty, r.method_token.noSpace, hmethod⟩
  have hpath' : Word (cString r.path) := by
    refine ⟨?_, fun c hc => r.path_token.noSpace c ((List.takeWhile_prefix _).subset hc), ?_⟩
    · obtain ⟨c, path, hcons⟩ := List.exists_cons_of_ne_nil r.path_token.nonempty
      have hc : c ≠ 0 := by
        rintro rfl
        exact hpath (by rw [hcons]; rfl)
      rw [hcons, cString, List.takeWhile_cons_of_pos (by simpa using hc)]
      exact List.cons_ne_nil _ _
    · intro hmem
      have hzero := List.all_eq_true.1 List.all_takeWhile 0 hmem
      simp at hzero
  rw [r.cString_bytes hmethod]
  by_cases hnul : 0 ∈ r.path
  · rw [cString_append_of_mem hnul, ← List.append_nil (cString r.path)]
    rw [scanWords_line hmethod' hpath' (by simp), List.append_nil]
  · rw [cString_of_noNul hnul] at hpath' ⊢
    rw [cString_append hnul, cString, List.takeWhile_cons_of_pos (by decide)]
    exact scanWords_line hmethod' hpath' (by simp [isSpace])

theorem rejected_iff (adminToken : CString) :
    (parseRequest adminToken (cString r.bytes)).method = none ↔
      parseMethod r.method = none ∨ r.path.head? = some 0 := by
  by_cases hmethod : 0 ∈ r.method
  · have hword : ∀ c ∈ cString r.method, isSpace c = false :=
      fun c hc => r.method_token.noSpace c ((List.takeWhile_prefix _).subset hc)
    have hend : ∀ c ∈ ([] : CString).head?, isSpace c = true := by simp
    have hreject := rejected_of_word adminToken hword hend rfl
    rw [List.append_nil] at hreject
    rw [bytes, cString_append_of_mem hmethod]
    exact iff_of_true hreject (.inl (parseMethod_nul hmethod))
  · by_cases hpath : r.path.head? = some 0
    · have hempty : cString (r.path ++ 32 :: (r.version ++ (crlf ++ r.rest))) = [] := by
        obtain ⟨path, hcons⟩ := List.head?_eq_some_iff.1 hpath
        rw [hcons]
        rfl
      rw [r.cString_bytes hmethod, hempty]
      exact iff_of_true (rejected_of_word adminToken r.method_token.noSpace
        (by simp [isSpace]) (by decide)) (.inr hpath)
    · rw [(parseRequest_body adminToken (r.scanWords_bytes hmethod hpath)).1, parseMethod_take]
      simp [hpath]

/-- What is handed to `dispatch` is the whole of what was received, or the request is rejected. -/
theorem whole_or_rejected_iff (adminToken : CString) :
    ((parseRequest adminToken (cString r.bytes)).method = none ∨
      (parseRequest adminToken (cString r.bytes)).path = r.path ∧
        afterBlank r.bytes = some (parseRequest adminToken (cString r.bytes)).body) ↔
    r.Whole := by
  rw [r.rejected_iff adminToken, Whole, or_assoc]
  apply or_congr_right'
  intro hmethod
  apply or_congr_right'
  intro hpath
  have hlen : r.method.length ≤ 15 := by
    by_contra hlong
    exact hmethod (parseMethod_long (by omega))
  have hnul : 0 ∉ r.method := fun hmem => hmethod (parseMethod_nul hmem)
  obtain ⟨-, hpath', hbody⟩ := parseRequest_body adminToken (r.scanWords_bytes hnul hpath)
  rw [hpath', hbody, bodyFits_iff, scannedPath, if_pos hlen, ← and_assoc]
  apply and_congr_left'
  constructor
  · intro heq
    have hfree : 0 ∉ r.path := by
      intro hmem
      rw [← heq] at hmem
      have hzero := List.all_eq_true.1 List.all_takeWhile 0 (List.mem_of_mem_take hmem)
      simp at hzero
    rw [cString_of_noNul hfree, List.take_eq_self_iff] at heq
    exact ⟨hfree, heq⟩
  · rintro ⟨hfree, hfits⟩
    rw [cString_of_noNul hfree, List.take_of_length_le hfits]

end ReceivedRequest

theorem longPath_tokens : Token (ascii "GET") ∧
    Token (List.replicate 57 47 ++ ascii "/stockx") ∧ Token (ascii "HTTP/1.1") :=
  ⟨⟨by decide +kernel, by decide +kernel⟩, ⟨by decide +kernel, by decide +kernel⟩,
    ⟨by decide +kernel, by decide +kernel⟩⟩

/-- `GET` of 57 slashes and `/stockx`. -/
def longPath : ReceivedRequest where
  method := ascii "GET"
  path := List.replicate 57 47 ++ ascii "/stockx"
  version := ascii "HTTP/1.1"
  rest := crlf
  method_token := longPath_tokens.1
  path_token := longPath_tokens.2.1
  version_token := longPath_tokens.2.2

/-- A path of 64 bytes is routed as its first 63, to the stock. -/
theorem longPath_cut : longPath.bytes.length ≤ 2047 ∧
    ¬ ((parseRequest [] (cString longPath.bytes)).method = none ∨
      (parseRequest [] (cString longPath.bytes)).path = longPath.path ∧
        afterBlank longPath.bytes = some (parseRequest [] (cString longPath.bytes)).body) ∧
    route (parseRequest [] (cString longPath.bytes)) false = .ok .getStock := by
  decide

end Sshnack
