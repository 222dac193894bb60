import Sshnack.RequestText
import Sshnack.Router

/-!
# A request that arrives in pieces

`handle_client` calls `recv` once, so it parses the first piece of a request and drops the others.
`Sufficient` says when that piece is enough: it ends behind all of the body that is kept; or inside
the header section, where the unfinished line happens to read as the body and the missing lines do
not change the credentials; or inside the request line, for a request with neither.
-/

namespace Sshnack

def CompleteRequest.wordsLength (r : CompleteRequest) : ℕ :=
  if r.method.length ≤ 15 then r.method.length + 1 + min 63 r.path.length
  else min 78 r.method.length

/-- The first `k` bytes of the header section: the whole lines and the unfinished one. -/
def cutLines : List CString → ℕ → List CString × CString
  | [], k => ([], crlf.take k)
  | line :: lines, k =>
      if line.length + 2 ≤ k then
        (line :: (cutLines lines (k - (line.length + 2))).1, (cutLines lines (k - (line.length + 2))).2)
      else ([], (line ++ crlf).take k)

/-- The first `n` bytes hold all that is parsed of the request. -/
inductive Sufficient (adminToken : CString) (r : CompleteRequest) (n : ℕ) : Prop
  | inBody (h : r.head.length + min 511 (cString r.body).length ≤ n)
  | inHeaders (hline : r.line.length + 2 ≤ n) (hhead : n < r.head.length)
      (hauth : credentials adminToken (cutLines r.headers (n - (r.line.length + 2))).1 =
        credentials adminToken r.headers)
      (hbody : (cutLines r.headers (n - (r.line.length + 2))).2.take 511 =
        (cString r.body).take 511)
  | inLine (hwords : r.wordsLength ≤ n) (hline : n < r.line.length + 2)
      (hauth : credentials adminToken r.headers = noAuth) (hbody : cString r.body = [])

theorem cutLines_spec {lines : List CString} (hlines : ∀ line ∈ lines, HeaderLine line) {k : ℕ}
    (hk : k < (headerBytes lines ++ crlf).length) :
    (headerBytes lines ++ crlf).take k =
        headerBytes (cutLines lines k).1 ++ (cutLines lines k).2 ∧
      (∀ line ∈ (cutLines lines k).1, HeaderLine line) ∧ 10 ∉ (cutLines lines k).2 := by
  induction lines generalizing k with
  | nil =>
    have hk' : k = 0 ∨ k = 1 := by
      simp only [headerBytes, List.flatMap_nil, List.nil_append, crlf, List.length_cons,
        List.length_nil] at hk
      omega
    have hnone : ∀ line ∈ ([] : List CString), HeaderLine line :=
      fun line hline => absurd hline List.not_mem_nil
    rcases hk' with rfl | rfl
    · exact ⟨rfl, hnone, by decide⟩
    · exact ⟨rfl, hnone, by decide⟩
  | cons line lines ih =>
    have hline := hlines line List.mem_cons_self
    have hshape : headerBytes (line :: lines) ++ crlf =
        (line ++ crlf) ++ (headerBytes lines ++ crlf) := by
      simp [headerBytes]
    have hlen : (line ++ crlf).length = line.length + 2 := List.length_append
    rw [hshape, List.length_append, hlen] at hk
    rw [hshape, cutLines]
    by_cases hwhole : line.length + 2 ≤ k
    · obtain ⟨htake, hmem, htail⟩ := ih (fun l hl => hlines l (List.mem_cons_of_mem _ hl))
        (k := k - (line.length + 2)) (by omega)
      rw [if_pos hwhole, List.take_append, List.take_of_length_le (by omega), hlen, htake]
      refine ⟨?_, ?_, htail⟩
      · simp [headerBytes]
      · intro l hl
        rcases List.mem_cons.1 hl with rfl | hl
        · exact hline
        · exact hmem l hl
    · rw [if_neg hwhole, List.take_append_of_le_length (by omega)]
      refine ⟨rfl, fun l hl => absurd hl List.not_mem_nil, ?_⟩
      intro hlf
      have hpart : (line ++ crlf).take k <+: line ++ [13] := by
        have hcrlf : line ++ crlf = (line ++ [13]) ++ [10] := by simp [crlf]
        rw [hcrlf, List.take_append_of_le_length (by simp; omega)]
        exact List.take_prefix _ _
      rcases List.mem_append.1 (hpart.subset hlf) with hlf | hlf
      · exact hline.noLf hlf
      · exact absurd hlf (by decide)

namespace CompleteRequest

variable (r : CompleteRequest)

theorem scanWords_cut {n : ℕ} (hn : 0 < n) : scanWords ((r.line ++ [13]).take n) =
    if r.method.length ≤ 15 then
      if n ≤ r.method.length + 1 then none
      else some (r.method, r.path.take (min 63 (n - (r.method.length + 1))))
    else if n ≤ 15 then none
    else some (r.method.take 15, (r.method.drop 15).take (min 63 (n - 15))) := by
  have hshape : r.line ++ [13] = r.method ++ 32 :: (r.path ++ 32 :: (r.version ++ [13])) := by
    simp [line]
  have hword : ∀ c ∈ r.method.take n, isSpace c = false :=
    fun c hc => r.method_word.noSpace c (List.mem_of_mem_take hc)
  have hne : r.method.take n ≠ [] := by
    simp only [ne_eq, List.take_eq_nil_iff, not_or]
    exact ⟨hn.ne', r.method_word.nonempty⟩
  have hspace : ∀ k (q : CString), ∀ c ∈ ((32 :: q).take k).head?, isSpace c = true := by
    intro k q c hc
    cases k with
    | zero => cases hc
    | succ k =>
      cases hc
      decide
  rw [hshape, List.take_append, scanWords_word hword hne (hspace _ _), List.length_take]
  by_cases hlen : r.method.length ≤ 15
  · rw [if_pos hlen, if_pos (by omega)]
    by_cases hshort : n ≤ r.method.length + 1
    · have hrest : skipSpace ((32 :: (r.path ++ 32 :: (r.version ++ [13]))).take
          (n - r.method.length)) = [] := by
        have hk : n - r.method.length = 0 ∨ n - r.method.length = 1 := by omega
        rcases hk with hk | hk <;> rw [hk] <;> rfl
      rw [if_pos hshort, hrest, scanWord_nil, Option.map_none]
    · obtain ⟨k, hk⟩ : ∃ k, n - (r.method.length + 1) = k + 1 := ⟨_, (Nat.succ_pred (by omega)).symm⟩
      have hpath : ∀ c ∈ r.path.take (k + 1), isSpace c = false :=
        fun c hc => r.path_word.noSpace c (List.mem_of_mem_take hc)
      have hnonempty : r.path.take (k + 1) ≠ [] := by
        simp [List.take_eq_nil_iff, r.path_word.nonempty]
      have hsub : n - r.method.length = k + 1 + 1 := by omega
      have hrest : skipSpace (32 :: (r.path.take (k + 1) ++
          (32 :: (r.version ++ [13])).take (k + 1 - r.path.length))) =
            r.path.take (k + 1) ++ (32 :: (r.version ++ [13])).take (k + 1 - r.path.length) :=
        skipSpace_word hpath hnonempty _
      rw [if_neg hshort, hsub, List.take_succ_cons, List.take_append, hrest,
        scanWord_word hpath hnonempty (hspace _ _) (by decide), hk, List.take_take,
        List.take_of_length_le (by omega)]
      rfl
  · rw [if_neg hlen]
    by_cases hshort : n ≤ 15
    · have hzero : n - r.method.length = 0 := by omega
      rw [if_pos hshort, if_pos (by omega), hzero, List.take_zero]
      rfl
    · rw [if_neg hshort, if_neg (by omega), List.take_take, List.drop_take, List.take_take,
        min_eq_left (by omega)]

theorem scannedPath_ne_nil : scannedPath r.method r.path ≠ [] := by
  unfold scannedPath
  split_ifs with hlen
  · simp [List.take_eq_nil_iff, r.path_word.nonempty]
  · simp only [ne_eq, List.take_eq_nil_iff, List.drop_eq_nil_iff]
    omega

theorem scanWords_cut_iff {n : ℕ} (hn : 0 < n) :
    (∃ method, scanWords ((r.line ++ [13]).take n) = some (method, scannedPath r.method r.path) ∧
      parseMethod method = parseMethod (r.method.take 15)) ↔ r.wordsLength ≤ n := by
  have hpath : 0 < r.path.length := List.length_pos_iff.2 r.path_word.nonempty
  rw [r.scanWords_cut hn, wordsLength, scannedPath]
  by_cases hlen : r.method.length ≤ 15
  · simp only [if_pos hlen, List.take_of_length_le hlen]
    by_cases hshort : n ≤ r.method.length + 1
    · simp only [if_pos hshort]
      constructor
      · rintro ⟨_, h, _⟩
        cases h
      · intro h
        omega
    · simp only [if_neg hshort, Option.some.injEq, Prod.mk.injEq, List.take_eq_take_iff]
      constructor
      · rintro ⟨_, ⟨_, h⟩, _⟩
        omega
      · intro h
        exact ⟨r.method, ⟨rfl, by omega⟩, rfl⟩
  · simp only [if_neg hlen]
    by_cases hshort : n ≤ 15
    · simp only [if_pos hshort]
      constructor
      · rintro ⟨_, h, _⟩
        cases h
      · intro h
        omega
    · simp only [if_neg hshort, Option.some.injEq, Prod.mk.injEq, List.take_eq_take_iff,
        List.length_drop]
      constructor
      · rintro ⟨_, ⟨_, h⟩, _⟩
        omega
      · intro h
        exact ⟨r.method.take 15, ⟨rfl, by omega⟩, rfl⟩

theorem parse_cut_inBody (adminToken : CString) {n : ℕ} (hn : r.head.length ≤ n) :
    parseRequest adminToken (cString (r.bytes.take n)) = parseRequest adminToken (cString r.bytes) ↔
      r.head.length + min 511 (cString r.body).length ≤ n := by
  rw [cString_take, r.cString_bytes, List.take_append, List.take_of_length_le hn,
    r.parseRequest_closed, r.parseRequest_closed]
  simp only [Request.mk.injEq, true_and, and_true, List.take_take, List.take_eq_take_iff]
  omega

/-- A cut in the header section loses lines, and the unfinished line becomes the body. -/
theorem parse_cut_inHeaders (adminToken : CString) {n : ℕ} (hline : r.line.length + 2 ≤ n)
    (hhead : n < r.head.length) :
    parseRequest adminToken (cString (r.bytes.take n)) = parseRequest adminToken (cString r.bytes) ↔
      (cutLines r.headers (n - (r.line.length + 2))).2.take 511 = (cString r.body).take 511 ∧
        credentials adminToken (cutLines r.headers (n - (r.line.length + 2))).1 =
          credentials adminToken r.headers := by
  have hsection : r.head.length = r.line.length + 2 + (headerBytes r.headers ++ crlf).length := by
    simp only [head, List.length_append, crlf, List.length_cons, List.length_nil]
    omega
  obtain ⟨htake, hlines, htail⟩ := cutLines_spec r.headers_lines
    (k := n - (r.line.length + 2)) (by omega)
  have htext : (r.head ++ cString r.body).take n = r.line ++ (crlf ++
      (headerBytes (cutLines r.headers (n - (r.line.length + 2))).1 ++
        (cutLines r.headers (n - (r.line.length + 2))).2)) := by
    have hcrlf : crlf.length = 2 := rfl
    rw [List.take_append_of_le_length hhead.le, head, List.take_append,
      List.take_of_length_le (by omega), List.take_append,
      List.take_of_length_le (by rw [hcrlf]; omega), hcrlf, Nat.sub_sub, htake]
  rw [cString_take, r.cString_bytes, htext, r.parseRequest_open adminToken hlines htail,
    r.parseRequest_closed]
  simp only [Request.mk.injEq, true_and]

theorem parse_cut_inLine (adminToken : CString) {n : ℕ} (hn : 0 < n) (hline : n < r.line.length + 2) :
    parseRequest adminToken (cString (r.bytes.take n)) = parseRequest adminToken (cString r.bytes) ↔
      r.wordsLength ≤ n ∧ cString r.body = [] ∧ credentials adminToken r.headers = noAuth := by
  have htext : (r.head ++ cString r.body).take n = (r.line ++ [13]).take n := by
    have hshape : r.head ++ cString r.body =
        (r.line ++ [13]) ++ (10 :: (headerBytes r.headers ++ (crlf ++ cString r.body))) := by
      simp [head, crlf]
    rw [hshape, List.take_append_of_le_length]
    rw [List.length_append, List.length_singleton]
    omega
  have hlf : 10 ∉ (r.line ++ [13]).take n := by
    intro hmem
    rcases List.mem_append.1 (List.mem_of_mem_take hmem) with hmem | hmem
    · exact r.line_noLf hmem
    · exact absurd hmem (by decide)
  have hkept : [] = (cString r.body).take 511 ↔ cString r.body = [] := by
    rw [eq_comm, List.take_eq_nil_iff]
    simp
  have hwords := r.scanWords_cut_iff hn
  rw [cString_take, r.cString_bytes, htext, r.parseRequest_closed, parseRequest, 
    splitCrlf_none (crlf_not_within (by decide) hlf)]
  rcases hscan : scanWords ((r.line ++ [13]).take n) with _ | ⟨method, path⟩
  · rw [hscan] at hwords
    have hshort : ¬ r.wordsLength ≤ n := by
      intro h
      obtain ⟨_, h, _⟩ := hwords.2 h
      cases h
    simp only [hscan, Request.mk.injEq, hshort, false_and, iff_false, not_and]
    intro _ hpath
    exact absurd hpath.symm r.scannedPath_ne_nil
  · simp only [hscan, Option.some.injEq, Prod.mk.injEq] at hwords
    simp only [hscan, Request.mk.injEq]
    rw [hkept, eq_comm (a := noAuth)]
    constructor
    · rintro ⟨hmethod, hpath, hbody, hauth⟩
      exact ⟨hwords.1 ⟨method, ⟨rfl, hpath⟩, hmethod⟩, hbody, hauth⟩
    · rintro ⟨hlen, hbody, hauth⟩
      obtain ⟨_, ⟨rfl, hpath⟩, hmethod⟩ := hwords.2 hlen
      exact ⟨hmethod, hpath, hbody, hauth⟩

theorem parse_cut_iff (adminToken : CString) {n : ℕ} (hn : 0 < n) :
    parseRequest adminToken (cString (r.bytes.take n)) = parseRequest adminToken (cString r.bytes) ↔
      Sufficient adminToken r n := by
  have hhead : r.line.length + 2 ≤ r.head.length := by
    simp only [head, List.length_append, crlf, List.length_cons, List.length_nil]
    omega
  by_cases hbody : r.head.length ≤ n
  · rw [r.parse_cut_inBody adminToken hbody]
    constructor
    · exact .inBody
    · intro h
      cases h with
      | inBody h => exact h
      | inHeaders _ hshort => omega
      | inLine _ hshort => omega
  · by_cases hline : r.line.length + 2 ≤ n
    · rw [r.parse_cut_inHeaders adminToken hline (by omega)]
      constructor
      · rintro ⟨htail, hauth⟩
        exact .inHeaders hline (by omega) hauth htail
      · intro h
        cases h with
        | inBody h => omega
        | inHeaders _ _ hauth htail => exact ⟨htail, hauth⟩
        | inLine _ hshort => omega
    · rw [r.parse_cut_inLine adminToken hn (by omega)]
      constructor
      · rintro ⟨hwords, hempty, hauth⟩
        exact .inLine hwords (by omega) hauth hempty
      · intro h
        cases h with
        | inBody h => omega
        | inHeaders hlong => omega
        | inLine hwords _ hauth hempty => exact ⟨hwords, hempty, hauth⟩

end CompleteRequest

structure Delivered (bytes : List UInt8) (chunks : List (List UInt8)) : Prop where
  nonempty : ∀ chunk ∈ chunks, chunk ≠ []
  whole : chunks.flatten = bytes

/-- `handle_client` parses a request as a whole exactly if its first piece is sufficient. -/
theorem received_whole_iff (adminToken : CString) (r : CompleteRequest)
    (hsize : r.bytes.length ≤ 2047) (chunks : List (List UInt8)) (h : Delivered r.bytes chunks) :
    received adminToken chunks = some (parseRequest adminToken (cString r.bytes)) ↔
      Sufficient adminToken r (chunks.headD []).length := by
  cases chunks with
  | nil =>
    have hbytes : r.bytes ≠ [] := by
      simp [CompleteRequest.bytes, CompleteRequest.head, crlf]
    exact absurd h.whole.symm hbytes
  | cons chunk chunks =>
    have hne := h.nonempty chunk List.mem_cons_self
    have hfirst : chunk = r.bytes.take chunk.length := by
      rw [← h.whole, List.flatten_cons, List.take_left]
    have hlen : chunk.length ≤ 2047 := by
      have := congrArg List.length h.whole
      rw [List.flatten_cons, List.length_append] at this
      omega
    have hrecv : recv (bufSize - 1) (chunk :: chunks) = chunk := List.take_of_length_le hlen
    have hparsed : received adminToken (chunk :: chunks) =
        some (parseRequest adminToken (cString (r.bytes.take chunk.length))) := by
      rw [← hfirst, received, hrecv]
      cases chunk with
      | nil => exact absurd rfl hne
      | cons c buf => rfl
    rw [hparsed, Option.some.injEq]
    exact r.parse_cut_iff adminToken (List.length_pos_iff.2 hne)

def stockRequest : CompleteRequest where
  method := ascii "GET"
  path := ascii "/stock"
  version := ascii "HTTP/1.1"
  headers := [ascii "Host: server", ascii "Accept: */*"]
  body := []
  method_word := ⟨by decide +kernel, by decide +kernel, by decide +kernel⟩
  path_word := ⟨by decide +kernel, by decide +kernel, by decide +kernel⟩
  version_word := ⟨by decide +kernel, by decide +kernel, by decide +kernel⟩
  headers_lines := by
    intro line hline
    simp only [List.mem_cons, List.not_mem_nil, or_false] at hline
    rcases hline with rfl | rfl
    · exact ⟨by decide, by decide, by decide, by decide⟩
    · exact ⟨by decide, by decide, by decide, by decide⟩
  body_declared := by decide

theorem received_stockRequest :
    received (ascii "secret") [stockRequest.bytes.take 35, stockRequest.bytes.drop 35] =
      some (parseRequest (ascii "secret") (cString stockRequest.bytes)) := by
  have hcut : stockRequest.bytes.take 35 ≠ [] ∧ stockRequest.bytes.drop 35 ≠ [] := by
    decide
  have hdelivered :
      Delivered stockRequest.bytes [stockRequest.bytes.take 35, stockRequest.bytes.drop 35] := by
    constructor
    · intro chunk hchunk
      simp only [List.mem_cons, List.not_mem_nil, or_false] at hchunk
      rcases hchunk with rfl | rfl
      · exact hcut.1
      · exact hcut.2
    · simp [List.take_append_drop]
  apply (received_whole_iff (ascii "secret") stockRequest (by decide) _ hdelivered).2
  exact .inHeaders (by decide) (by decide) (by decide) (by decide)

def lookupRequest : CompleteRequest where
  method := ascii "POST"
  path := ascii "/users/lookup"
  version := ascii "HTTP/1.1"
  headers := [ascii "Content-Type: application/json", ascii "Content-Length: 29"]
  body := ascii "\x7b\"fingerprint\": \"SHA256:key\"\x7d"
  method_word := ⟨by decide +kernel, by decide +kernel, by decide +kernel⟩
  path_word := ⟨by decide +kernel, by decide +kernel, by decide +kernel⟩
  version_word := ⟨by decide +kernel, by decide +kernel, by decide +kernel⟩
  headers_lines := by
    intro line hline
    simp only [List.mem_cons, List.not_mem_nil, or_false] at hline
    rcases hline with rfl | rfl
    · exact ⟨by decide, by decide, by decide, by decide⟩
    · exact ⟨by decide, by decide, by decide, by decide⟩
  body_declared := by decide

/-- A client that writes head and body separately is parsed without its body. -/
theorem received_not_always_whole :
    ¬ ∀ (adminToken : CString) (r : CompleteRequest), r.bytes.length ≤ 2047 →
      ∀ chunks, Delivered r.bytes chunks →
        received adminToken chunks = some (parseRequest adminToken (cString r.bytes)) := by
  intro h
  have hcut : lookupRequest.head ≠ [] ∧ lookupRequest.body ≠ [] := by decide
  have hdelivered : Delivered lookupRequest.bytes [lookupRequest.head, lookupRequest.body] := by
    constructor
    · intro chunk hchunk
      simp only [List.mem_cons, List.not_mem_nil, or_false] at hchunk
      rcases hchunk with rfl | rfl
      · exact hcut.1
      · exact hcut.2
    · simp [CompleteRequest.bytes]
  have hwhole := h [] lookupRequest (by decide +kernel) _ hdelivered
  revert hwhole
  decide

end Sshnack
