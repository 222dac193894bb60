import Sshnack.CArrays
import Sshnack.CScan

/-!
# The C library on a buffer

The scans of `sscanf`, `strstr`, `strncasecmp`, `memcpy` and `strncpy`, byte by byte on a buffer and
from a position in it. A scan has no result if it leaves the buffer or runs out of fuel. A position
that points to a NUL-terminated text is enough for each of them to have one, and it is that of the
function on the text.
-/

namespace Sshnack

variable {buf : List UInt8} {p : ℕ} {t : CString}

/-- `p` points to the text `t` and its NUL. -/
def PointsTo (buf : List UInt8) (p : ℕ) (t : CString) : Prop :=
  0 ∉ t ∧ ∃ rest, buf.drop p = t ++ 0 :: rest

theorem PointsTo.read (h : PointsTo buf p t) : buf[p]? = some (t.headD 0) := by
  obtain ⟨_, rest, hdrop⟩ := h
  rw [← List.head?_drop, hdrop]
  cases t <;> rfl

theorem PointsTo.read_cons {c : UInt8} (h : PointsTo buf p (c :: t)) : buf[p]? = some c := h.read

theorem PointsTo.read_nil (h : PointsTo buf p []) : buf[p]? = some 0 := h.read

theorem PointsTo.ne_zero {c : UInt8} (h : PointsTo buf p (c :: t)) : c ≠ 0 :=
  fun hc => h.1 (hc ▸ List.mem_cons_self)

theorem PointsTo.advance {s : CString} (h : PointsTo buf p (s ++ t)) :
    PointsTo buf (p + s.length) t := by
  obtain ⟨hnul, rest, hdrop⟩ := h
  refine ⟨fun hmem => hnul (List.mem_append_right s hmem), rest, ?_⟩
  rw [← List.drop_drop, hdrop, List.append_assoc, List.drop_left]

theorem PointsTo.tail {c : UInt8} (h : PointsTo buf p (c :: t)) : PointsTo buf (p + 1) t :=
  PointsTo.advance (s := [c]) h

theorem PointsTo.length_lt (h : PointsTo buf p t) : t.length < buf.length := by
  obtain ⟨_, rest, hdrop⟩ := h
  have hlen := congrArg List.length hdrop
  rw [List.length_drop, List.length_append, List.length_cons] at hlen
  omega

/-- The fuel that the scans of a buffer are given. -/
theorem PointsTo.fuel (h : PointsTo buf p t) : t.length < buf.length + 1 :=
  Nat.lt_succ_of_lt h.length_lt

theorem pointsTo_start {rest : List UInt8} (h : 0 ∉ t) : PointsTo (t ++ 0 :: rest) 0 t :=
  ⟨h, rest, rfl⟩

/-! ### The scans -/

def skipSpaceAt (buf : List UInt8) : ℕ → ℕ → Option ℕ
  | 0, _ => none
  | fuel + 1, p => do
    let c ← buf[p]?
    if isSpace c then skipSpaceAt buf fuel (p + 1) else return p

/-- `%<width>s` behind white space: the word and where it ends. -/
def wordAt (buf : List UInt8) : ℕ → ℕ → Option (CString × ℕ)
  | 0, p => some ([], p)
  | width + 1, p => do
    let c ← buf[p]?
    if c = 0 ∨ isSpace c then return ([], p) else
    let (word, q) ← wordAt buf width (p + 1)
    return (c :: word, q)

/-- `strstr(p, "\r\n")`. -/
def strstrCrlf (buf : List UInt8) : ℕ → ℕ → Option (Option ℕ)
  | 0, _ => none
  | fuel + 1, p => do
    let c ← buf[p]?
    if c = 0 then return none else
    if c ≠ 13 then strstrCrlf buf fuel (p + 1) else
    let c' ← buf[p + 1]?
    if c' = 10 then return some p else strstrCrlf buf fuel (p + 1)

/-- `strncasecmp(p, s, strlen(s)) == 0` for a string `s` in lower case. -/
def startsWithAt (buf : List UInt8) : ℕ → CString → Option Bool
  | _, [] => some true
  | p, c :: s => do
    let b ← buf[p]?
    if toLower b = c then startsWithAt buf (p + 1) s else return false

/-- `memcpy(dst + i, src + i, count)`. -/
def memcpyAt {n : ℕ} (buf : List UInt8) (src : ℕ) : ℕ → ℕ → Vector UInt8 n → Option (Vector UInt8 n)
  | 0, _, dst => some dst
  | count + 1, i, dst => do
    let c ← buf[src + i]?
    let dst ← store dst i c
    memcpyAt buf src count (i + 1) dst

/-- `strncpy(dst, p, count)`: the string that is copied. -/
def strncpyAt (buf : List UInt8) : ℕ → ℕ → Option CString
  | 0, _ => some []
  | count + 1, p => do
    let c ← buf[p]?
    if c = 0 then return [] else
    let s ← strncpyAt buf count (p + 1)
    return c :: s

/-! ### What they find -/

theorem skipSpaceAt_eq (h : PointsTo buf p t) {fuel : ℕ} (hfuel : t.length < fuel) :
    ∃ q, skipSpaceAt buf fuel p = some q ∧ PointsTo buf q (skipSpace t) := by
  induction fuel generalizing p t with
  | zero => omega
  | succ fuel ih =>
    cases t with
    | nil => exact ⟨p, by simp [skipSpaceAt, h.read_nil, isSpace], h⟩
    | cons c t =>
      cases hc : isSpace c with
      | false =>
        refine ⟨p, by simp [skipSpaceAt, h.read_cons, hc], ?_⟩
        simpa [skipSpace, hc] using h
      | true =>
        obtain ⟨q, hq, hpoints⟩ := ih h.tail (by simpa using hfuel)
        refine ⟨q, by simp [skipSpaceAt, h.read_cons, hc, hq], ?_⟩
        simpa [skipSpace, hc] using hpoints

theorem wordAt_eq (h : PointsTo buf p t) (width : ℕ) :
    ∃ q, wordAt buf width p = some ((t.takeWhile fun c => !isSpace c).take width, q) ∧
      PointsTo buf q (t.drop ((t.takeWhile fun c => !isSpace c).take width).length) := by
  induction width generalizing p t with
  | zero => exact ⟨p, by simp [wordAt], by simpa using h⟩
  | succ width ih =>
    cases t with
    | nil => exact ⟨p, by simp [wordAt, h.read_nil], by simpa using h⟩
    | cons c t =>
      cases hc : isSpace c with
      | true => exact ⟨p, by simp [wordAt, h.read_cons, hc], by simpa [hc] using h⟩
      | false =>
        obtain ⟨q, hq, hpoints⟩ := ih h.tail
        refine ⟨q, by simp [wordAt, h.read_cons, hc, h.ne_zero, hq], ?_⟩
        simpa [hc] using hpoints

/-- The first CRLF and the line before it, if there is one. -/
theorem strstrCrlf_eq (h : PointsTo buf p t) {fuel : ℕ} (hfuel : t.length < fuel) :
    strstrCrlf buf fuel p = some ((splitCrlf t).map fun r => p + r.1.length) := by
  induction fuel generalizing p t with
  | zero => omega
  | succ fuel ih =>
    cases t with
    | nil => simp [strstrCrlf, h.read_nil, splitCrlf]
    | cons c t =>
      have hnext := ih h.tail (by simpa using hfuel)
      have hmap : (splitCrlf t).map (fun r => p + 1 + r.1.length) =
          ((splitCrlf t).map fun r => (c :: r.1, r.2)).map fun r => p + r.1.length := by
        rw [Option.map_map]
        congr 1
        funext r
        simp only [Function.comp_apply, List.length_cons]
        omega
      rw [hmap] at hnext
      by_cases hcr : c = 13
      · subst hcr
        have hread := h.tail.read
        cases t with
        | nil =>
          simp only [strstrCrlf, h.read_cons, hread, hnext]
          rfl
        | cons c' t =>
          by_cases hlf : c' = 10
          · subst hlf
            simp [strstrCrlf, h.read_cons, h.tail.read_cons, splitCrlf]
          · rw [splitCrlf, if_neg (by simpa using hlf), ← hnext]
            simp [strstrCrlf, h.read_cons, h.tail.read_cons, hlf]
      · rw [splitCrlf, if_neg (fun hc => hcr hc.1), ← hnext]
        simp [strstrCrlf, h.read_cons, h.ne_zero, hcr]

theorem startsWithAt_eq (h : PointsTo buf p t) {s : CString} (hs : 0 ∉ s) :
    startsWithAt buf p s = some (decide ((t.take s.length).map toLower = s)) := by
  induction s generalizing p t with
  | nil => simp [startsWithAt]
  | cons c s ih =>
    have hzero : ¬ toLower 0 = c := fun hc => hs (hc ▸ List.mem_cons_self)
    cases t with
    | nil => simp [startsWithAt, h.read_nil, hzero]
    | cons b t =>
      rw [startsWithAt, h.read_cons, Option.bind_eq_bind, Option.bind_some,
        ih h.tail fun hmem => hs (List.mem_cons_of_mem c hmem)]
      by_cases hb : toLower b = c <;> simp [hb]

theorem strncpyAt_eq (h : PointsTo buf p t) (count : ℕ) :
    strncpyAt buf count p = some (t.take count) := by
  induction count generalizing p t with
  | zero => simp [strncpyAt]
  | succ count ih =>
    cases t with
    | nil => simp [strncpyAt, h.read_nil]
    | cons c t => simp [strncpyAt, h.read_cons, h.ne_zero, ih h.tail]

theorem memcpyAt_eq {n src i : ℕ} {s rest : List UInt8} (dst : Vector UInt8 n)
    (hsrc : buf.drop (src + i) = s ++ rest) (hfits : i + s.length ≤ n) :
    ∃ dst', memcpyAt buf src s.length i dst = some dst' ∧
      dst'.toList = dst.toList.take i ++ s ++ dst.toList.drop (i + s.length) := by
  induction s generalizing i dst with
  | nil => exact ⟨dst, rfl, by simp⟩
  | cons c s ih =>
    have hread : buf[src + i]? = some c := by
      rw [← List.head?_drop, hsrc]
      rfl
    have hnext : buf.drop (src + (i + 1)) = s ++ rest := by
      rw [← add_assoc, ← List.drop_drop, hsrc]
      rfl
    rw [List.length_cons] at hfits
    have hi : i < n := by omega
    obtain ⟨dst', hdst', hlist⟩ := ih (dst.set i c hi) hnext (by omega)
    refine ⟨dst', ?_, ?_⟩
    · simp only [List.length_cons, memcpyAt, hread, Option.bind_eq_bind, Option.bind_some,
        store_of_lt dst c hi]
      exact hdst'
    · have hlen : i < dst.toList.length := by rwa [Vector.length_toList]
      have htake : (dst.toList.set i c).take (i + 1) = dst.toList.take i ++ [c] := by
        rw [List.set_eq_take_append_cons_drop, if_pos hlen, List.take_append,
          List.length_take_of_le hlen.le]
        simp
      rw [hlist, Vector.toList_set, htake, List.drop_set_of_lt (by omega), List.length_cons,
        List.append_assoc, List.append_assoc, List.append_assoc, List.singleton_append,
        List.cons_append, add_right_comm, add_assoc]

end Sshnack
