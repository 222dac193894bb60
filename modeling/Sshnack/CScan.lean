import Sshnack.CStrings

/-!
# Scanning C strings

The conversions that the server uses of `sscanf`, `strtol` and `strstr`, in the C locale and with a
64-bit `long`. A conversion returns its value and the text behind it, or nothing if it fails. A
number out of range saturates to `LONG_MIN` or `LONG_MAX`, and glibc stores its low 32 bits for `%d`.
-/

namespace Sshnack

def isSpace (c : UInt8) : Bool := c = 32 ∨ (9 ≤ c ∧ c ≤ 13)

def isDigit (c : UInt8) : Bool := 48 ≤ c ∧ c ≤ 57

def toLower (c : UInt8) : UInt8 := if 65 ≤ c ∧ c ≤ 90 then c + 32 else c

def skipSpace (s : CString) : CString := s.dropWhile isSpace

/-- A literal part of a format. -/
def scanLiteral (literal s : CString) : Option CString :=
  if literal <+: s then some (s.drop literal.length) else none

/-- `%<width>s`. -/
def scanWord (width : ℕ) (s : CString) : Option (CString × CString) :=
  match ((skipSpace s).takeWhile fun c => !isSpace c).take width with
  | [] => none
  | c :: word => some (c :: word, (skipSpace s).drop (word.length + 1))

/-- `%<width>[^<stop>]`. -/
def scanUntil (stop : UInt8) (width : ℕ) (s : CString) : Option (CString × CString) :=
  match (s.takeWhile (· ≠ stop)).take width with
  | [] => none
  | c :: word => some (c :: word, s.drop (word.length + 1))

def digitsValue (digits : CString) : ℕ := digits.foldl (fun n c => 10 * n + (c.toNat - 48)) 0

def clampLong (x : Int) : Int := max (-2 ^ 63) (min (2 ^ 63 - 1) x)

/-- White space, an optional sign and at least one digit. -/
def scanLong (s : CString) : Option (Int × CString) :=
  let unsigned (negative : Bool) (t : CString) : Option (Int × CString) :=
    match t.takeWhile isDigit with
    | [] => none
    | c :: digits =>
        some (clampLong (if negative then -digitsValue (c :: digits) else digitsValue (c :: digits)),
          t.dropWhile isDigit)
  match skipSpace s with
  | 45 :: t => unsigned true t
  | 43 :: t => unsigned false t
  | t => unsigned false t

/-- `%d`. -/
def scanInt (s : CString) : Option Int32 := (scanLong s).map fun r => Int32.ofInt r.1

/-- `strtol(s, &end, 10)`: the value and the text at `end`. -/
def strtol (s : CString) : Int × CString := (scanLong s).getD (0, s)

/-- `strstr(s, "\r\n")`: the text before the first CRLF and the text behind it. -/
def splitCrlf : CString → Option (CString × CString)
  | [] => none
  | c :: s =>
      if c = 13 ∧ s.head? = some 10 then some ([], s.drop 1)
      else (splitCrlf s).map fun r => (c :: r.1, r.2)

/-- `%d` of `printf`. -/
def formatInt (x : Int32) : CString := ascii (toString x.toInt)

def crlf : CString := [13, 10]

/-- A line break at the front. -/
theorem crlf_prefix_cons {c : UInt8} {s : CString} :
    crlf <+: c :: s ↔ c = 13 ∧ s.head? = some 10 := by
  rw [crlf, List.cons_prefix_cons, eq_comm (a := (13 : UInt8))]
  apply and_congr_right
  intro _
  cases s with
  | nil => simp
  | cons d s => simp [List.cons_prefix_cons, eq_comm]

theorem splitCrlf_append {s : CString} (h : ¬ crlf <:+: s) (rest : CString) :
    splitCrlf (s ++ 13 :: 10 :: rest) = some (s, rest) := by
  induction s with
  | nil => simp [splitCrlf]
  | cons c s ih =>
    have hs : ¬ crlf <:+: s := fun hwithin => h (hwithin.trans (List.suffix_cons c s).isInfix)
    have hcr : ¬ (c = 13 ∧ (s ++ 13 :: 10 :: rest).head? = some 10) := by
      rintro ⟨hc, hlf⟩
      cases s with
      | nil => cases hlf
      | cons d s =>
        have hd : (d :: s).head? = some 10 := hlf
        exact h (crlf_prefix_cons.2 ⟨hc, hd⟩).isInfix
    rw [List.cons_append, splitCrlf, if_neg hcr, ih hs]
    rfl

theorem splitCrlf_none {s : CString} (h : ¬ crlf <:+: s) : splitCrlf s = none := by
  induction s with
  | nil => rfl
  | cons c s ih =>
    have hs : ¬ crlf <:+: s := fun hwithin => h (hwithin.trans (List.suffix_cons c s).isInfix)
    have hcr : ¬ (c = 13 ∧ s.head? = some 10) := fun hcr => h (crlf_prefix_cons.2 hcr).isInfix
    rw [splitCrlf, if_neg hcr, ih hs]
    rfl

theorem crlf_not_within {s : CString} {c : UInt8} (hc : c ∈ crlf) (h : c ∉ s) : ¬ crlf <:+: s :=
  fun hwithin => h (hwithin.subset hc)

theorem splitCrlf_eq_some {s line rest : CString} (h : splitCrlf s = some (line, rest)) :
    s = line ++ 13 :: 10 :: rest ∧ ¬ crlf <:+: line := by
  induction s generalizing line with
  | nil => cases h
  | cons c s ih =>
    rw [splitCrlf] at h
    split_ifs at h with hcr
    · obtain ⟨rfl, hlf⟩ := hcr
      obtain ⟨t, rfl⟩ := List.head?_eq_some_iff.1 hlf
      cases h
      exact ⟨rfl, by simp [crlf]⟩
    · obtain ⟨⟨line', rest'⟩, hs, heq⟩ := Option.map_eq_some_iff.1 h
      cases heq
      obtain ⟨rfl, hline⟩ := ih hs
      refine ⟨rfl, fun hwithin => ?_⟩
      rcases List.infix_cons_iff.1 hwithin with hfront | hwithin
      · obtain ⟨hc, hlf⟩ := crlf_prefix_cons.1 hfront
        obtain ⟨t, rfl⟩ := List.head?_eq_some_iff.1 hlf
        exact hcr ⟨hc, rfl⟩
      · exact hline hwithin

/-- A text is split unless it has no line break. -/
theorem splitCrlf_cases (s : CString) :
    (∃ line rest, splitCrlf s = some (line, rest)) ∨ ¬ crlf <:+: s := by
  induction s with
  | nil => exact .inr (by simp [crlf])
  | cons c s ih =>
    by_cases hcr : c = 13 ∧ s.head? = some 10
    · exact .inl ⟨[], s.drop 1, by rw [splitCrlf, if_pos hcr]⟩
    · rcases ih with ⟨line, rest, hs⟩ | hs
      · exact .inl ⟨c :: line, rest, by rw [splitCrlf, if_neg hcr, hs]; rfl⟩
      · refine .inr fun hwithin => ?_
        rcases List.infix_cons_iff.1 hwithin with hfront | hwithin
        · exact hcr (crlf_prefix_cons.1 hfront)
        · exact hs hwithin

theorem skipSpace_word {w : CString} (hw : ∀ c ∈ w, isSpace c = false) (hne : w ≠ [])
    (rest : CString) : skipSpace (w ++ rest) = w ++ rest := by
  cases w with
  | nil => exact absurd rfl hne
  | cons c w =>
    have hc := hw c List.mem_cons_self
    simp [skipSpace, hc]

theorem scanWord_eq (width : ℕ) (s : CString) : scanWord width s =
    if ((skipSpace s).takeWhile fun c => !isSpace c).take width = [] then none
    else some (((skipSpace s).takeWhile fun c => !isSpace c).take width,
      (skipSpace s).drop (((skipSpace s).takeWhile fun c => !isSpace c).take width).length) := by
  unfold scanWord
  cases ((skipSpace s).takeWhile fun c => !isSpace c).take width <;> rfl

/-- A conversion takes the word at the front, up to its width. -/
theorem scanWord_word {w rest : CString} {width : ℕ} (hw : ∀ c ∈ w, isSpace c = false)
    (hne : w ≠ []) (hrest : ∀ c ∈ rest.head?, isSpace c = true) (hwidth : 0 < width) :
    scanWord width (w ++ rest) = some (w.take width, w.drop width ++ rest) := by
  have hword : (w ++ rest).takeWhile (fun c => !isSpace c) = w := by
    have hstop : rest.takeWhile (fun c => !isSpace c) = [] := by
      cases rest with
      | nil => rfl
      | cons c rest =>
        have hc := hrest c rfl
        simp [hc]
    rw [List.takeWhile_append_of_pos (fun c hc => by simp [hw c hc]), hstop, List.append_nil]
  obtain ⟨c, w, rfl⟩ := List.exists_cons_of_ne_nil hne
  obtain ⟨width, rfl⟩ := Nat.exists_eq_succ_of_ne_zero hwidth.ne'
  have hdrop : (w ++ rest).drop (min width w.length) = w.drop width ++ rest := by
    by_cases hle : width ≤ w.length
    · rw [min_eq_left hle, List.drop_append_of_le_length hle]
    · rw [min_eq_right (by omega), List.drop_left, List.drop_eq_nil_of_le (by omega),
        List.nil_append]
  rw [scanWord, skipSpace_word hw hne rest, hword]
  simp only [Nat.succ_eq_add_one, List.take_succ_cons, List.length_take, List.cons_append,
    List.drop_succ_cons, hdrop]

theorem scanWord_nil (width : ℕ) : scanWord width [] = none := by
  simp [scanWord, skipSpace]

end Sshnack
