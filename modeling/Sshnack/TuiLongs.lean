import Sshnack.TuiAmounts

/-!
# The arithmetic of the prompt parsers

The parsers once more with operations on `long` that have no result when they overflow.
-/

namespace Sshnack.Tui

/-- The result of an operation on `long`s, unless it overflows. -/
def long (x : Int) : Option Int64 := if -2 ^ 63 ≤ x ∧ x < 2 ^ 63 then some (Int64.ofInt x) else none

/-- `v * 10 + (c - '0')`. -/
def appendDigit (v : Int64) (c : UInt8) : Option Int64 := do
  let tenfold ← long (v.toInt * 10)
  long (tenfold.toInt + (c.toNat - 48))

/-- `parseZl`; the inner option is the exit with -1. -/
def parseZlLong : CString → Int64 → Bool → Option (Option (Int64 × Bool × CString))
  | [], zl, seenDigit => some (some (zl, seenDigit, []))
  | c :: s, zl, seenDigit =>
      if c = 46 then some (some (zl, seenDigit, c :: s))
      else if c < 48 ∨ 57 < c then some none
      else do
        let zl ← appendDigit zl c
        if 99999999 < zl then some none else parseZlLong s zl true

def parseGrLong : CString → Int64 → ℕ → Option (Option (Int64 × ℕ))
  | [], gr, fracDigits => some (some (gr, fracDigits))
  | c :: s, gr, fracDigits =>
      if c < 48 ∨ 57 < c then some none
      else if fracDigits < 2 then do
        let gr ← appendDigit gr c
        parseGrLong s gr (fracDigits + 1)
      else some none

/-- The groszy in the text from the point on. -/
def groszyLong : CString → Option (Option Int64)
  | [] => some (some 0)
  | _ :: fraction => do
      let some (gr, fracDigits) ← parseGrLong fraction 0 0 | some none
      if fracDigits = 1 then (long (gr.toInt * 10)).map some else some (some gr)

def parseZlToGrLong (s : CString) : Option Int32 := do
  let some (zl, seenDigit, rest) ← parseZlLong s 0 false | some (-1)
  let some gr ← groszyLong rest | some (-1)
  if seenDigit = false then some (-1)
  else
    let scaled ← long (zl.toInt * 100)
    let result ← long (scaled.toInt + gr.toInt)
    some (if 2147483647 < result then -1 else result.toInt32)

def parsePosLong : CString → Int64 → Option (Option Int64)
  | [], v => some (some v)
  | c :: s, v =>
      if c < 48 ∨ 57 < c then some none
      else do
        let v ← appendDigit v c
        if 2147483647 < v then some none else parsePosLong s v

def parsePosIntLong (s : CString) : Option Int32 :=
  if s = [] then some (-1)
  else do
    let some v ← parsePosLong s 0 | some (-1)
    some (if 0 < v then v.toInt32 else -1)

/-! ### The loops -/

section Loops

variable {s : CString} {n : ℕ} {c : UInt8}

theorem long_ofNat {x : Int} (n : ℕ) (hx : x = n) (hn : n < 2 ^ 63) :
    long x = some (Int64.ofNat n) := by
  rw [long, if_pos (by omega), hx, Int64.ofInt_eq_ofNat]

theorem appendDigit_eq (hc : isDigit c = true) (hn : n ≤ 2147483647) :
    appendDigit (Int64.ofNat n) c = some (Int64.ofNat n * 10 + (Int64.ofNat c.toNat - 48)) := by
  have hrange := isDigit_iff.1 hc
  have htenfold : long ((Int64.ofNat n).toInt * 10) = some (Int64.ofNat (10 * n)) := by
    apply long_ofNat
    · rw [Int64.toInt_ofNat_of_lt (by omega)]
      omega
    · omega
  rw [appendDigit, htenfold, Option.bind_eq_bind, Option.bind_some, step_long n hc]
  apply long_ofNat
  · rw [Int64.toInt_ofNat_of_lt (by omega)]
    omega
  · omega

theorem parseZlLong_eq (hn : n ≤ 99999999) (seen : Bool) :
    parseZlLong s (Int64.ofNat n) seen = some (parseZl s (Int64.ofNat n) seen) := by
  induction s generalizing n seen with
  | nil => rfl
  | cons c s ih =>
    rw [parseZlLong, parseZl]
    split_ifs with hpoint hstop
    · rfl
    · rfl
    · have hc : isDigit c = true := by simpa [not_isDigit_iff] using hstop
      have hcap : (99999999 : Int64) < Int64.ofNat (10 * n + (c.toNat - 48)) ↔ _ :=
        cap_iff (by decide) hn hc
      rw [appendDigit_eq hc (by omega), Option.bind_eq_bind, Option.bind_some, step_long n hc]
      by_cases hlarge : 99999999 < 10 * n + (c.toNat - 48)
      · simp only [hcap, hlarge, if_true]
      · simp only [hcap, hlarge, if_false, ih (Nat.le_of_not_lt hlarge)]

theorem parseGrLong_eq {k : ℕ} (hk : k ≤ 2) (hn : n < 10 ^ k) :
    parseGrLong s (Int64.ofNat n) k = some (parseGr s (Int64.ofNat n) k) := by
  induction s generalizing n k with
  | nil => rfl
  | cons c s ih =>
    rw [parseGrLong, parseGr]
    split_ifs with hstop hfull
    · rfl
    · have hc : isDigit c = true := by simpa [not_isDigit_iff] using hstop
      have hrange := isDigit_iff.1 hc
      have hsmall : n < 10 := hn.trans_le (Nat.pow_le_pow_right (by decide) (by omega) : 10 ^ k ≤ 10 ^ 1)
      have hnext : 10 * n + (c.toNat - 48) < 10 ^ (k + 1) := by
        rw [pow_succ]
        omega
      rw [appendDigit_eq hc (by omega), Option.bind_eq_bind, Option.bind_some, step_long n hc]
      exact ih hfull hnext
    · rfl

theorem parsePosLong_eq (hn : n ≤ 2147483647) :
    parsePosLong s (Int64.ofNat n) = some (parsePos s (Int64.ofNat n)) := by
  induction s generalizing n with
  | nil => rfl
  | cons c s ih =>
    rw [parsePosLong, parsePos]
    split_ifs with hstop
    · rfl
    · have hc : isDigit c = true := by simpa [not_isDigit_iff] using hstop
      have hcap : (2147483647 : Int64) < Int64.ofNat (10 * n + (c.toNat - 48)) ↔ _ :=
        cap_iff le_rfl hn hc
      rw [appendDigit_eq hc hn, Option.bind_eq_bind, Option.bind_some, step_long n hc]
      by_cases hlarge : 2147483647 < 10 * n + (c.toNat - 48)
      · simp only [hcap, hlarge, if_true]
      · simp only [hcap, hlarge, if_false, ih (Nat.le_of_not_lt hlarge)]

end Loops

/-! ### The parsers -/

theorem groszyLong_eq (rest : CString) :
    groszyLong rest = some ((groszyOf rest).map Int64.ofNat) := by
  rcases rest with _ | ⟨c, gr⟩
  · rfl
  · have hlong : parseGrLong gr 0 0 = some (parseGr gr 0 0) :=
      parseGrLong_eq (n := 0) (Nat.zero_le 2) (by decide)
    have hloop : parseGr gr 0 0 = _ := parseGr_eq (n := 0) (Nat.zero_le 2)
    rw [← groszy_eq, groszyLong, hlong, Option.bind_eq_bind, Option.bind_some, hloop]
    by_cases hfits : (∀ c ∈ gr, isDigit c = true) ∧ 0 + gr.length ≤ 2
    · rw [if_pos hfits, Option.bind_some]
      by_cases hone : 0 + gr.length = 1
      · have hlt := digitsValue_lt hfits.1
        rw [zero_add] at hone
        rw [hone] at hlt
        have hvalue : digitsFrom 0 gr = digitsValue gr := rfl
        have hscaled : long ((Int64.ofNat (digitsValue gr)).toInt * 10) =
            some (Int64.ofNat (digitsValue gr * 10)) := by
          apply long_ofNat
          · rw [Int64.toInt_ofNat_of_lt (by omega)]
            omega
          · omega
        simp only [zero_add, hone, if_true, hvalue, hscaled, Int64.ofNat_mul]
        rfl
      · simp only [hone, if_false]
    · rw [if_neg hfits]
      rfl

theorem parseZlToGrLong_eq (s : CString) : parseZlToGrLong s = some (parseZlToGr s) := by
  have hlong : parseZlLong s 0 false = some (parseZl s 0 false) :=
    parseZlLong_eq (n := 0) (Nat.zero_le _) false
  obtain ⟨w, rest, rfl, hw, hrest⟩ := split_point s
  have hloop : parseZl (w ++ rest) 0 false = _ := parseZl_eq (n := 0) hw hrest (Nat.zero_le _) false
  rw [parseZlToGrLong, hlong, Option.bind_eq_bind, Option.bind_some]
  by_cases hdigits : (∀ c ∈ w, isDigit c = true) ∧ digitsFrom 0 w ≤ 99999999
  · rw [if_pos hdigits] at hloop
    rw [parseZlToGr_loops hloop, hloop]
    simp only [groszyLong_eq]
    cases hgr : groszyOf rest with
    | none => rfl
    | some gr =>
      have hsmall := groszyOf_lt hgr
      have hzl := hdigits.2
      have hscaled : long ((Int64.ofNat (digitsFrom 0 w)).toInt * 100) =
          some (Int64.ofNat (100 * digitsFrom 0 w)) := by
        apply long_ofNat
        · rw [Int64.toInt_ofNat_of_lt (by omega)]
          omega
        · omega
      have hsum : long ((Int64.ofNat (100 * digitsFrom 0 w)).toInt + (Int64.ofNat gr).toInt) =
          some (Int64.ofNat (100 * digitsFrom 0 w + gr)) := by
        apply long_ofNat
        · rw [Int64.toInt_ofNat_of_lt (by omega), Int64.toInt_ofNat_of_lt (by omega)]
          omega
        · omega
      simp only [Option.map_some, Option.bind_eq_bind, Option.bind_some, hscaled, hsum,
        (amount_long hzl hsmall).1]
      split_ifs <;> rfl
  · rw [if_neg hdigits] at hloop
    rw [parseZlToGr, hloop]
    rfl

theorem parsePosIntLong_eq (s : CString) : parsePosIntLong s = some (parsePosInt s) := by
  have hlong : parsePosLong s 0 = some (parsePos s 0) := parsePosLong_eq (n := 0) (Nat.zero_le _)
  rw [parsePosIntLong, parsePosInt, hlong]
  split_ifs
  · rfl
  · cases parsePos s 0 <;> rfl

/-- The parsers of the prompt accept their grammars as far as the value fits an `int`, and no
operation on a `long` overflows. -/
theorem parsers_exact (s : CString) :
    (∀ n : ℕ, (parseZlToGr s).toInt = n ↔ IsAmount s n ∧ n ≤ 2147483647) ∧
    (0 ≤ (parseZlToGr s).toInt ∨ parseZlToGr s = -1) ∧
    (∀ n : ℕ, 0 < n → ((parsePosInt s).toInt = n ↔ IsNumber s n ∧ n ≤ 2147483647)) ∧
    (0 < (parsePosInt s).toInt ∨ parsePosInt s = -1) ∧
    parseZlToGrLong s = some (parseZlToGr s) ∧ parsePosIntLong s = some (parsePosInt s) := by
  have hint (n : ℕ) (hn : n ≤ 2147483647) : (Int32.ofNat n).toInt = n :=
    Int32.toInt_ofNat_of_lt (by omega)
  have hminus : (-1 : Int32).toInt = -1 := by decide
  refine ⟨fun n => ⟨fun h => ?_, fun ⟨hform, hn⟩ => ?_⟩, ?_, fun n hpos => ⟨fun h => ?_, ?_⟩, ?_,
    parseZlToGrLong_eq s, parsePosIntLong_eq s⟩
  · rcases parseZlToGr_cases s with hfail | ⟨m, hform, hm, hparse⟩
    · rw [hfail, hminus] at h
      omega
    · rw [hparse, hint m hm, Nat.cast_inj] at h
      exact h ▸ ⟨hform, hm⟩
  · rw [parseZlToGr_amount hform hn, hint n hn]
  · rcases parseZlToGr_cases s with hfail | ⟨m, -, hm, hparse⟩
    · exact .inr hfail
    · left
      rw [hparse, hint m hm]
      omega
  · rw [parsePosInt_eq] at h
    split_ifs at h with hfits
    · rw [hint _ hfits.2.2.2, Nat.cast_inj] at h
      exact ⟨⟨hfits.1, hfits.2.1, h.symm⟩, h ▸ hfits.2.2.2⟩
    · rw [hminus] at h
      omega
  · rintro ⟨⟨hne, hdigits, rfl⟩, hn⟩
    rw [parsePosInt_eq, if_pos ⟨hne, hdigits, hpos, hn⟩, hint _ hn]
  · rw [parsePosInt_eq]
    split_ifs with hfits
    · left
      rw [hint _ hfits.2.2.2]
      omega
    · exact .inr rfl

end Sshnack.Tui
