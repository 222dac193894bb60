import Mathlib.Data.FinEnum
import Sshnack.Decimal
import Sshnack.TuiApp

/-!
# Amounts and numbers in a prompt

`parse_zl_to_gr` and `parse_pos_int` take exactly the texts of their grammars whose value fits an
`int`, and `app_fmt_money` writes an amount in the grammar of the first. The position in the text is
not counted.
-/

namespace Sshnack.Tui

/-- One or more digits, optionally a point and at most two digits: the amount in groszy. -/
def IsAmount (s : CString) (amountGr : ℕ) : Prop :=
  ∃ zl, zl ≠ [] ∧ (∀ c ∈ zl, isDigit c = true) ∧
    ((s = zl ∧ amountGr = 100 * digitsValue zl) ∨
      ∃ gr, gr.length ≤ 2 ∧ (∀ c ∈ gr, isDigit c = true) ∧ s = zl ++ 46 :: gr ∧
        amountGr = 100 * digitsValue zl + 10 ^ (2 - gr.length) * digitsValue gr)

/-- One or more digits with this value. -/
def IsNumber (s : CString) (value : ℕ) : Prop :=
  s ≠ [] ∧ (∀ c ∈ s, isDigit c = true) ∧ value = digitsValue s

/-! ### The loops -/

section Loops

variable {s w rest : CString} {n : ℕ} {c : UInt8}

/-- The value of some digits behind others. -/
def digitsFrom (n : ℕ) (digits : CString) : ℕ :=
  digits.foldl (fun n c => 10 * n + (c.toNat - 48)) n

theorem digitsFrom_le (n : ℕ) (digits : CString) : n ≤ digitsFrom n digits := by
  induction digits generalizing n with
  | nil => exact le_rfl
  | cons c digits ih => exact le_trans (by omega) (ih (10 * n + (c.toNat - 48)))

theorem digitsFrom_cons (n : ℕ) (c : UInt8) (digits : CString) :
    digitsFrom n (c :: digits) = digitsFrom (10 * n + (c.toNat - 48)) digits := by
  rw [digitsFrom, digitsFrom, List.foldl_cons]

theorem not_isDigit_iff : (c < 48 ∨ 57 < c) ↔ isDigit c = false := by
  rw [← not_iff_not, Bool.not_eq_false, isDigit, decide_eq_true_iff, not_or, UInt8.not_lt,
    UInt8.not_lt]

/-- The arithmetic of `long` does not show in a step of the loops. -/
theorem step_long (n : ℕ) (hc : isDigit c = true) :
    Int64.ofNat n * 10 + (Int64.ofNat c.toNat - 48) = Int64.ofNat (10 * n + (c.toNat - 48)) := by
  rw [Int64.ofNat_add, Int64.ofNat_mul, Int64.ofNat_sub _ _ (isDigit_iff.1 hc).1, Int64.mul_comm]
  rfl

/-- The check of a loop whose cap fits an `int`. -/
theorem cap_iff {cap : ℕ} (hcap : cap ≤ 2147483647) (hn : n ≤ cap) (hc : isDigit c = true) :
    Int64.ofNat cap < Int64.ofNat (10 * n + (c.toNat - 48)) ↔ cap < 10 * n + (c.toNat - 48) := by
  have hrange := isDigit_iff.1 hc
  exact Int64.ofNat_lt_iff_lt (by omega) (by omega)

theorem parseZl_eq (hw : 46 ∉ w) (hrest : ∀ c ∈ rest.head?, c = 46) (hn : n ≤ 99999999)
    (seen : Bool) : parseZl (w ++ rest) (Int64.ofNat n) seen =
      if (∀ c ∈ w, isDigit c = true) ∧ digitsFrom n w ≤ 99999999 then
        some (Int64.ofNat (digitsFrom n w), seen || !w.isEmpty, rest)
      else none := by
  induction w generalizing n seen with
  | nil =>
    have hfits : digitsFrom n [] ≤ 99999999 := hn
    rw [if_pos ⟨fun c hc => absurd hc List.not_mem_nil, hfits⟩, List.nil_append]
    cases rest with
    | nil => simp [parseZl, digitsFrom]
    | cons c rest =>
      rw [hrest c rfl]
      simp [parseZl, digitsFrom]
  | cons c w ih =>
    have hpoint : c ≠ 46 := fun heq => hw (heq ▸ List.mem_cons_self)
    have hw' : 46 ∉ w := fun hmem => hw (List.mem_cons_of_mem c hmem)
    rw [List.cons_append, parseZl, if_neg hpoint]
    by_cases hc : isDigit c = true
    · have hrange := isDigit_iff.1 hc
      have hcap : (99999999 : Int64) < Int64.ofNat (10 * n + (c.toNat - 48)) ↔ _ :=
        cap_iff (by decide) hn hc
      have hstop : ¬ (c < 48 ∨ 57 < c) := by simp [not_isDigit_iff, hc]
      rw [if_neg hstop, step_long n hc]
      by_cases hlarge : 99999999 < 10 * n + (c.toNat - 48)
      · have hle := digitsFrom_le (10 * n + (c.toNat - 48)) w
        rw [if_pos (hcap.2 hlarge), if_neg]
        rintro ⟨-, hfits⟩
        rw [digitsFrom_cons] at hfits
        omega
      · rw [if_neg fun hlt => hlarge (hcap.1 hlt), ih hw' (by omega), digitsFrom_cons]
        simp [hc]
    · rw [if_pos (not_isDigit_iff.2 (Bool.not_eq_true _ ▸ hc)), if_neg]
      exact fun hall => hc (hall.1 c List.mem_cons_self)

theorem parseGr_eq {k : ℕ} (hk : k ≤ 2) : parseGr w (Int64.ofNat n) k =
    if (∀ c ∈ w, isDigit c = true) ∧ k + w.length ≤ 2 then
      some (Int64.ofNat (digitsFrom n w), k + w.length)
    else none := by
  induction w generalizing n k with
  | nil =>
    rw [if_pos ⟨fun c hc => absurd hc List.not_mem_nil, hk⟩]
    rfl
  | cons c w ih =>
    rw [parseGr]
    by_cases hc : isDigit c = true
    · have hstop : ¬ (c < 48 ∨ 57 < c) := by simp [not_isDigit_iff, hc]
      rw [if_neg hstop]
      by_cases hfull : k < 2
      · rw [if_pos hfull, step_long n hc, ih (by omega), digitsFrom_cons]
        simp [hc, add_assoc, add_comm 1]
      · rw [if_neg hfull, if_neg]
        rintro ⟨-, hfits⟩
        rw [List.length_cons] at hfits
        omega
    · rw [if_pos (not_isDigit_iff.2 (Bool.not_eq_true _ ▸ hc)), if_neg]
      exact fun hall => hc (hall.1 c List.mem_cons_self)

theorem parsePos_eq (hn : n ≤ 2147483647) : parsePos w (Int64.ofNat n) =
    if (∀ c ∈ w, isDigit c = true) ∧ digitsFrom n w ≤ 2147483647 then
      some (Int64.ofNat (digitsFrom n w))
    else none := by
  induction w generalizing n with
  | nil =>
    have hfits : digitsFrom n [] ≤ 2147483647 := hn
    rw [if_pos ⟨fun c hc => absurd hc List.not_mem_nil, hfits⟩]
    rfl
  | cons c w ih =>
    rw [parsePos]
    by_cases hc : isDigit c = true
    · have hrange := isDigit_iff.1 hc
      have hcap : (2147483647 : Int64) < Int64.ofNat (10 * n + (c.toNat - 48)) ↔ _ :=
        cap_iff le_rfl hn hc
      have hstop : ¬ (c < 48 ∨ 57 < c) := by simp [not_isDigit_iff, hc]
      rw [if_neg hstop, step_long n hc]
      by_cases hlarge : 2147483647 < 10 * n + (c.toNat - 48)
      · have hle := digitsFrom_le (10 * n + (c.toNat - 48)) w
        rw [if_pos (hcap.2 hlarge), if_neg]
        rintro ⟨-, hfits⟩
        rw [digitsFrom_cons] at hfits
        omega
      · rw [if_neg fun hlt => hlarge (hcap.1 hlt), ih (by omega), digitsFrom_cons]
        simp [hc]
    · rw [if_pos (not_isDigit_iff.2 (Bool.not_eq_true _ ▸ hc)), if_neg]
      exact fun hall => hc (hall.1 c List.mem_cons_self)

end Loops

/-! ### The parsers -/

section Parsers

variable {s w : CString} {n : ℕ}

theorem digitsValue_lt (hw : ∀ c ∈ w, isDigit c = true) : digitsValue w < 10 ^ w.length := by
  induction w using List.reverseRecOn with
  | nil => decide
  | append_singleton w c ih =>
    have hc := isDigit_iff.1 (hw c (by simp))
    have hprefix := ih fun d hd => hw d (List.mem_append_left [c] hd)
    have hlast : digitsValue [c] = c.toNat - 48 := by simp [digitsValue]
    rw [digitsValue_append, hlast, List.length_append, List.length_singleton, pow_one, pow_succ]
    omega

/-- The groszy in the text from the point on. -/
def groszyOf : CString → Option ℕ
  | [] => some 0
  | _ :: gr =>
      if (∀ c ∈ gr, isDigit c = true) ∧ gr.length ≤ 2 then
        some (10 ^ (2 - gr.length) * digitsValue gr)
      else none

def amountOf (zl rest : CString) : Option ℕ :=
  if zl ≠ [] ∧ ∀ c ∈ zl, isDigit c = true then (groszyOf rest).map (100 * digitsValue zl + ·)
  else none

theorem groszyOf_lt {rest : CString} {gr : ℕ} (h : groszyOf rest = some gr) : gr < 100 := by
  cases rest with
  | nil =>
    cases h
    decide
  | cons c rest =>
    rw [groszyOf] at h
    split_ifs at h with hrest
    cases h
    have hlt := digitsValue_lt hrest.1
    have hpow : 10 ^ (2 - rest.length) * 10 ^ rest.length = 100 := by
      rw [← pow_add, Nat.sub_add_cancel hrest.2]
      rfl
    rw [← hpow]
    exact Nat.mul_lt_mul_of_pos_left hlt (by positivity)

/-- The second half of `parse_zl_to_gr`. -/
theorem groszy_eq (c : UInt8) (w : CString) :
    ((parseGr w 0 0).bind fun r => some (if r.2 = 1 then r.1 * 10 else r.1)) =
      (groszyOf (c :: w)).map Int64.ofNat := by
  have hloop : parseGr w 0 0 = _ := parseGr_eq (n := 0) (Nat.zero_le 2)
  rw [hloop, zero_add, groszyOf]
  by_cases hfits : (∀ c ∈ w, isDigit c = true) ∧ w.length ≤ 2
  · rw [if_pos hfits, if_pos hfits, Option.bind_some, Option.map_some]
    have hvalue : digitsFrom 0 w = digitsValue w := rfl
    have hlen : w.length = 0 ∨ w.length = 1 ∨ w.length = 2 := by omega
    rw [hvalue]
    rcases hlen with hlen | hlen | hlen
    · rw [List.length_eq_zero_iff.1 hlen]
      rfl
    · rw [hlen, if_pos rfl, Int64.ofNat_mul, Int64.mul_comm]
      rfl
    · have htwo : ¬ 2 = 1 := by decide
      rw [hlen, if_neg htwo, Nat.sub_self, pow_zero, one_mul]
  · rw [if_neg hfits, if_neg hfits, Option.bind_none, Option.map_none]

/-- The amount `zl * 100 + gr` is in the range of `long`. -/
theorem amount_long {zl gr : ℕ} (hzl : zl ≤ 99999999) (hgr : gr < 100) :
    Int64.ofNat zl * 100 + Int64.ofNat gr = Int64.ofNat (100 * zl + gr) ∧
      (2147483647 < Int64.ofNat (100 * zl + gr) ↔ 2147483647 < 100 * zl + gr) := by
  refine ⟨?_, Int64.ofNat_lt_iff_lt (by decide) (by omega)⟩
  rw [Int64.ofNat_add, Int64.ofNat_mul, Int64.mul_comm]
  rfl

/-- The last lines of `parse_zl_to_gr`. -/
theorem result_eq {zl gr : ℕ} (hzl : zl ≤ 99999999) (hgr : gr < 100) :
    (if 2147483647 < Int64.ofNat zl * 100 + Int64.ofNat gr then none
      else some (Int64.ofNat zl * 100 + Int64.ofNat gr).toInt32) =
      ((some (100 * zl + gr)).filter (· ≤ 2147483647)).map Int32.ofNat := by
  obtain ⟨hsum, hcap⟩ := amount_long hzl hgr
  rw [hsum, Int64.toInt32_ofNat']
  by_cases hlarge : 2147483647 < 100 * zl + gr
  · rw [if_pos (hcap.2 hlarge), Option.filter_some_neg (by simpa using hlarge), Option.map_none]
  · rw [if_neg fun h => hlarge (hcap.1 h), Option.filter_some_pos (by simpa using hlarge),
      Option.map_some]

/-- The amount behind the first loop. -/
theorem parseZlToGr_loops {zl : Int64} {seen : Bool} {rest : CString}
    (hloop : parseZl s 0 false = some (zl, seen, rest)) :
    parseZlToGr s = (((groszyOf rest).map Int64.ofNat).bind fun gr =>
      if seen = false then none
      else if 2147483647 < zl * 100 + gr then none
      else some (zl * 100 + gr).toInt32).getD (-1) := by
  rw [parseZlToGr, hloop]
  rcases rest with _ | ⟨c, gr⟩
  · rfl
  · rw [← groszy_eq c, Option.bind_assoc]
    rfl

theorem parseZlToGr_eq {rest : CString} (hw : 46 ∉ w) (hrest : ∀ c ∈ rest.head?, c = 46) :
    parseZlToGr (w ++ rest) =
      (((amountOf w rest).filter (· ≤ 2147483647)).map Int32.ofNat).getD (-1) := by
  have hloop : parseZl (w ++ rest) 0 false = _ := parseZl_eq (n := 0) hw hrest (Nat.zero_le _) false
  have hvalue : digitsFrom 0 w = digitsValue w := rfl
  rw [hvalue, Bool.false_or] at hloop
  by_cases hloops : (∀ c ∈ w, isDigit c = true) ∧ digitsValue w ≤ 99999999
  · obtain ⟨hdigits, hcap⟩ := hloops
    rw [if_pos ⟨hdigits, hcap⟩] at hloop
    rw [parseZlToGr_loops hloop, amountOf]
    cases hgr : groszyOf rest with
    | none => simp
    | some gr =>
      rw [Option.map_some, Option.bind_some, Option.map_some, result_eq hcap (groszyOf_lt hgr)]
      cases w with
      | nil => rfl
      | cons d w =>
        have hseen : ¬ (!(d :: w).isEmpty) = false := by simp
        rw [if_neg hseen, if_pos ⟨List.cons_ne_nil d w, hdigits⟩]
  · rw [if_neg hloops] at hloop
    have hfails : parseZlToGr (w ++ rest) = -1 := by
      rw [parseZlToGr, hloop]
      rfl
    rw [hfails, amountOf]
    by_cases hdigits : ∀ c ∈ w, isDigit c = true
    · have hlarge : 99999999 < digitsValue w := by
        by_contra hcap
        exact hloops ⟨hdigits, by omega⟩
      have hnone (gr : ℕ) : (some (100 * digitsValue w + gr)).filter (· ≤ 2147483647) = none :=
        Option.filter_some_neg (by simp; omega)
      by_cases hne : w ≠ [] ∧ ∀ c ∈ w, isDigit c = true
      · rw [if_pos hne]
        cases groszyOf rest with
        | none => rfl
        | some gr => rw [Option.map_some, hnone]; rfl
      · rw [if_neg hne]
        rfl
    · rw [if_neg fun h => hdigits h.2]
      rfl

theorem isAmount_of_amountOf {rest : CString} (hrest : ∀ c ∈ rest.head?, c = 46)
    (h : amountOf w rest = some n) : IsAmount (w ++ rest) n := by
  rw [amountOf] at h
  split_ifs at h with hw
  obtain ⟨gr, hgr, rfl⟩ := Option.map_eq_some_iff.1 h
  refine ⟨w, hw.1, hw.2, ?_⟩
  rcases rest with _ | ⟨c, rest⟩
  · cases hgr
    exact .inl ⟨List.append_nil w, rfl⟩
  · rw [groszyOf] at hgr
    split_ifs at hgr with hdigits
    cases hgr
    exact .inr ⟨rest, hdigits.2, hdigits.1, by rw [hrest c rfl], rfl⟩

/-- An amount is taken apart at its point. -/
theorem IsAmount.split (h : IsAmount s n) : ∃ w rest, s = w ++ rest ∧ 46 ∉ w ∧
    (∀ c ∈ rest.head?, c = 46) ∧ amountOf w rest = some n := by
  obtain ⟨zl, hne, hzl, hform⟩ := h
  have hpoint : 46 ∉ zl := fun hmem => absurd (hzl 46 hmem) (by decide)
  rcases hform with ⟨rfl, rfl⟩ | ⟨gr, hlen, hgr, rfl, rfl⟩
  · refine ⟨s, [], (List.append_nil s).symm, hpoint, by simp, ?_⟩
    rw [amountOf, if_pos ⟨hne, hzl⟩]
    rfl
  · refine ⟨zl, 46 :: gr, rfl, hpoint, by simp, ?_⟩
    rw [amountOf, if_pos ⟨hne, hzl⟩, groszyOf, if_pos ⟨hgr, hlen⟩]
    rfl

theorem IsAmount.noNul (h : IsAmount s n) : 0 ∉ s := by
  obtain ⟨zl, -, hzl, hform⟩ := h
  have hdigits (w : CString) (hw : ∀ c ∈ w, isDigit c = true) : 0 ∉ w :=
    fun hmem => absurd (hw 0 hmem) (by decide)
  rcases hform with ⟨rfl, -⟩ | ⟨gr, -, hgr, rfl, -⟩
  · exact hdigits s hzl
  · simp [hdigits zl hzl, hdigits gr hgr]

theorem split_point (s : CString) :
    ∃ w rest, s = w ++ rest ∧ 46 ∉ w ∧ ∀ c ∈ rest.head?, c = 46 := by
  refine ⟨s.takeWhile (· ≠ 46), s.dropWhile (· ≠ 46), List.takeWhile_append_dropWhile.symm, ?_, ?_⟩
  · intro hmem
    have hstop := List.all_eq_true.1 List.all_takeWhile 46 hmem
    simp at hstop
  · intro c hc
    have hstop := List.head?_dropWhile_not (fun c : UInt8 => decide (c ≠ 46)) s
    rw [hc] at hstop
    simpa using hstop

theorem parseZlToGr_amount (h : IsAmount s n) (hn : n ≤ 2147483647) :
    parseZlToGr s = Int32.ofNat n := by
  obtain ⟨w, rest, rfl, hw, hrest, hamount⟩ := h.split
  rw [parseZlToGr_eq hw hrest, hamount, Option.filter_some_pos (by simpa using hn)]
  rfl

theorem parseZlToGr_cases (s : CString) : parseZlToGr s = -1 ∨
    ∃ n, IsAmount s n ∧ n ≤ 2147483647 ∧ parseZlToGr s = Int32.ofNat n := by
  obtain ⟨w, rest, rfl, hw, hrest⟩ := split_point s
  have hparse := parseZlToGr_eq hw hrest
  cases hamount : (amountOf w rest).filter (· ≤ 2147483647) with
  | none =>
    rw [hamount] at hparse
    exact .inl hparse
  | some n =>
    rw [hamount] at hparse
    obtain ⟨hsome, hfits⟩ := Option.filter_eq_some_iff.1 hamount
    exact .inr ⟨n, isAmount_of_amountOf hrest hsome, of_decide_eq_true hfits, hparse⟩

theorem parsePosInt_eq (s : CString) : parsePosInt s =
    if s ≠ [] ∧ (∀ c ∈ s, isDigit c = true) ∧ 0 < digitsValue s ∧ digitsValue s ≤ 2147483647 then
      Int32.ofNat (digitsValue s)
    else -1 := by
  have hloop : parsePos s 0 = _ := parsePos_eq (n := 0) (Nat.zero_le _)
  have hvalue : digitsFrom 0 s = digitsValue s := rfl
  rw [hvalue] at hloop
  by_cases hne : s = []
  · rw [parsePosInt, if_pos hne, if_neg fun h => h.1 hne]
  · rw [parsePosInt, if_neg hne, hloop]
    by_cases hfits : (∀ c ∈ s, isDigit c = true) ∧ digitsValue s ≤ 2147483647
    · have hpos : 0 < Int64.ofNat (digitsValue s) ↔ 0 < digitsValue s :=
        Int64.ofNat_lt_iff_lt (by decide) (by omega)
      rw [if_pos hfits]
      by_cases hzero : 0 < digitsValue s
      · rw [if_pos ⟨hne, hfits.1, hzero, hfits.2⟩]
        simp only [hpos.2 hzero, if_true, Int64.toInt32_ofNat']
      · rw [if_neg fun h => hzero h.2.2.1]
        simp only [hpos, hzero, if_false]
    · rw [if_neg hfits, if_neg fun h => hfits ⟨h.2.1, h.2.2.2⟩]

end Parsers

/-! ### Money -/

section Money

variable {gr : Int32}

/-- The digits that `%02d` writes for the groszy. -/
theorem formatTwo_digits {x : Int32} {n : ℕ} (hx : x.toInt = n) (hn : n < 100) :
    (∀ c ∈ formatTwo x, isDigit c = true) ∧ (formatTwo x).length = 2 ∧
      digitsValue (formatTwo x) = n := by
  have hformat : formatInt x = decimal n := by
    rw [formatInt_of_nonneg (by omega), hx, Int.toNat_natCast]
  have hten : (10 : Int32).toInt = 10 := by decide
  have hzero : (0 : Int32).toInt = 0 := by decide
  by_cases hlt : n < 10
  · have hpad : 0 ≤ x ∧ x < 10 := by
      rw [Int32.le_iff_toInt_le, Int32.lt_iff_toInt_lt, hx, hten, hzero]
      omega
    rw [formatTwo, if_pos hpad, hformat]
    refine ⟨List.forall_mem_cons.2 ⟨by decide, decimal_digits n⟩, ?_, ?_⟩
    · rw [List.length_cons, decimal_length_eq, Nat.log_of_lt hlt]
    · have hvalue : digitsValue (48 :: decimal n) = digitsValue (decimal n) := rfl
      rw [hvalue, digitsValue_decimal]
  · have hplain : ¬ (0 ≤ x ∧ x < 10) := by
      rw [Int32.le_iff_toInt_le, Int32.lt_iff_toInt_lt, hx, hten, hzero]
      omega
    have hlog : Nat.log 10 n = 1 := (Nat.log_eq_iff (.inl one_ne_zero)).2 ⟨by omega, by omega⟩
    rw [formatTwo, if_neg hplain, hformat]
    refine ⟨decimal_digits n, ?_, digitsValue_decimal n⟩
    rw [decimal_length_eq, hlog]

/-- The text of an amount is one of at most 11 characters. -/
theorem money_text (h : 0 ≤ gr) :
    IsAmount (formatInt (gr / 100) ++ ascii "." ++ formatTwo (gr % 100)) gr.toInt.toNat ∧
      (formatInt (gr / 100) ++ ascii "." ++ formatTwo (gr % 100)).length ≤ 11 := by
  have hmax := gr.toInt_lt
  obtain ⟨n, hn⟩ := Int.eq_ofNat_of_zero_le (Int32.le_iff_toInt_le.1 h)
  have hhundred : (100 : Int32).toInt = 100 := by decide
  have hzl : (gr / 100).toInt = (n / 100 : ℕ) := by
    rw [Int32.toInt_div_of_ne_right _ _ (by decide), hn, hhundred]
    rfl
  have hgr : (gr % 100).toInt = (n % 100 : ℕ) := by
    rw [Int32.toInt_mod, hn, hhundred]
    rfl
  obtain ⟨hdigits, htwo, hvalue⟩ := formatTwo_digits hgr (Nat.mod_lt n (by decide))
  have hdecimal : formatInt (gr / 100) = decimal (n / 100) := by
    rw [formatInt_of_nonneg (by omega), hzl, Int.toNat_natCast]
  have hshape : formatInt (gr / 100) ++ ascii "." ++ formatTwo (gr % 100) =
      decimal (n / 100) ++ 46 :: formatTwo (gr % 100) := by
    rw [hdecimal, List.append_assoc]
    rfl
  rw [hshape]
  constructor
  · refine ⟨decimal (n / 100), decimal_ne_nil _, decimal_digits _,
      .inr ⟨formatTwo (gr % 100), htwo.le, hdigits, rfl, ?_⟩⟩
    rw [digitsValue_decimal, hvalue, htwo, hn, Nat.sub_self, pow_zero, one_mul, Nat.div_add_mod]
    rfl
  · have hlen : (decimal (n / 100)).length ≤ 8 := decimal_length (by decide) (by omega)
    rw [List.length_append, List.length_cons, htwo]
    omega

theorem parseZlToGr_appFmtMoney (h : 0 ≤ gr) : parseZlToGr (appFmtMoney gr 16) = gr := by
  obtain ⟨hamount, hlen⟩ := money_text h
  have hzero := Int32.le_iff_toInt_le.1 h
  have hmax := gr.toInt_lt
  have hback : Int32.ofNat gr.toInt.toNat = gr := by
    rw [← Int32.toInt_inj, Int32.toInt_ofNat_of_lt (by omega)]
    exact Int.toNat_of_nonneg hzero
  rw [appFmtMoney, snprintf, List.take_of_length_le (by omega),
    parseZlToGr_amount hamount (by omega), hback]

/-- `app_fmt_money` writes its whole text, which fits the prompt and is read back. -/
theorem appFmtMoney_exact (h : 0 ≤ gr) :
    appFmtMoney gr 16 = formatInt (gr / 100) ++ ascii "." ++ formatTwo (gr % 100) ∧
    (∃ buf : Vector UInt8 promptBufLen, cstr buf = some (appFmtMoney gr 16)) ∧
    parseZlToGr (appFmtMoney gr 16) = gr ∧
    ∀ gr', 0 ≤ gr' → appFmtMoney gr' 16 = appFmtMoney gr 16 → gr' = gr := by
  obtain ⟨hamount, hlen⟩ := money_text h
  have hwhole : appFmtMoney gr 16 = formatInt (gr / 100) ++ ascii "." ++ formatTwo (gr % 100) :=
    List.take_of_length_le (by omega)
  refine ⟨hwhole, ?_, parseZlToGr_appFmtMoney h, fun gr' h' heq => ?_⟩
  · rw [hwhole]
    obtain ⟨buf, rest, -, hbuf⟩ := sprintf_some
      (List.nil_append (Vector.replicate promptBufLen (0 : UInt8)).toList).symm
      (by rw [List.length_nil, promptBufLen]; omega : ([] : CString).length +
        (formatInt (gr / 100) ++ ascii "." ++ formatTwo (gr % 100)).length < promptBufLen)
    exact ⟨buf, cstr_iff.2 ⟨hamount.noNul, rest, hbuf⟩⟩
  · rw [← parseZlToGr_appFmtMoney h', heq, parseZlToGr_appFmtMoney h]

theorem appFmtMoney_max :
    appFmtMoney 2147483647 16 =
      formatInt (2147483647 / 100) ++ ascii "." ++ formatTwo (2147483647 % 100) ∧
    (∃ buf : Vector UInt8 promptBufLen, cstr buf = some (appFmtMoney 2147483647 16)) ∧
    parseZlToGr (appFmtMoney 2147483647 16) = 2147483647 ∧
    ∀ gr', 0 ≤ gr' → appFmtMoney gr' 16 = appFmtMoney 2147483647 16 → gr' = 2147483647 :=
  appFmtMoney_exact (by decide)

end Money

end Sshnack.Tui
