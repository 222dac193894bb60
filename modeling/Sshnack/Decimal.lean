import Sshnack.CScan

/-!
# Decimal numerals

What `%d` of `printf` writes is a sign for a negative number and the decimal digits of its absolute
value, and `%d` of `scanf` and `strtol` read the same number back. The digits end where the text ends
or goes on with something that is no digit.
-/

namespace Sshnack

/-- The decimal digits of a number. -/
def decimal (n : ℕ) : CString := (Nat.toDigits 10 n).map fun c => c.toNat.toUInt8

theorem ascii_toString (n : ℕ) : ascii (toString n) = decimal n := by
  rw [ascii, decimal]
  exact congrArg _ Nat.toList_repr

theorem ascii_append (s t : String) : ascii (s ++ t) = ascii s ++ ascii t := by
  simp [ascii]

theorem decimal_ne_nil (n : ℕ) : decimal n ≠ [] := by
  simp [decimal, Nat.toDigits_ne_nil]

theorem decimal_length {n k : ℕ} (hk : 0 < k) (h : n < 10 ^ k) : (decimal n).length ≤ k := by
  rw [decimal, List.length_map]
  exact (Nat.length_toDigits_le_iff (by decide) hk).2 h

theorem decimal_length_eq (n : ℕ) : (decimal n).length = Nat.log 10 n + 1 := by
  have hle (k : ℕ) (hk : 0 < k) : (decimal n).length ≤ k ↔ n < 10 ^ k := by
    rw [decimal, List.length_map]
    exact Nat.length_toDigits_le_iff (by decide) hk
  apply le_antisymm
  · exact (hle _ (Nat.succ_pos _)).2 (Nat.lt_pow_succ_log_self (by decide) n)
  · by_contra hshort
    have hpos := List.length_pos_iff.2 (decimal_ne_nil n)
    have hlt := (hle (Nat.log 10 n) (by omega)).1 (by omega)
    have hne : n ≠ 0 := by
      rintro rfl
      rw [Nat.log_zero_right] at hshort
      omega
    exact absurd (Nat.pow_log_le_self 10 hne) (by omega)

theorem isDigit_iff {c : UInt8} : isDigit c = true ↔ 48 ≤ c.toNat ∧ c.toNat ≤ 57 := by
  rw [isDigit, decide_eq_true_iff, UInt8.le_iff_toNat_le, UInt8.le_iff_toNat_le]
  rfl

/-- A digit as a character and as a byte. -/
theorem digit_byte {c : Char} (h : c.isDigit = true) :
    isDigit c.toNat.toUInt8 = true ∧ c.toNat.toUInt8.toNat = c.toNat := by
  have hrange : 48 ≤ c.toNat ∧ c.toNat ≤ 57 := by
    simpa [Char.isDigit, UInt32.le_iff_toNat_le] using h
  have hbyte : c.toNat.toUInt8.toNat = c.toNat := by
    rw [Nat.toUInt8_eq, UInt8.toNat_ofNat']
    omega
  exact ⟨isDigit_iff.2 (by rwa [hbyte]), hbyte⟩

theorem decimal_digits (n : ℕ) : ∀ c ∈ decimal n, isDigit c = true := by
  intro c hc
  obtain ⟨d, hd, rfl⟩ := List.mem_map.1 hc
  exact (digit_byte (Nat.isDigit_of_mem_toDigits (by decide) (by decide) hd)).1

theorem digitsValue_decimal (n : ℕ) : digitsValue (decimal n) = n := by
  have hfold : ∀ (cs : List Char) (v : ℕ), (∀ c ∈ cs, c.isDigit = true) →
      (cs.map fun c => c.toNat.toUInt8).foldl (fun n c => 10 * n + (c.toNat - 48)) v =
        Nat.ofDigitChars 10 cs v := by
    intro cs
    induction cs with
    | nil => exact fun v _ => rfl
    | cons c cs ih =>
      intro v hcs
      have hc := (digit_byte (hcs c List.mem_cons_self)).2
      rw [List.map_cons, List.foldl_cons, hc, ih _ fun d hd => hcs d (List.mem_cons_of_mem c hd),
        Nat.ofDigitChars_cons]
      rfl
  rw [digitsValue, decimal, hfold _ _ fun c hc => Nat.isDigit_of_mem_toDigits (by decide) (by decide) hc]
  exact Nat.ofDigitChars_ten_toDigits

theorem formatInt_of_nonneg {x : Int32} (h : 0 ≤ x.toInt) : formatInt x = decimal x.toInt.toNat := by
  obtain ⟨n, hn⟩ := Int.eq_ofNat_of_zero_le h
  rw [formatInt, hn]
  exact ascii_toString n

theorem formatInt_of_neg {x : Int32} (h : x.toInt < 0) :
    formatInt x = 45 :: decimal (-x.toInt).toNat := by
  obtain ⟨n, hn⟩ := Int.eq_negSucc_of_lt_zero h
  rw [formatInt, hn]
  change ascii ("-" ++ toString (n + 1)) = _
  rw [ascii_append, ascii_toString]
  rfl

theorem formatInt_length (x : Int32) : (formatInt x).length ≤ 11 := by
  have hlow := x.le_toInt
  have hhigh := x.toInt_lt
  by_cases h : 0 ≤ x.toInt
  · rw [formatInt_of_nonneg h]
    exact (decimal_length (k := 10) (by decide) (by omega)).trans (by decide)
  · rw [formatInt_of_neg (by omega), List.length_cons]
    exact Nat.succ_le_succ (decimal_length (by decide) (by omega))

theorem formatInt_length_eq (x : Int32) :
    (formatInt x).length = (if x.toInt < 0 then 1 else 0) + (Nat.log 10 x.toInt.natAbs + 1) := by
  by_cases h : x.toInt < 0
  · have habs : (-x.toInt).toNat = x.toInt.natAbs := by omega
    rw [formatInt_of_neg h, if_pos h, List.length_cons, decimal_length_eq, habs]
    omega
  · have habs : x.toInt.toNat = x.toInt.natAbs := by omega
    rw [formatInt_of_nonneg (by omega), if_neg h, decimal_length_eq, habs, zero_add]

/-! ### Scanning -/

variable {rest : CString}

section Digits

variable {w : CString} (hw : ∀ c ∈ w, isDigit c = true) (hrest : ∀ c ∈ rest.head?, isDigit c = false)
include hw hrest

theorem takeWhile_digits : (w ++ rest).takeWhile isDigit = w := by
  rw [List.takeWhile_append_of_pos hw]
  cases rest with
  | nil => simp
  | cons c rest => simp [hrest c rfl]

theorem dropWhile_digits : (w ++ rest).dropWhile isDigit = rest := by
  rw [List.dropWhile_append_of_pos hw]
  cases rest with
  | nil => rfl
  | cons c rest => simp [hrest c rfl]

end Digits

theorem digitsValue_append (v w : CString) :
    digitsValue (v ++ w) = digitsValue v * 10 ^ w.length + digitsValue w := by
  induction w using List.reverseRecOn with
  | nil => simp [digitsValue]
  | append_singleton w c ih =>
    have hsnoc (u : CString) : digitsValue (u ++ [c]) = 10 * digitsValue u + (c.toNat - 48) := by
      simp [digitsValue]
    rw [← List.append_assoc, hsnoc, hsnoc, ih, List.length_append, List.length_singleton, pow_succ]
    ring

theorem clampLong_toInt (x : Int32) : clampLong x.toInt = x.toInt := by
  have hlow := x.le_toInt
  have hhigh := x.toInt_lt
  unfold clampLong
  omega

/-- A digit is neither white space nor a sign. -/
theorem digit_plain {c : UInt8} (h : isDigit c = true) :
    isSpace c = false ∧ c ≠ 45 ∧ c ≠ 43 := by
  have hrange := isDigit_iff.1 h
  have hne : ∀ d : UInt8, d.toNat < 48 → c ≠ d := by
    rintro d hd rfl
    omega
  refine ⟨?_, hne 45 (by decide), hne 43 (by decide)⟩
  rw [isSpace, decide_eq_false_iff_not, UInt8.le_iff_toNat_le, UInt8.le_iff_toNat_le]
  rintro (hspace | ⟨_, hhigh⟩)
  · exact hne 32 (by decide) hspace
  · have hhigh' : c.toNat ≤ 13 := hhigh
    omega

theorem formatInt_chars (x : Int32) : ∀ c ∈ formatInt x, isDigit c = true ∨ c = 45 := by
  intro c hc
  by_cases h : 0 ≤ x.toInt
  · rw [formatInt_of_nonneg h] at hc
    exact .inl (decimal_digits _ c hc)
  · rw [formatInt_of_neg (by omega)] at hc
    rcases List.mem_cons.1 hc with rfl | hc
    · exact .inr rfl
    · exact .inl (decimal_digits _ c hc)

/-- What is written for a number has no space, no NUL and no slash. -/
theorem formatInt_plain (x : Int32) :
    ∀ c ∈ formatInt x, isSpace c = false ∧ c ≠ 0 ∧ c ≠ 47 := by
  intro c hc
  rcases formatInt_chars x c hc with hdigit | rfl
  · have hrange := isDigit_iff.1 hdigit
    refine ⟨(digit_plain hdigit).1, ?_, ?_⟩ <;> rintro rfl <;> exact absurd hdigit (by decide)
  · decide

theorem formatInt_ne_nil (x : Int32) : formatInt x ≠ [] := by
  by_cases h : 0 ≤ x.toInt
  · rw [formatInt_of_nonneg h]
    exact decimal_ne_nil _
  · rw [formatInt_of_neg (by omega)]
    exact List.cons_ne_nil _ _

theorem scanLong_digits {w : CString} (hne : w ≠ []) (hw : ∀ c ∈ w, isDigit c = true)
    (hrest : ∀ c ∈ rest.head?, isDigit c = false) :
    scanLong (w ++ rest) = some (clampLong (digitsValue w), rest) ∧
      scanLong (45 :: w ++ rest) = some (clampLong (-digitsValue w), rest) ∧
      scanLong (43 :: w ++ rest) = some (clampLong (digitsValue w), rest) := by
  have htake := takeWhile_digits hw hrest
  have hdrop := dropWhile_digits hw hrest
  obtain ⟨c, cs, rfl⟩ := List.exists_cons_of_ne_nil hne
  have hplain := digit_plain (hw c List.mem_cons_self)
  rw [List.cons_append] at htake hdrop
  refine ⟨?_, ?_, ?_⟩
  · have hskip : skipSpace (c :: cs ++ rest) = c :: (cs ++ rest) := by
      simp [skipSpace, hplain.1]
    rw [scanLong, hskip]
    split
    · rename_i heq
      exact absurd (List.cons.inj heq).1 hplain.2.1
    · rename_i heq
      exact absurd (List.cons.inj heq).1 hplain.2.2
    · simp [htake, hdrop]
  · have hskip : skipSpace (45 :: (c :: cs) ++ rest) = 45 :: c :: (cs ++ rest) := by
      simp [skipSpace, isSpace]
    rw [scanLong, hskip]
    simp [htake, hdrop]
  · have hskip : skipSpace (43 :: (c :: cs) ++ rest) = 43 :: c :: (cs ++ rest) := by
      simp [skipSpace, isSpace]
    rw [scanLong, hskip]
    simp [htake, hdrop]

theorem scanLong_decimal (n : ℕ) (hrest : ∀ c ∈ rest.head?, isDigit c = false) :
    scanLong (decimal n ++ rest) = some (clampLong n, rest) ∧
      scanLong (45 :: decimal n ++ rest) = some (clampLong (-n), rest) := by
  obtain ⟨hpos, hneg, -⟩ := scanLong_digits (decimal_ne_nil n) (decimal_digits n) hrest
  rw [digitsValue_decimal] at hpos hneg
  exact ⟨hpos, hneg⟩

/-- `strtol` and the conversions of `scanf` read what `printf` wrote. -/
theorem scanLong_formatInt (x : Int32) (hrest : ∀ c ∈ rest.head?, isDigit c = false) :
    scanLong (formatInt x ++ rest) = some (x.toInt, rest) := by
  by_cases h : 0 ≤ x.toInt
  · rw [formatInt_of_nonneg h, (scanLong_decimal _ hrest).1, Int.toNat_of_nonneg h, clampLong_toInt]
  · rw [formatInt_of_neg (by omega), (scanLong_decimal _ hrest).2, Int.toNat_of_nonneg (by omega),
      Int.neg_neg, clampLong_toInt]

theorem scanInt_formatInt (x : Int32) (hrest : ∀ c ∈ rest.head?, isDigit c = false) :
    scanInt (formatInt x ++ rest) = some x := by
  rw [scanInt, scanLong_formatInt x hrest, Option.map_some, Int32.ofInt_toInt]

theorem strtol_formatInt (x : Int32) : strtol (formatInt x) = (x.toInt, []) := by
  have hscan : scanLong (formatInt x ++ []) = some (x.toInt, []) :=
    scanLong_formatInt x (by simp)
  rw [List.append_nil] at hscan
  rw [strtol, hscan, Option.getD_some]

end Sshnack
