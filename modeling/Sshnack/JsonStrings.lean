import Mathlib.Data.Bool.AllAny
import Sshnack.StockNames

/-!
# Strings of JSON

A character of a string is written as it is, with a short escape, or with one or two escapes of four
hexadecimal digits for the code units of UTF-16, and it denotes its bytes in UTF-8. The parser reads
every string back, whichever way its characters are written.
-/

namespace Sshnack

/-! ### The notation -/

inductive HexDigit : ℕ → UInt8 → Prop
  | decimal (d : ℕ) (h : d < 10) : HexDigit d (UInt8.ofNat (48 + d))
  | upper (d : ℕ) (h : 10 ≤ d ∧ d < 16) : HexDigit d (UInt8.ofNat (55 + d))
  | lower (d : ℕ) (h : 10 ≤ d ∧ d < 16) : HexDigit d (UInt8.ofNat (87 + d))

/-- Four digits and their number. -/
inductive Hex4 : ℕ → List UInt8 → Prop
  | mk {d₃ d₂ d₁ d₀ : ℕ} {c₃ c₂ c₁ c₀ : UInt8} (h₃ : HexDigit d₃ c₃) (h₂ : HexDigit d₂ c₂)
      (h₁ : HexDigit d₁ c₁) (h₀ : HexDigit d₀ c₀) :
      Hex4 (((d₃ * 16 + d₂) * 16 + d₁) * 16 + d₀) [c₃, c₂, c₁, c₀]

/-- The characters with an escape of two bytes. -/
def shortEscapes : List (UInt8 × UInt8) :=
  [(34, 34), (92, 92), (47, 47), (8, 98), (12, 102), (10, 110), (13, 114), (9, 116)]

/-- The bytes that are denoted and the text that denotes them. -/
inductive CharText : CString → List UInt8 → Prop
  | byte (c : UInt8) (hcontrol : 32 ≤ c) (hquote : c ≠ 34) (hslash : c ≠ 92) : CharText [c] [c]
  | short (e : UInt8 × UInt8) (he : e ∈ shortEscapes) : CharText [e.1] [92, e.2]
  | unit (c : Char) (hnul : c.toNat ≠ 0) {t : List UInt8} (ht : Hex4 c.toNat t) :
      CharText (String.utf8EncodeChar c) (92 :: 117 :: t)
  | pair (c : Char) {high low : ℕ} {t u : List UInt8} (ht : Hex4 (0xD800 + high) t)
      (hu : Hex4 (0xDC00 + low) u) (hhigh : high < 0x400) (hlow : low < 0x400)
      (hc : c.toNat = 0x10000 + (high * 0x400 + low)) :
      CharText (String.utf8EncodeChar c) (92 :: 117 :: (t ++ 92 :: 117 :: u))

inductive StringText : CString → List UInt8 → Prop
  | nil : StringText [] []
  | cons {w ws : CString} {t ts : List UInt8} (h : CharText w t) (hs : StringText ws ts) :
      StringText (w ++ ws) (t ++ ts)

/-! ### Hexadecimal digits -/

theorem HexDigit.value {d : ℕ} {c : UInt8} (h : HexDigit d c) :
    hexDigit c = some d ∧ c ≠ 34 ∧ c ≠ 92 ∧ d < 16 := by
  have hdecimal : ∀ d < 10, hexDigit (UInt8.ofNat (48 + d)) = some d ∧
      UInt8.ofNat (48 + d) ≠ 34 ∧ UInt8.ofNat (48 + d) ≠ 92 := by decide
  have hupper : ∀ d < 16, 10 ≤ d → hexDigit (UInt8.ofNat (55 + d)) = some d ∧
      UInt8.ofNat (55 + d) ≠ 34 ∧ UInt8.ofNat (55 + d) ≠ 92 := by decide
  have hlower : ∀ d < 16, 10 ≤ d → hexDigit (UInt8.ofNat (87 + d)) = some d ∧
      UInt8.ofNat (87 + d) ≠ 34 ∧ UInt8.ofNat (87 + d) ≠ 92 := by decide
  cases h with
  | decimal h => exact ⟨(hdecimal d h).1, (hdecimal d h).2.1, (hdecimal d h).2.2, by omega⟩
  | upper h =>
    have hd := hupper d h.2 h.1
    exact ⟨hd.1, hd.2.1, hd.2.2, h.2⟩
  | lower h =>
    have hd := hlower d h.2 h.1
    exact ⟨hd.1, hd.2.1, hd.2.2, h.2⟩

theorem Hex4.length {n : ℕ} {t : List UInt8} (h : Hex4 n t) : t.length = 4 := by
  cases h
  rfl

theorem Hex4.parse {n : ℕ} {t : List UInt8} (h : Hex4 n t) (rest : List UInt8) :
    parseHex4 (t ++ rest) = n := by
  cases h with
  | mk h₃ h₂ h₁ h₀ =>
    simp [parseHex4, h₃.value.1, h₂.value.1, h₁.value.1, h₀.value.1]
    ring

theorem Hex4.plain {n : ℕ} {t : List UInt8} (h : Hex4 n t) : ∀ c ∈ t, c ≠ 34 ∧ c ≠ 92 := by
  cases h with
  | mk h₃ h₂ h₁ h₀ =>
    intro c hc
    simp only [List.mem_cons, List.not_mem_nil, or_false] at hc
    rcases hc with rfl | rfl | rfl | rfl
    · exact ⟨h₃.value.2.1, h₃.value.2.2.1⟩
    · exact ⟨h₂.value.2.1, h₂.value.2.2.1⟩
    · exact ⟨h₁.value.2.1, h₁.value.2.2.1⟩
    · exact ⟨h₀.value.2.1, h₀.value.2.2.1⟩

/-! ### UTF-8 -/

theorem ofNat_mask (n : ℕ) :
    UInt8.ofNat ((n ||| 0x80) &&& 0xBF) = UInt8.ofNat (n % 0x40 + 0x80) := by
  have hbyte : ∀ m < 256, UInt8.ofNat ((m ||| 0x80) &&& 0xBF) = UInt8.ofNat (m % 0x40 + 0x80) := by
    decide +kernel
  have hmod : (n ||| 0x80) &&& 0xBF = (n % 256 ||| 0x80) &&& 0xBF := by
    apply Nat.eq_of_testBit_eq
    intro i
    have hhigh (hi : 8 ≤ i) : Nat.testBit 0xBF i = false :=
      Nat.testBit_lt_two_pow
        (lt_of_lt_of_le (by decide : 0xBF < 2 ^ 8) (Nat.pow_le_pow_right (by decide) hi))
    rw [show 256 = 2 ^ 8 from rfl]
    simp only [Nat.testBit_and, Nat.testBit_or, Nat.testBit_mod_two_pow]
    by_cases hi : i < 8
    · simp [hi]
    · simp [hhigh (not_lt.1 hi)]
  rw [hmod, hbyte _ (Nat.mod_lt n (by decide)), Nat.mod_mod_of_dvd n (by decide)]

/-- The bytes of a code point are those of its character. -/
theorem utf8_toNat (c : Char) : utf8 c.toNat = some (String.utf8EncodeChar c) := by
  have hvalid : c.toNat < 0x110000 := by
    rcases c.valid with h | h
    · exact h.trans (by decide)
    · exact h.2
  have hlead₂ : ∀ q < 32, UInt8.ofNat ((q ||| 0xC0) &&& 0xFF) = UInt8.ofNat (q % 0x20 + 0xC0) := by
    decide
  have hlead₃ : ∀ q < 16, UInt8.ofNat ((q ||| 0xE0) &&& 0xFF) = UInt8.ofNat (q % 0x10 + 0xE0) := by
    decide
  have hlead₄ : ∀ q < 8, UInt8.ofNat ((q ||| 0xF0) &&& 0xFF) = UInt8.ofNat (q % 0x08 + 0xF0) := by
    decide
  have hval : c.val.toNat = c.toNat := rfl
  simp only [utf8, String.utf8EncodeChar, hval, ofNat_mask, Nat.shiftRight_eq_div_pow, Nat.reducePow,
    pow_zero, Nat.div_one]
  by_cases h₁ : c.toNat < 0x80
  · have hsmall : c.toNat &&& 0x7F = c.toNat := by
      rw [show 0x7F = 2 ^ 7 - 1 from rfl, Nat.and_two_pow_sub_one_eq_mod]
      exact Nat.mod_eq_of_lt h₁
    rw [if_pos h₁, if_pos (Nat.le_of_lt_succ h₁), hsmall]
  by_cases h₂ : c.toNat < 0x800
  · rw [if_neg h₁, if_pos h₂, if_neg (by omega), if_pos (by omega), hlead₂ _ (by omega)]
  by_cases h₃ : c.toNat < 0x10000
  · rw [if_neg h₁, if_neg h₂, if_pos h₃, if_neg (by omega), if_neg (by omega), if_pos (by omega),
      hlead₃ _ (by omega)]
  · rw [if_neg h₁, if_neg h₂, if_neg h₃, if_pos (by omega), if_neg (by omega), if_neg (by omega),
      if_neg (by omega), hlead₄ _ (by omega)]

theorem utf8EncodeChar_noNul {c : Char} (h : c.toNat ≠ 0) : 0 ∉ String.utf8EncodeChar c := by
  have hbyte {q m : ℕ} (hm : 0 < m) (hlt : q + m < 256) : (0 : UInt8) ≠ UInt8.ofNat (q + m) := by
    intro heq
    have := congrArg UInt8.toNat heq
    rw [UInt8.toNat_ofNat', Nat.mod_eq_of_lt hlt] at this
    change 0 = q + m at this
    omega
  have hval : c.val.toNat = c.toNat := rfl
  simp only [String.utf8EncodeChar, hval]
  split_ifs with h₁ h₂ h₃
  · have hone := hbyte (q := 0) (Nat.pos_of_ne_zero h) (by omega)
    rw [Nat.zero_add] at hone
    simpa using hone
  all_goals
    simp only [List.mem_cons, List.not_mem_nil, or_false, not_or]
  · exact ⟨hbyte (by decide) (by omega), hbyte (by decide) (by omega)⟩
  · exact ⟨hbyte (by decide) (by omega), hbyte (by decide) (by omega), hbyte (by decide) (by omega)⟩
  · exact ⟨hbyte (by decide) (by omega), hbyte (by decide) (by omega),
      hbyte (by decide) (by omega), hbyte (by decide) (by omega)⟩

/-! ### Reading -/

section Reading

variable {w : CString} {t : List UInt8}

theorem scanString_plain (h : ∀ c ∈ t, c ≠ 34 ∧ c ≠ 92) (s : List UInt8) :
    scanString (t ++ s) = (scanString s).map fun r => (t ++ r.1, r.2) := by
  induction t with
  | nil => simp
  | cons c t ih =>
    have hc := h c List.mem_cons_self
    rw [List.cons_append, scanString_cons hc.1 hc.2, ih fun d hd => h d (List.mem_cons_of_mem c hd),
      Option.map_map]
    rfl

theorem scanString_escape (c : UInt8) (s : List UInt8) :
    scanString (92 :: c :: s) = (scanString s).map fun r => (92 :: c :: r.1, r.2) := by
  rw [scanString]

/-- No text of a character ends the string. -/
theorem CharText.scan (h : CharText w t) (s : List UInt8) :
    scanString (t ++ s) = (scanString s).map fun r => (t ++ r.1, r.2) := by
  cases h with
  | byte c _ hquote hslash =>
    exact scanString_plain (fun d hd => List.mem_singleton.1 hd ▸ ⟨hquote, hslash⟩) s
  | short e _ => exact scanString_escape e.2 s
  | unit c _ ht =>
    rw [List.cons_append, List.cons_append, scanString_escape, scanString_plain ht.plain,
      Option.map_map]
    rfl
  | @pair c _ _ t u ht hu _ _ _ =>
    have htext : (92 :: 117 :: (t ++ 92 :: 117 :: u)) ++ s =
        92 :: 117 :: (t ++ 92 :: 117 :: (u ++ s)) := by simp
    rw [htext, scanString_escape, scanString_plain ht.plain, scanString_escape,
      scanString_plain hu.plain, Option.map_map, Option.map_map, Option.map_map]
    congr 1
    funext r
    simp

theorem unescape_skip (t s : List UInt8) : unescape t.length (t ++ s) = unescape 0 s := by
  induction t with
  | nil => rfl
  | cons c t ih => rw [List.length_cons, List.cons_append, unescape, ih]

/-- An escape and the bytes that it writes. -/
theorem unescape_escape {out : List UInt8} {s : List UInt8}
    (h : escapeSequence (92 :: (t ++ s)) = some (out, t.length + 1)) :
    unescape 0 (92 :: (t ++ s)) = (unescape 0 s).map (out ++ ·) := by
  rw [unescape, if_neg (not_not_intro rfl), h, Option.bind_some]
  change (unescape t.length (t ++ s)).map _ = _
  rw [unescape_skip]

theorem escapeSequence_short : ∀ e ∈ shortEscapes, ∀ s,
    escapeSequence (92 :: e.2 :: s) = some ([e.1], 2) := by
  intro e he s
  fin_cases he <;> rfl

theorem char_not_surrogate (c : Char) : ¬ (0xD800 ≤ c.toNat ∧ c.toNat ≤ 0xDFFF) := by
  have hval : c.val.toNat = c.toNat := rfl
  rcases c.valid with h | h
  · omega
  · omega

theorem escapeSequence_unit {c : Char} (ht : Hex4 c.toNat t) (s : List UInt8) :
    escapeSequence (92 :: ((117 :: t) ++ s)) = some (String.utf8EncodeChar c, 6) := by
  have hvalid := char_not_surrogate c
  have hlen : ¬ (92 :: ((117 :: t) ++ s)).length < 6 := by
    simp only [List.length_cons, List.length_append, ht.length]
    omega
  change utf16LiteralToUtf8 (92 :: ((117 :: t) ++ s)) = _
  have hparse : parseHex4 ((92 :: ((117 :: t) ++ s)).drop 2) = c.toNat := ht.parse s
  simp only [utf16LiteralToUtf8, if_neg hlen, hparse]
  rw [if_neg (by omega), if_neg (by omega), utf8_toNat, Option.map_some]

/-- The two code units of a character beyond the first plane. -/
theorem surrogates_code {high low : ℕ} (hhigh : high < 0x400) (hlow : low < 0x400) :
    ((0xD800 + high) &&& 0x3FF) <<< 10 ||| ((0xDC00 + low) &&& 0x3FF) = high * 0x400 + low := by
  have hmask (n : ℕ) : n &&& 0x3FF = n % 0x400 := Nat.and_two_pow_sub_one_eq_mod n 10
  have hor := Nat.shiftLeft_add_eq_or_of_lt (i := 10) hlow high
  rw [hmask, hmask, show (0xD800 + high) % 0x400 = high by omega,
    show (0xDC00 + low) % 0x400 = low by omega, ← hor, Nat.shiftLeft_eq]

theorem escapeSequence_pair {c : Char} {high low : ℕ} {u : List UInt8}
    (ht : Hex4 (0xD800 + high) t) (hu : Hex4 (0xDC00 + low) u) (hhigh : high < 0x400)
    (hlow : low < 0x400) (hc : c.toNat = 0x10000 + (high * 0x400 + low)) (s : List UInt8) :
    escapeSequence (92 :: ((117 :: (t ++ 92 :: 117 :: u)) ++ s)) =
      some (String.utf8EncodeChar c, 12) := by
  have htext : 92 :: ((117 :: (t ++ 92 :: 117 :: u)) ++ s) =
      92 :: 117 :: (t ++ (92 :: 117 :: (u ++ s))) := by simp
  have hsecond : (92 :: 117 :: (t ++ (92 :: 117 :: (u ++ s)))).drop 6 = 92 :: 117 :: (u ++ s) := by
    rw [show 6 = 2 + t.length by rw [ht.length], ← List.drop_drop]
    exact List.drop_left
  have hlen : ¬ (92 :: 117 :: (t ++ (92 :: 117 :: (u ++ s)))).length < 6 := by
    simp only [List.length_cons, List.length_append, ht.length]
    omega
  have hpair : ¬ ((92 :: 117 :: (u ++ s)).length < 6 ∨ (92 :: 117 :: (u ++ s))[0]? ≠ some 92 ∨
      (92 :: 117 :: (u ++ s))[1]? ≠ some 117) := by
    have hlen' : ¬ (92 :: 117 :: (u ++ s)).length < 6 := by
      simp only [List.length_cons, List.length_append, hu.length]
      omega
    exact not_or.2 ⟨hlen', not_or.2 ⟨not_not_intro rfl, not_not_intro rfl⟩⟩
  have hfirst : parseHex4 ((92 :: 117 :: (t ++ (92 :: 117 :: (u ++ s)))).drop 2) = 0xD800 + high :=
    ht.parse _
  have hcode : parseHex4 ((92 :: 117 :: (u ++ s)).drop 2) = 0xDC00 + low := hu.parse _
  rw [htext]
  change utf16LiteralToUtf8 (92 :: 117 :: (t ++ (92 :: 117 :: (u ++ s)))) = _
  simp only [utf16LiteralToUtf8, if_neg hlen, hfirst, hsecond, hcode]
  rw [if_neg (by omega), if_pos (by omega), if_neg hpair, if_neg (by omega),
    surrogates_code hhigh hlow, ← hc, utf8_toNat, Option.map_some]

theorem CharText.unescape (h : CharText w t) (s : List UInt8) :
    unescape 0 (t ++ s) = (unescape 0 s).map (w ++ ·) := by
  cases h with
  | byte c _ _ hslash =>
    change Sshnack.unescape 0 (c :: s) = _
    rw [Sshnack.unescape, if_pos hslash]
    rfl
  | short e he => exact unescape_escape (escapeSequence_short e he s)
  | unit c _ ht =>
    refine unescape_escape (t := 117 :: _) ?_
    rw [List.length_cons, ht.length]
    exact escapeSequence_unit ht s
  | @pair c _ _ t u ht hu hhigh hlow hc =>
    refine unescape_escape (t := 117 :: (t ++ 92 :: 117 :: u)) ?_
    have hlen : (117 :: (t ++ 92 :: 117 :: u)).length + 1 = 12 := by
      simp only [List.length_cons, List.length_append, ht.length, hu.length]
    rw [hlen]
    exact escapeSequence_pair ht hu hhigh hlow hc s

theorem CharText.noNul (h : CharText w t) : 0 ∉ w := by
  cases h with
  | byte c hcontrol _ _ =>
    rw [List.mem_singleton]
    rintro rfl
    exact absurd hcontrol (by decide)
  | short e he =>
    have hnul : ∀ e ∈ shortEscapes, 0 ∉ [e.1] := List.all_iff_forall_prop.1 (by decide)
    exact hnul e he
  | unit c hnul _ => exact utf8EncodeChar_noNul hnul
  | pair c _ _ _ _ hc => exact utf8EncodeChar_noNul (by omega)

theorem StringText.scan (h : StringText w t) (rest : List UInt8) :
    scanString (t ++ 34 :: rest) = some (t, rest) := by
  induction h with
  | nil => rw [List.nil_append, scanString]
  | cons hchar _ ih => rw [List.append_assoc, hchar.scan, ih, Option.map_some]

theorem StringText.unescape (h : StringText w t) : unescape 0 t = some w := by
  induction h with
  | nil => rfl
  | cons hchar _ ih => rw [hchar.unescape, ih, Option.map_some]

theorem StringText.noNul (h : StringText w t) : 0 ∉ w := by
  induction h with
  | nil => exact List.not_mem_nil
  | cons hchar _ ih => simp [hchar.noNul, ih]

/-- A string is read as the bytes that it denotes. -/
theorem StringText.parse (h : StringText w t) (rest : List UInt8) :
    parseString (34 :: (t ++ 34 :: rest)) = some (w, rest) := by
  have hcut : w.takeWhile (· ≠ 0) = w := List.takeWhile_eq_self_iff.2 fun c hc => by
    simpa using fun hz : c = 0 => h.noNul (hz ▸ hc)
  simp only [parseString, h.scan rest, h.unescape, Option.bind_eq_bind, Option.bind_some, hcut]
  rfl

/-- A text without quotes, backslashes and control characters denotes itself. -/
theorem stringText_verbatim (hverbatim : Verbatim w) (hcontrol : ∀ c ∈ w, 32 ≤ c) :
    StringText w w := by
  obtain ⟨hquote, hslash⟩ := hverbatim
  induction w with
  | nil => exact .nil
  | cons c w ih =>
    rw [List.mem_cons, not_or] at hquote hslash
    exact .cons (.byte c (hcontrol c List.mem_cons_self) (Ne.symm hquote.1) (Ne.symm hslash.1))
      (ih (fun d hd => hcontrol d (List.mem_cons_of_mem c hd)) hquote.2 hslash.2)

end Reading

end Sshnack
