import Mathlib.Data.List.TakeWhile
import Sshnack.CJson

/-!
# Names in JSON strings

`handle_get_stock` prints a name between quotes as it is. cJSON reads a name without quote and
backslash back. With one of the two it reads a shorter name, or the text behind the string does not go
on as an object does.
-/

namespace Sshnack

/-- A name without quote and backslash. -/
def Verbatim (w : CString) : Prop := 34 ∉ w ∧ 92 ∉ w

instance (w : CString) : Decidable (Verbatim w) := inferInstanceAs (Decidable (_ ∧ _))

variable {s : List UInt8} {w : CString} {c : UInt8}

/-! ### Verbatim strings -/

theorem scanString_cons (hquote : c ≠ 34) (hslash : c ≠ 92) (s : List UInt8) :
    scanString (c :: s) = (scanString s).map fun r => (c :: r.1, r.2) := by
  rw [scanString]
  · exact hquote
  · exact fun hc _ => hslash hc
  · exact fun _ _ hc _ => hslash hc

theorem scanString_verbatim (h : Verbatim w) (rest : List UInt8) :
    scanString (w ++ 34 :: rest) = some (w, rest) := by
  obtain ⟨hquote, hslash⟩ := h
  induction w with
  | nil => simp [scanString]
  | cons c w ih =>
    rw [List.mem_cons, not_or] at hquote hslash
    have hscan := ih hquote.2 hslash.2
    rw [List.cons_append, scanString_cons (Ne.symm hquote.1) (Ne.symm hslash.1), hscan,
      Option.map_some]

theorem unescape_verbatim (h : 92 ∉ w) : unescape 0 w = some w := by
  induction w with
  | nil => rfl
  | cons c w ih =>
    rw [List.mem_cons, not_or] at h
    rw [unescape, if_pos (Ne.symm h.1), ih h.2, Option.map_some]

theorem parseString_verbatim (h : Verbatim w) (hnul : 0 ∉ w) (rest : List UInt8) :
    parseString (34 :: (w ++ 34 :: rest)) = some (w, rest) := by
  have hcut : w.takeWhile (· ≠ 0) = w := List.takeWhile_eq_self_iff.2 fun c hc => by
    simpa using fun hz : c = 0 => hnul (hz ▸ hc)
  simp only [parseString, scanString_verbatim h, unescape_verbatim h.2, Option.bind_eq_bind,
    Option.bind_some, hcut]
  rfl

/-! ### Escapes -/

theorem utf8_length {codepoint : ℕ} {out : List UInt8} (h : utf8 codepoint = some out) :
    out.length ≤ 4 := by
  simp only [utf8] at h
  split_ifs at h <;> cases h <;> simp

theorem utf16LiteralToUtf8_length {r : List UInt8 × ℕ} (h : utf16LiteralToUtf8 s = some r) :
    r.1.length < r.2 ∧ r.2 ≤ s.length := by
  simp only [utf16LiteralToUtf8] at h
  split_ifs at h with hshort _ _ hsecond
  · obtain ⟨out, hout, rfl⟩ := Option.map_eq_some_iff.1 h
    have hlen := utf8_length hout
    rw [List.length_drop] at hsecond
    dsimp only
    omega
  · obtain ⟨out, hout, rfl⟩ := Option.map_eq_some_iff.1 h
    have hlen := utf8_length hout
    dsimp only
    omega

/-- An escape is longer than what it stands for. Only a lone backslash reaches the closing quote. -/
theorem escapeSequence_length {r : List UInt8 × ℕ} (h : escapeSequence s = some r) :
    r.1.length < r.2 ∧ (r.2 = 2 ∨ r.2 ≤ s.length) := by
  unfold escapeSequence at h
  split at h
  case h_9 =>
    have hlen := utf16LiteralToUtf8_length h
    exact ⟨hlen.1, .inr hlen.2⟩
  all_goals
    cases h
    try simp

theorem unescape_length {skip : ℕ} {out : List UInt8} (h : unescape skip s = some out) :
    out.length ≤ s.length - skip := by
  fun_induction unescape skip s generalizing out with
  | case1 => cases h; simp
  | case2 skip _ s ih =>
    have hle := ih h
    rw [List.length_cons]
    omega
  | case3 c s _ ih =>
    obtain ⟨out', hout', rfl⟩ := Option.map_eq_some_iff.1 h
    have hle := ih hout'
    simp only [List.length_cons]
    omega
  | case4 c s _ ih =>
    obtain ⟨r, hr, h⟩ := Option.bind_eq_some_iff.1 h
    obtain ⟨out', hout', rfl⟩ := Option.map_eq_some_iff.1 h
    have hle := ih r hout'
    have hescape := escapeSequence_length hr
    simp only [List.length_append, List.length_cons] at hescape ⊢
    omega

/-- A text with an escape gets shorter. -/
theorem unescape_slash {out : List UInt8} (h : unescape 0 (92 :: c :: s) = some out) :
    out.length < (92 :: c :: s).length := by
  rw [unescape, if_neg (not_not_intro rfl)] at h
  obtain ⟨r, hr, h⟩ := Option.bind_eq_some_iff.1 h
  obtain ⟨out', hout', rfl⟩ := Option.map_eq_some_iff.1 h
  have hle := unescape_length hout'
  have hescape := escapeSequence_length hr
  simp only [List.length_append, List.length_cons] at hle hescape ⊢
  omega

/-! ### A name as it is printed -/

/-- A quote, a comma, a quote and a `p` are printed behind a name. The string ends within the name or
before the `p`. -/
theorem scanString_name (w tail : List UInt8) :
    ∃ content rest, scanString (w ++ 34 :: 44 :: 34 :: 112 :: tail) = some (content, rest) ∧
      (rest.head? = some 112 ∨ content.length ≤ w.length) := by
  induction w using scanString.induct with
  | case1 => exact ⟨[], _, rfl, .inr le_rfl⟩
  | case2 w => exact ⟨[], _, rfl, .inr (Nat.zero_le _)⟩
  | case3 => exact ⟨[92, 34, 44], 112 :: tail, by simp [scanString], .inl rfl⟩
  | case4 c w ih =>
    obtain ⟨content, rest, hscan, hend⟩ := ih
    refine ⟨92 :: c :: content, rest, by simp [scanString, hscan], hend.imp_right fun hle => ?_⟩
    simpa using hle
  | case5 c w hquote hlast hslash ih =>
    have hne : c ≠ 92 := by
      rintro rfl
      cases w with
      | nil => exact hlast rfl rfl
      | cons d w => exact hslash d w rfl rfl
    obtain ⟨content, rest, hscan, hend⟩ := ih
    refine ⟨c :: content, rest, ?_, hend.imp_right fun hle => by simpa using hle⟩
    rw [List.cons_append, scanString_cons hquote hne, hscan, Option.map_some]

/-- A name with a quote or a backslash is read as a shorter one, or the text goes on with a `p` behind
the string. -/
theorem scanString_not_verbatim (h : ¬ Verbatim w) (tail : List UInt8) :
    ∃ content rest, scanString (w ++ 34 :: 44 :: 34 :: 112 :: tail) = some (content, rest) ∧
      (rest.head? = some 112 ∨ ∀ out, unescape 0 content = some out → out.length < w.length) := by
  induction w with
  | nil => exact absurd ⟨List.not_mem_nil, List.not_mem_nil⟩ h
  | cons c w ih =>
    by_cases hquote : c = 34
    · subst hquote
      refine ⟨[], _, rfl, .inr fun out hout => ?_⟩
      cases hout
      exact Nat.succ_pos _
    by_cases hslash : c = 92
    · subst hslash
      cases w with
      | nil => exact ⟨[92, 34, 44], 112 :: tail, by simp [scanString], .inl rfl⟩
      | cons d w =>
        obtain ⟨content, rest, hscan, hend⟩ := scanString_name w tail
        refine ⟨92 :: d :: content, rest, by simp [scanString, hscan],
          hend.imp_right fun hle out hout => ?_⟩
        have hlt := unescape_slash hout
        simp only [List.length_cons] at hlt ⊢
        omega
    · have hw : ¬ Verbatim w := fun hw => h
        ⟨fun hmem => (List.mem_cons.1 hmem).elim (fun heq => hquote heq.symm) hw.1,
          fun hmem => (List.mem_cons.1 hmem).elim (fun heq => hslash heq.symm) hw.2⟩
      obtain ⟨content, rest, hscan, hend⟩ := ih hw
      refine ⟨c :: content, rest, ?_, hend.imp_right fun hlt out hout => ?_⟩
      · rw [List.cons_append, scanString_cons hquote hslash, hscan, Option.map_some]
      · rw [unescape, if_pos hslash] at hout
        obtain ⟨out', hout', rfl⟩ := Option.map_eq_some_iff.1 hout
        exact Nat.succ_lt_succ (hlt out' hout')

theorem parseString_not_verbatim (h : ¬ Verbatim w) {tail : List UInt8} {r : CString × List UInt8}
    (hparse : parseString (34 :: (w ++ 34 :: 44 :: 34 :: 112 :: tail)) = some r) :
    r.2.head? = some 112 ∨ r.1.length < w.length := by
  obtain ⟨content, rest, hscan, hend⟩ := scanString_not_verbatim h tail
  rw [parseString, hscan, Option.bind_eq_bind, Option.bind_some] at hparse
  obtain ⟨out, hout, hparse⟩ := Option.bind_eq_some_iff.1 hparse
  cases hparse
  exact hend.imp_right fun hlt => (List.takeWhile_sublist _).length_le.trans_lt (hlt out hout)

end Sshnack
