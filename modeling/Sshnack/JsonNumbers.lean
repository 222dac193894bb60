import Sshnack.Credentials
import Sshnack.Handlers

/-!
# Numbers in a request

What a client may write for an integer: in a path a sign and digits, in a body a JSON object with one
key. `sscanf` with the format `{"<key>":%d}` counts its conversion as soon as the number is read, so
it takes such an object only if nothing stands before the number, and takes much more besides.
-/

namespace Sshnack

/-- An optional sign and decimal digits. -/
def Denotes (s : CString) (n : ℤ) : Prop :=
  ∃ v m, Numeral v m ∧ (s = v ∧ n = m ∨ s = 43 :: v ∧ n = m ∨ s = 45 :: v ∧ n = -m)

/-- A JSON number without a fraction and an exponent. -/
def JsonInt (s : CString) (n : ℤ) : Prop :=
  ∃ v m, Numeral v m ∧ (v.head? = some 48 → v = [48]) ∧ (s = v ∧ n = m ∨ s = 45 :: v ∧ n = -m)

def Spaces (w : CString) : Prop := ∀ c ∈ w, isSpace c = true

/-- The JSON object `{"<key>":n}`, with white space between its tokens. -/
def JsonObject (key : CString) (n : ℤ) (body : CString) : Prop :=
  ∃ w₁ w₂ w₃ w₄ w₅ w₆ s, (∀ w ∈ [w₁, w₂, w₃, w₄, w₅, w₆], Spaces w) ∧ JsonInt s n ∧
    body = w₁ ++ 123 :: (w₂ ++ 34 :: (key ++ 34 :: (w₃ ++ 58 :: (w₄ ++ s ++ w₅ ++ 125 :: w₆))))

/-- The text `{"<key>":` and behind it only one integer and the end of the object. -/
def PlainField (key : CString) (n : ℤ) (body : CString) : Prop :=
  ∃ w₁ w₂ w₃ s, Spaces w₁ ∧ Spaces w₂ ∧ Spaces w₃ ∧ JsonInt s n ∧
    body = 123 :: 34 :: (key ++ 34 :: 58 :: (w₁ ++ s ++ w₂ ++ 125 :: w₃))

section Scanning

variable {s t w rest : CString} {n : ℤ}

theorem JsonInt.denotes (h : JsonInt s n) : Denotes s n := by
  obtain ⟨v, m, hv, -, hplus | hminus⟩ := h
  · exact ⟨v, m, hv, .inl hplus⟩
  · exact ⟨v, m, hv, .inr (.inr hminus)⟩

theorem scanLong_denotes (h : Denotes s n) (hrest : ∀ c ∈ rest.head?, isDigit c = false) :
    scanLong (s ++ rest) = some (clampLong n, rest) := by
  obtain ⟨v, m, ⟨hne, hdigits, rfl⟩, hs⟩ := h
  obtain ⟨hnone, hminus, hplus⟩ := scanLong_digits hne hdigits hrest
  rcases hs with ⟨rfl, rfl⟩ | ⟨rfl, rfl⟩ | ⟨rfl, rfl⟩
  · exact hnone
  · exact hplus
  · exact hminus

theorem skipSpace_spaces (hw : Spaces w) (s : CString) : skipSpace (w ++ s) = skipSpace s :=
  List.dropWhile_append_of_pos hw

theorem scanInt_spaces (hw : Spaces w) (s : CString) : scanInt (w ++ s) = scanInt s := by
  rw [scanInt, scanLong, skipSpace_spaces hw, scanInt, scanLong]

theorem scanInt_denotes {x : Int32} (h : Denotes s x.toInt)
    (hrest : ∀ c ∈ rest.head?, isDigit c = false) : scanInt (s ++ rest) = some x := by
  rw [scanInt, scanLong_denotes h hrest, Option.map_some, clampLong_toInt, Int32.ofInt_toInt]

/-- A conversion starts at white space, a sign or a digit. -/
theorem scanInt_slash (s : CString) : scanInt (47 :: s) = none := by
  have hskip : skipSpace (47 :: s) = 47 :: s := by simp [skipSpace, isSpace]
  rw [scanInt, scanLong, hskip]
  simp [isDigit]

theorem scanLiteral_append (literal s : CString) : scanLiteral literal (literal ++ s) = some s := by
  rw [scanLiteral, if_pos (List.prefix_append _ _), List.drop_left]

theorem scanLiteral_eq_some {literal : CString} (h : scanLiteral literal s = some t) :
    s = literal ++ t := by
  unfold scanLiteral at h
  split_ifs at h with hlit
  obtain ⟨t', rfl⟩ := hlit
  rw [List.drop_left] at h
  rw [Option.some.inj h]

theorem scanNumber_append (literal s : CString) : scanNumber literal (literal ++ s) = scanInt s := by
  rw [scanNumber, scanLiteral_append, Option.bind_some]

theorem exists_of_scanNumber {literal : CString} (h : (scanNumber literal s).isSome) :
    ∃ t, s = literal ++ t ∧ (scanInt t).isSome := by
  unfold scanNumber at h
  cases hlit : scanLiteral literal s with
  | none =>
    rw [hlit] at h
    cases h
  | some t =>
    rw [hlit, Option.bind_some] at h
    exact ⟨t, scanLiteral_eq_some hlit, h⟩

end Scanning

/-! ### Bodies -/

section Bodies

variable {key : String} {body : CString} {n : ℤ}

theorem fieldLiteral (key : String) (t : CString) :
    ascii "\x7b\"" ++ ascii key ++ ascii "\":" ++ t = 123 :: 34 :: (ascii key ++ 34 :: 58 :: t) := by
  have hopen : ascii "\x7b\"" = [123, 34] := by decide
  have hclose : ascii "\":" = [34, 58] := by decide
  simp [hopen, hclose]

/-- White space ends before any other byte. -/
theorem Spaces.eq_nil {w s t : CString} {c : UInt8} (hw : Spaces w) (hc : isSpace c = false)
    (h : w ++ s = c :: t) : w = [] := by
  cases w with
  | nil => rfl
  | cons d w =>
    have hd := hw d List.mem_cons_self
    rw [(List.cons.inj h).1, hc] at hd
    cases hd

theorem PlainField.jsonObject {k : CString} (h : PlainField k n body) : JsonObject k n body := by
  obtain ⟨w₁, w₂, w₃, s, hw₁, hw₂, hw₃, hs, rfl⟩ := h
  have hnil : Spaces [] := List.forall_mem_nil _
  exact ⟨[], [], [], w₁, w₂, w₃, s, by simp [hnil, hw₁, hw₂, hw₃], hs, rfl⟩

/-- An object in which the format finds its number has no white space before the colon. -/
theorem JsonObject.plainField (h : JsonObject (ascii key) n body)
    (hscan : (scanField key body).isSome) : PlainField (ascii key) n body := by
  obtain ⟨t, hbody, -⟩ := exists_of_scanNumber hscan
  rw [fieldLiteral] at hbody
  obtain ⟨w₁, w₂, w₃, w₄, w₅, w₆, s, hw, hs, hparts⟩ := h
  have hspaces (w : CString) (hmem : w ∈ [w₁, w₂, w₃, w₄, w₅, w₆]) : Spaces w := hw w hmem
  rw [hparts] at hbody
  obtain rfl := (hspaces w₁ (by simp)).eq_nil (by decide) hbody
  have hbody := (List.cons.inj hbody).2
  obtain rfl := (hspaces w₂ (by simp)).eq_nil (by decide) hbody
  have hbody := (List.cons.inj (List.append_cancel_left (List.cons.inj hbody).2)).2
  obtain rfl := (hspaces w₃ (by simp)).eq_nil (by decide) hbody
  exact ⟨w₄, w₅, w₆, s, hspaces w₄ (by simp), hspaces w₅ (by simp), hspaces w₆ (by simp), hs, hparts⟩

theorem isDigit_of_space {c : UInt8} (h : isSpace c = true) : isDigit c = false := by
  by_contra hdigit
  rw [(digit_plain (Bool.eq_true_of_not_eq_false hdigit)).1] at h
  cases h

theorem PlainField.scanField {x : Int32} (h : PlainField (ascii key) x.toInt body) :
    scanField key body = some x := by
  obtain ⟨w₁, w₂, w₃, s, hw₁, hw₂, -, hs, rfl⟩ := h
  have hrest : ∀ c ∈ (w₂ ++ 125 :: w₃).head?, isDigit c = false := by
    cases w₂ with
    | nil =>
      rintro c ⟨⟩
      decide
    | cons d w₂ =>
      rintro c ⟨⟩
      exact isDigit_of_space (hw₂ d List.mem_cons_self)
  rw [← fieldLiteral, Sshnack.scanField, scanNumber_append, List.append_assoc, List.append_assoc,
    scanInt_spaces hw₁, scanInt_denotes hs.denotes hrest]

end Bodies

end Sshnack
