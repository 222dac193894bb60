import Mathlib.Tactic

/-!
# Responses with a declared length

A response of the hypertext transfer protocol is a status line, header fields and a body whose length
one of the fields declares. A reader of a connection gets the status and the body back and stops at the
byte behind the body, whatever follows it.
-/

namespace Http

abbrev Bytes := List UInt8

def lineEnd : Bytes := [13, 10]

def versionText : Bytes := [72, 84, 84, 80, 47, 49, 46, 49]

/-- `content-length` -/
def lengthName : Bytes := [99, 111, 110, 116, 101, 110, 116, 45, 108, 101, 110, 103, 116, 104]

/-- `transfer-encoding` -/
def codingName : Bytes :=
  [116, 114, 97, 110, 115, 102, 101, 114, 45, 101, 110, 99, 111, 100, 105, 110, 103]

def digits (n : ℕ) : Bytes := (Nat.toDigits 10 n).map fun c => c.toNat.toUInt8

def isDigit (c : UInt8) : Bool := 48 ≤ c && c ≤ 57

def isBlank (c : UInt8) : Bool := c = 32 || c = 9

def lower (c : UInt8) : UInt8 := if 65 ≤ c ∧ c ≤ 90 then c + 32 else c

/-- A text that stays within a line. -/
def Inline (t : Bytes) : Prop := 13 ∉ t ∧ 10 ∉ t

instance (t : Bytes) : Decidable (Inline t) := inferInstanceAs (Decidable (_ ∧ _))

structure Field where
  name : Bytes
  value : Bytes
  name_nonempty : name ≠ []
  name_closed : 58 ∉ name
  name_inline : Inline name
  value_inline : Inline value
  value_trimmed : ∀ c ∈ value.head?, isBlank c = false

def Field.line (f : Field) : Bytes := f.name ++ 58 :: 32 :: f.value

/-! ### Reading -/

/-- The line at the front and what follows its end. A bare CR ends no line. -/
def takeLine (s : Bytes) : Option (Bytes × Bytes) :=
  match s.dropWhile (· ≠ 13) with
  | 13 :: 10 :: rest => some (s.takeWhile (· ≠ 13), rest)
  | _ => none

def readNumber (s : Bytes) : Option ℕ :=
  if s ≠ [] ∧ s.all isDigit then
    some (Nat.ofDigitChars 10 (s.map fun c => Char.ofNat c.toNat) 0)
  else none

/-- The three digits behind the version. -/
def readStatus (line : Bytes) : Option ℕ :=
  if line.take 9 = versionText ++ [32] ∧ (line.drop 12).head? = some 32 then
    readNumber ((line.drop 9).take 3)
  else none

def readField (line : Bytes) : Option (Bytes × Bytes) :=
  match line.dropWhile (· ≠ 58) with
  | 58 :: value => some (line.takeWhile (· ≠ 58), value.dropWhile isBlank)
  | _ => none

def readFields : ℕ → Bytes → Option (List (Bytes × Bytes) × Bytes)
  | 0, _ => none
  | fuel + 1, s => do
      let r ← takeLine s
      if r.1 = [] then some ([], r.2)
      else
        let field ← readField r.1
        let later ← readFields fuel r.2
        some (field :: later.1, later.2)

def contentLength (fields : List (Bytes × Bytes)) : Option ℕ :=
  (fields.find? fun f => f.1.map lower = lengthName).bind fun f => readNumber f.2

/-- The status, the body and the rest of the connection. -/
def readMessage (s : Bytes) : Option (ℕ × Bytes × Bytes) := do
  let line ← takeLine s
  let status ← readStatus line.1
  let head ← readFields (line.2.length + 1) line.2
  let n ← contentLength head.1
  if head.2.length < n then none else some (status, head.2.take n, head.2.drop n)

/-! ### Writing -/

structure Message where
  status : ℕ
  reason : Bytes
  fields : List Field
  body : Bytes
  three_digits : 100 ≤ status ∧ status < 1000
  reason_inline : Inline reason
  length_declared : contentLength (fields.map fun f => (f.name, f.value)) = some body.length
  uncoded : ∀ f ∈ fields, f.name.map lower ≠ codingName

namespace Message

variable (m : Message)

def statusLine : Bytes := versionText ++ 32 :: (digits m.status ++ 32 :: m.reason)

def text : Bytes :=
  m.statusLine ++ (lineEnd ++ (m.fields.flatMap (fun f => f.line ++ lineEnd) ++ (lineEnd ++ m.body)))

end Message

/-! ### Numbers -/

theorem toDigits_byte {n : ℕ} {c : Char} (hc : c ∈ Nat.toDigits 10 n) :
    isDigit c.toNat.toUInt8 = true ∧ Char.ofNat c.toNat.toUInt8.toNat = c := by
  have hdigit : c.isDigit = true := Nat.isDigit_of_mem_toDigits (by decide) (by decide) hc
  have hrange : 48 ≤ c.toNat ∧ c.toNat ≤ 57 := by
    simpa [Char.isDigit, UInt32.le_iff_toNat_le] using hdigit
  have hbyte : c.toNat.toUInt8.toNat = c.toNat := by
    rw [Nat.toUInt8_eq, UInt8.toNat_ofNat']
    omega
  refine ⟨?_, by rw [hbyte, Char.ofNat_toNat]⟩
  rw [isDigit, Bool.and_eq_true, decide_eq_true_iff, decide_eq_true_iff, UInt8.le_iff_toNat_le,
    UInt8.le_iff_toNat_le, hbyte]
  exact hrange

theorem readNumber_digits (n : ℕ) : readNumber (digits n) = some n := by
  have hne : digits n ≠ [] := by simp [digits, Nat.toDigits_ne_nil]
  have hall : (digits n).all isDigit = true := by
    rw [List.all_eq_true]
    intro b hb
    obtain ⟨c, hc, rfl⟩ := List.mem_map.1 hb
    exact (toDigits_byte hc).1
  have hchars : (digits n).map (fun c => Char.ofNat c.toNat) = Nat.toDigits 10 n := by
    rw [digits, List.map_map]
    exact (List.map_congr_left fun c hc => (toDigits_byte hc).2).trans (List.map_id' _)
  rw [readNumber, if_pos ⟨hne, hall⟩, hchars, Nat.ofDigitChars_ten_toDigits]

/-! ### The reader behind the writer -/

section Reading

variable {t : Bytes} {c : UInt8}

theorem span_of_not_mem (h : c ∉ t) (rest : Bytes) : (t ++ c :: rest).takeWhile (· ≠ c) = t ∧
    (t ++ c :: rest).dropWhile (· ≠ c) = c :: rest := by
  have hall : ∀ d ∈ t, decide (d ≠ c) = true := fun d hd => by
    simpa using fun heq : d = c => h (heq ▸ hd)
  constructor
  · rw [List.takeWhile_append_of_pos hall, List.takeWhile_cons_of_neg (by simp), List.append_nil]
  · rw [List.dropWhile_append_of_pos hall, List.dropWhile_cons_of_neg (by simp)]

theorem takeLine_append (h : 13 ∉ t) (rest : Bytes) :
    takeLine (t ++ (lineEnd ++ rest)) = some (t, rest) := by
  obtain ⟨htake, hdrop⟩ := span_of_not_mem h (10 :: rest)
  change takeLine (t ++ 13 :: 10 :: rest) = _
  simp only [takeLine, hdrop, htake]

theorem Field.line_inline (f : Field) : 13 ∉ f.line := by
  simp only [Field.line, List.mem_append, List.mem_cons, not_or]
  exact ⟨f.name_inline.1, by decide, by decide, f.value_inline.1⟩

theorem readField_line (f : Field) : readField f.line = some (f.name, f.value) := by
  obtain ⟨htake, hdrop⟩ := span_of_not_mem f.name_closed (32 :: f.value)
  have htrim : f.value.dropWhile isBlank = f.value := by
    cases hv : f.value with
    | nil => rfl
    | cons c v => exact List.dropWhile_cons_of_neg (by simp [f.value_trimmed c (by rw [hv]; rfl)])
  have hblank : (32 :: f.value).dropWhile isBlank = f.value.dropWhile isBlank :=
    List.dropWhile_cons_of_pos (by decide)
  simp only [readField, Field.line, hdrop, htake, hblank, htrim]

theorem readFields_append (fields : List Field) {fuel : ℕ} (hfuel : fields.length < fuel)
    (rest : Bytes) :
    readFields fuel (fields.flatMap (fun f => f.line ++ lineEnd) ++ (lineEnd ++ rest)) =
      some (fields.map fun f => (f.name, f.value), rest) := by
  induction fields generalizing fuel with
  | nil =>
    obtain ⟨fuel, rfl⟩ := Nat.exists_eq_succ_of_ne_zero hfuel.ne_bot
    have hline : takeLine (lineEnd ++ rest) = some ([], rest) := takeLine_append List.not_mem_nil rest
    simp [readFields, hline]
  | cons f fields ih =>
    obtain ⟨fuel, rfl⟩ := Nat.exists_eq_succ_of_ne_zero (Nat.ne_zero_of_lt hfuel)
    have hrest := ih (Nat.lt_of_succ_lt_succ hfuel)
    have hne : f.line ≠ [] := by simp [Field.line]
    simp only [List.flatMap_cons, List.append_assoc] at hrest ⊢
    simp only [readFields, takeLine_append f.line_inline, Option.bind_eq_bind, Option.bind_some,
      if_neg hne, readField_line, hrest, List.map_cons]

end Reading

namespace Message

variable (m : Message)

theorem digits_status_length : (digits m.status).length = 3 := by
  have hlong : 3 ≤ (digits m.status).length := by
    by_contra hshort
    have hle : (Nat.toDigits 10 m.status).length ≤ 2 := by
      rw [digits, List.length_map] at hshort
      exact Nat.le_of_lt_succ (Nat.lt_of_not_le hshort)
    exact absurd ((Nat.length_toDigits_le_iff (by decide) (by decide)).1 hle)
      (Nat.not_lt.2 m.three_digits.1)
  have hshort : (digits m.status).length ≤ 3 := by
    rw [digits, List.length_map]
    exact (Nat.length_toDigits_le_iff (by decide) (by decide)).2 m.three_digits.2
  exact le_antisymm hshort hlong

theorem readStatus_statusLine : readStatus m.statusLine = some m.status := by
  have hlen := m.digits_status_length
  have hline : m.statusLine = (versionText ++ [32]) ++ (digits m.status ++ 32 :: m.reason) := by
    simp [statusLine]
  have hversion : (versionText ++ [32]).length = 9 := rfl
  have hdrop : m.statusLine.drop 9 = digits m.status ++ 32 :: m.reason := by
    rw [hline, ← hversion, List.drop_left]
  have hreason : m.statusLine.drop 12 = 32 :: m.reason := by
    rw [show 12 = 9 + 3 from rfl, ← List.drop_drop, hdrop, ← hlen, List.drop_left]
  have htake : m.statusLine.take 9 = versionText ++ [32] := by
    rw [hline, ← hversion, List.take_left]
  rw [readStatus, if_pos ⟨htake, by rw [hreason]; rfl⟩, hdrop, ← hlen, List.take_left,
    readNumber_digits]

theorem statusLine_inline : 13 ∉ m.statusLine := by
  have hdigits : 13 ∉ digits m.status := by
    intro hmem
    obtain ⟨c, hc, heq⟩ := List.mem_map.1 hmem
    exact absurd (toDigits_byte hc).1 (by rw [heq]; decide)
  simp only [statusLine, List.mem_append, List.mem_cons, not_or]
  exact ⟨by decide, by decide, hdigits, by decide, m.reason_inline.1⟩

/-- The reader gets the status and the body, and nothing of what follows. -/
theorem readMessage_text (rest : Bytes) :
    readMessage (m.text ++ rest) = some (m.status, m.body, rest) := by
  have hfuel (tail : Bytes) : m.fields.length <
      (m.fields.flatMap (fun f => f.line ++ lineEnd) ++ tail).length + 1 := by
    have hle : m.fields.length ≤ (m.fields.flatMap fun f => f.line ++ lineEnd).length := by
      rw [List.length_flatMap, ← mul_one m.fields.length, ← smul_eq_mul, ← List.sum_replicate,
        ← List.map_const']
      exact List.sum_le_sum fun f _ => by simp [lineEnd]
    rw [List.length_append]
    omega
  have htext : m.text ++ rest = m.statusLine ++ (lineEnd ++
      (m.fields.flatMap (fun f => f.line ++ lineEnd) ++ (lineEnd ++ (m.body ++ rest)))) := by
    simp only [text, List.append_assoc]
  have hroom : ¬ (m.body ++ rest).length < m.body.length := by simp
  simp only [readMessage, htext, takeLine_append m.statusLine_inline, readStatus_statusLine,
    readFields_append m.fields (hfuel _), m.length_declared, Option.bind_eq_bind, Option.bind_some,
    if_neg hroom, List.take_left, List.drop_left]

end Message

end Http
