import Mathlib.Data.Rat.Cast.Order
import Sshnack.Decimal

/-!
# The JSON parser

The parser of the vendored cJSON, as the client calls it: on a C string, with the NUL as the last
byte of the buffer. What is left of the buffer stands for the offset. A failure gives no result; the
position that it leaves, the doubles and the memory are left out. `strtod` reads by the locale of the
user and is a parameter. White space is every byte up to 32, a string may hold every byte but a bare
quote, and what follows the value is not read.
-/

namespace Sshnack

/-- `cJSON`: the type, the value of the type and the children. -/
inductive CJson where
  | null
  | false
  | true
  | number (valueint : Int32)
  | string (valuestring : CString)
  | array (children : List CJson)
  | object (children : List (CString × CJson))

/-- `strtod`: the number and how many bytes of the text it reads. `HUGE_VAL` is a number from `2^1024`
on. A decimal integer of 32 bits is a double and read as it is. -/
structure Strtod where
  read : CString → ℚ × ℕ
  exact : ∀ x : Int32, read (formatInt x) = ((x.toInt : ℚ), (formatInt x).length)

def isNumberChar (c : UInt8) : Bool := isDigit c || c = 43 || c = 45 || c = 101 || c = 69 || c = 46

/-- The saturation and the conversion to `int`. -/
def valueint (number : ℚ) : Int32 :=
  if 2147483647 ≤ number then 2147483647
  else if number ≤ -2147483648 then -2147483648
  else Int32.ofInt (number.num.tdiv number.den)

def parseNumber (strtod : Strtod) (s : List UInt8) : Option (CJson × List UInt8) :=
  let number := strtod.read (s.takeWhile isNumberChar)
  if number.2 = 0 then none else some (.number (valueint number.1), s.drop number.2)

/-! ### Strings -/

def hexDigit (c : UInt8) : Option ℕ :=
  if 48 ≤ c ∧ c ≤ 57 then some (c.toNat - 48)
  else if 65 ≤ c ∧ c ≤ 70 then some (10 + c.toNat - 65)
  else if 97 ≤ c ∧ c ≤ 102 then some (10 + c.toNat - 97)
  else none

/-- `parse_hex4`, which is 0 if one of the four bytes is no digit. -/
def parseHex4 (s : List UInt8) : ℕ :=
  (((s.take 4).mapM hexDigit).getD []).foldl (fun h digit => 16 * h + digit) 0

/-- The bytes of a code point, and none beyond the last one. -/
def utf8 (codepoint : ℕ) : Option (List UInt8) :=
  let last (shift : ℕ) : UInt8 := UInt8.ofNat ((codepoint >>> shift ||| 0x80) &&& 0xBF)
  if codepoint < 0x80 then some [UInt8.ofNat (codepoint &&& 0x7F)]
  else if codepoint < 0x800 then some [UInt8.ofNat ((codepoint >>> 6 ||| 0xC0) &&& 0xFF), last 0]
  else if codepoint < 0x10000 then
    some [UInt8.ofNat ((codepoint >>> 12 ||| 0xE0) &&& 0xFF), last 6, last 0]
  else if codepoint ≤ 0x10FFFF then
    some [UInt8.ofNat ((codepoint >>> 18 ||| 0xF0) &&& 0xFF), last 12, last 6, last 0]
  else none

/-- The bytes of an escape `\uXXXX` or `\uXXXX\uXXXX` at the front, and its length. -/
def utf16LiteralToUtf8 (s : List UInt8) : Option (List UInt8 × ℕ) :=
  if s.length < 6 then none
  else
    let first := parseHex4 (s.drop 2)
    if 0xDC00 ≤ first ∧ first ≤ 0xDFFF then none
    else if 0xD800 ≤ first ∧ first ≤ 0xDBFF then
      let second := s.drop 6
      let code := parseHex4 (second.drop 2)
      if second.length < 6 ∨ second[0]? ≠ some 92 ∨ second[1]? ≠ some 117 then none
      else if code < 0xDC00 ∨ 0xDFFF < code then none
      else (utf8 (0x10000 + ((first &&& 0x3FF) <<< 10 ||| (code &&& 0x3FF)))).map fun out => (out, 12)
    else (utf8 first).map fun out => (out, 6)

/-- The bytes of the escape at the front and its `sequence_length`. Behind the last byte of the
string is the closing quote. -/
def escapeSequence (s : List UInt8) : Option (List UInt8 × ℕ) :=
  match s.getD 1 34 with
  | 98 => some ([8], 2)
  | 102 => some ([12], 2)
  | 110 => some ([10], 2)
  | 114 => some ([13], 2)
  | 116 => some ([9], 2)
  | 34 => some ([34], 2)
  | 92 => some ([92], 2)
  | 47 => some ([47], 2)
  | 117 => utf16LiteralToUtf8 s
  | _ => none

/-- The search for the closing quote: the text up to it and what is behind it. -/
def scanString : List UInt8 → Option (List UInt8 × List UInt8)
  | [] => none
  | 34 :: s => some ([], s)
  | [92] => none
  | 92 :: c :: s => (scanString s).map fun r => (92 :: c :: r.1, r.2)
  | c :: s => (scanString s).map fun r => (c :: r.1, r.2)

/-- The loop that writes the output, with the bytes of the last escape still to pass. -/
def unescape : ℕ → List UInt8 → Option (List UInt8)
  | _, [] => some []
  | skip + 1, _ :: s => unescape skip s
  | 0, c :: s =>
      if c ≠ 92 then (unescape 0 s).map (c :: ·)
      else (escapeSequence (c :: s)).bind fun r => (unescape (r.2 - 1) s).map (r.1 ++ ·)

/-- The value is a C string, so it ends where an escape writes a NUL. -/
def parseString : List UInt8 → Option (CString × List UInt8)
  | 34 :: s => do
      let r ← scanString s
      let output ← unescape 0 r.1
      return (output.takeWhile (· ≠ 0), r.2)
  | _ => none

/-! ### Values -/

/-- At the end of the buffer it steps back to the last byte. -/
def bufferSkipWhitespace (s : List UInt8) : List UInt8 :=
  if s.all (· ≤ 32) then s.drop (s.length - 1) else s.dropWhile (· ≤ 32)

def skipUtf8Bom (s : List UInt8) : List UInt8 :=
  if 4 < s.length ∧ [0xEF, 0xBB, 0xBF] <+: s then s.drop 3 else s

def cjsonNestingLimit : ℕ := 1000

variable (strtod : Strtod)

mutual

def parseValue : ℕ → ℕ → List UInt8 → Option (CJson × List UInt8)
  | 0, _, _ => none
  | fuel + 1, depth, s =>
      if ascii "null" <+: s then some (.null, s.drop 4)
      else if ascii "false" <+: s then some (.false, s.drop 5)
      else if ascii "true" <+: s then some (.true, s.drop 4)
      else match s.head? with
        | none => none
        | some c =>
            if c = 34 then (parseString s).map fun r => (.string r.1, r.2)
            else if c = 45 ∨ isDigit c then parseNumber strtod s
            else if c = 91 then parseArray fuel depth s
            else if c = 123 then parseObject fuel depth s
            else none

def parseArray : ℕ → ℕ → List UInt8 → Option (CJson × List UInt8)
  | 0, _, _ => none
  | fuel + 1, depth, s =>
      if cjsonNestingLimit ≤ depth ∨ s.head? ≠ some 91 then none
      else match bufferSkipWhitespace s.tail with
        | [] => none
        | 93 :: t => some (.array [], t)
        | t => (parseElements fuel (depth + 1) t).map fun r => (.array r.1, r.2)

/-- The loop of `parse_array`, from an element on. -/
def parseElements : ℕ → ℕ → List UInt8 → Option (List CJson × List UInt8)
  | 0, _, _ => none
  | fuel + 1, depth, s => do
      let item ← parseValue fuel depth (bufferSkipWhitespace s)
      match bufferSkipWhitespace item.2 with
      | 44 :: t => (parseElements fuel depth t).map fun r => (item.1 :: r.1, r.2)
      | 93 :: t => some ([item.1], t)
      | _ => none

def parseObject : ℕ → ℕ → List UInt8 → Option (CJson × List UInt8)
  | 0, _, _ => none
  | fuel + 1, depth, s =>
      if cjsonNestingLimit ≤ depth ∨ s.head? ≠ some 123 then none
      else match bufferSkipWhitespace s.tail with
        | [] => none
        | 125 :: t => some (.object [], t)
        | t => (parseMembers fuel (depth + 1) t).map fun r => (.object r.1, r.2)

/-- The loop of `parse_object`, from the name of a child on. -/
def parseMembers : ℕ → ℕ → List UInt8 → Option (List (CString × CJson) × List UInt8)
  | 0, _, _ => none
  | fuel + 1, depth, s =>
      if s = [] then none
      else do
        let name ← parseString (bufferSkipWhitespace s)
        match bufferSkipWhitespace name.2 with
        | 58 :: t =>
            let item ← parseValue fuel depth (bufferSkipWhitespace t)
            match bufferSkipWhitespace item.2 with
            | 44 :: t => (parseMembers fuel depth t).map fun r => ((name.1, item.1) :: r.1, r.2)
            | 125 :: t => some ([(name.1, item.1)], t)
            | _ => none
        | _ => none

end

/-! ### Fuel -/

section Fuel

variable {strtod} {s t : List UInt8} {fuel depth : ℕ}

theorem bufferSkipWhitespace_length (s : List UInt8) :
    (bufferSkipWhitespace s).length ≤ s.length := by
  unfold bufferSkipWhitespace
  split
  · exact (List.drop_sublist _ s).length_le
  · exact (List.dropWhile_sublist _).length_le

theorem scanString_length {r : List UInt8 × List UInt8} (h : scanString s = some r) :
    r.1.length + r.2.length < s.length := by
  fun_induction scanString s generalizing r with
  | case1 => cases h
  | case2 s => cases h; simp
  | case3 => cases h
  | case4 c s ih =>
    obtain ⟨r', hr', rfl⟩ := Option.map_eq_some_iff.1 h
    have hlt := ih hr'
    simp only [List.length_cons]
    omega
  | case5 c s _ _ _ ih =>
    obtain ⟨r', hr', rfl⟩ := Option.map_eq_some_iff.1 h
    have hlt := ih hr'
    simp only [List.length_cons]
    omega

theorem parseString_length {r : CString × List UInt8} (h : parseString s = some r) :
    r.2.length < s.length := by
  unfold parseString at h
  split at h
  · obtain ⟨scanned, hscan, h⟩ := Option.bind_eq_some_iff.1 h
    obtain ⟨output, -, h⟩ := Option.bind_eq_some_iff.1 h
    cases h
    have hlt := scanString_length hscan
    simp only [List.length_cons]
    omega
  · cases h

theorem parseNumber_length {c : UInt8} {r : CJson × List UInt8}
    (h : parseNumber strtod (c :: s) = some r) : r.2.length < (c :: s).length := by
  simp only [parseNumber] at h
  split_ifs at h with hread
  cases h
  rw [List.length_drop, List.length_cons]
  omega

/-- What a parser leaves is shorter than what it got. -/
structure Shortens (strtod : Strtod) (fuel : ℕ) : Prop where
  value : ∀ {depth s r}, parseValue strtod fuel depth s = some r → r.2.length < s.length
  array : ∀ {depth s r}, parseArray strtod fuel depth s = some r → r.2.length < s.length
  elements : ∀ {depth s r}, parseElements strtod fuel depth s = some r → r.2.length < s.length
  object : ∀ {depth s r}, parseObject strtod fuel depth s = some r → r.2.length < s.length
  members : ∀ {depth s r}, parseMembers strtod fuel depth s = some r → r.2.length < s.length

theorem tail_length {limit : Prop} {c : UInt8} (h : ¬ (limit ∨ s.head? ≠ some c)) :
    (bufferSkipWhitespace s.tail).length < s.length := by
  rw [not_or, not_not] at h
  obtain ⟨t, rfl⟩ := List.head?_eq_some_iff.1 h.2
  rw [List.length_cons]
  exact Nat.lt_succ_of_le (bufferSkipWhitespace_length t)

theorem Shortens.parseArray (h : Shortens strtod fuel) {r : CJson × List UInt8}
    (hparse : parseArray strtod (fuel + 1) depth s = some r) : r.2.length < s.length := by
  rw [Sshnack.parseArray] at hparse
  split_ifs at hparse with hstop
  have hlt := tail_length hstop
  split at hparse
  · cases hparse
  · rename_i heq
    cases hparse
    rw [heq] at hlt
    exact Nat.lt_of_succ_lt hlt
  · obtain ⟨r', hr', rfl⟩ := Option.map_eq_some_iff.1 hparse
    exact (h.elements hr').trans hlt

theorem Shortens.parseElements (h : Shortens strtod fuel) {r : List CJson × List UInt8}
    (hparse : parseElements strtod (fuel + 1) depth s = some r) : r.2.length < s.length := by
  rw [Sshnack.parseElements] at hparse
  obtain ⟨item, hitem, hparse⟩ := Option.bind_eq_some_iff.1 hparse
  have hbefore := bufferSkipWhitespace_length s
  have hbehind := bufferSkipWhitespace_length item.2
  have hlt := h.value hitem
  split at hparse
  · rename_i heq
    obtain ⟨r', hr', rfl⟩ := Option.map_eq_some_iff.1 hparse
    have hrest := h.elements hr'
    rw [heq, List.length_cons] at hbehind
    dsimp only
    omega
  · rename_i heq
    cases hparse
    rw [heq, List.length_cons] at hbehind
    dsimp only
    omega
  · cases hparse

theorem Shortens.parseObject (h : Shortens strtod fuel) {r : CJson × List UInt8}
    (hparse : parseObject strtod (fuel + 1) depth s = some r) : r.2.length < s.length := by
  rw [Sshnack.parseObject] at hparse
  split_ifs at hparse with hstop
  have hlt := tail_length hstop
  split at hparse
  · cases hparse
  · rename_i heq
    cases hparse
    rw [heq] at hlt
    exact Nat.lt_of_succ_lt hlt
  · obtain ⟨r', hr', rfl⟩ := Option.map_eq_some_iff.1 hparse
    exact (h.members hr').trans hlt

theorem Shortens.parseMembers (h : Shortens strtod fuel) {r : List (CString × CJson) × List UInt8}
    (hparse : parseMembers strtod (fuel + 1) depth s = some r) : r.2.length < s.length := by
  rw [Sshnack.parseMembers] at hparse
  split_ifs at hparse with hempty
  obtain ⟨name, hname, hparse⟩ := Option.bind_eq_some_iff.1 hparse
  have hbefore := bufferSkipWhitespace_length s
  have hcolon := bufferSkipWhitespace_length name.2
  have hlt := parseString_length hname
  split at hparse
  · rename_i t heq
    rw [heq, List.length_cons] at hcolon
    obtain ⟨item, hitem, hparse⟩ := Option.bind_eq_some_iff.1 hparse
    have hvalue := bufferSkipWhitespace_length t
    have hbehind := bufferSkipWhitespace_length item.2
    have hitem := h.value hitem
    split at hparse
    · rename_i heq
      obtain ⟨r', hr', rfl⟩ := Option.map_eq_some_iff.1 hparse
      have hrest := h.members hr'
      rw [heq, List.length_cons] at hbehind
      dsimp only
      omega
    · rename_i heq
      cases hparse
      rw [heq, List.length_cons] at hbehind
      dsimp only
      omega
    · cases hparse
  · cases hparse

theorem Shortens.parseValue (h : Shortens strtod fuel) {r : CJson × List UInt8}
    (hparse : parseValue strtod (fuel + 1) depth s = some r) : r.2.length < s.length := by
  have hword {word : String} {k : ℕ} (hk : 0 < k) (hlen : k = (ascii word).length)
      (hword : ascii word <+: s) : (s.drop k).length < s.length := by
    have hle := hword.length_le
    rw [List.length_drop]
    omega
  rw [Sshnack.parseValue] at hparse
  split_ifs at hparse with hnull hfalse htrue
  · cases hparse
    exact hword (by decide) rfl hnull
  · cases hparse
    exact hword (by decide) rfl hfalse
  · cases hparse
    exact hword (by decide) rfl htrue
  · cases s with
    | nil => cases hparse
    | cons c s =>
      rw [List.head?_cons] at hparse
      dsimp only at hparse
      split_ifs at hparse
      · obtain ⟨r', hr', rfl⟩ := Option.map_eq_some_iff.1 hparse
        exact parseString_length hr'
      · exact parseNumber_length hparse
      · exact h.array hparse
      · exact h.object hparse

theorem shortens (strtod : Strtod) (fuel : ℕ) : Shortens strtod fuel := by
  induction fuel with
  | zero =>
    constructor <;> intro depth s r hparse
    · rw [parseValue] at hparse
      cases hparse
    · rw [parseArray] at hparse
      cases hparse
    · rw [parseElements] at hparse
      cases hparse
    · rw [parseObject] at hparse
      cases hparse
    · rw [parseMembers] at hparse
      cases hparse
  | succ fuel ih =>
    exact ⟨ih.parseValue, ih.parseArray, ih.parseElements, ih.parseObject, ih.parseMembers⟩

/-- One more unit of fuel changes nothing for texts that are short enough. -/
structure Enough (strtod : Strtod) (fuel : ℕ) : Prop where
  value : ∀ depth s, 3 * s.length + 2 ≤ fuel →
    parseValue strtod (fuel + 1) depth s = parseValue strtod fuel depth s
  array : ∀ depth s, 3 * s.length + 1 ≤ fuel →
    parseArray strtod (fuel + 1) depth s = parseArray strtod fuel depth s
  elements : ∀ depth s, 3 * s.length + 3 ≤ fuel →
    parseElements strtod (fuel + 1) depth s = parseElements strtod fuel depth s
  object : ∀ depth s, 3 * s.length + 1 ≤ fuel →
    parseObject strtod (fuel + 1) depth s = parseObject strtod fuel depth s
  members : ∀ depth s, 3 * s.length + 3 ≤ fuel →
    parseMembers strtod (fuel + 1) depth s = parseMembers strtod fuel depth s

theorem enough (strtod : Strtod) (fuel : ℕ) : Enough strtod fuel := by
  induction fuel with
  | zero => constructor <;> intro depth s hfuel <;> omega
  | succ fuel ih =>
    constructor <;> intro depth s hfuel
    · rw [parseValue, parseValue]
      cases s with
      | nil => rfl
      | cons c s => rw [ih.array _ _ (by omega), ih.object _ _ (by omega)]
    · rw [parseArray, parseArray]
      split_ifs with hstop
      · rfl
      · have hlt := tail_length hstop
        split
        · rfl
        · rfl
        · rw [ih.elements _ _ (by omega)]
    · have hbefore := bufferSkipWhitespace_length s
      rw [parseElements, parseElements, ih.value _ _ (by omega)]
      refine Option.bind_congr fun item hitem => ?_
      have hlt := (shortens strtod fuel).value hitem
      have hbehind := bufferSkipWhitespace_length item.2
      split
      · rename_i heq
        rw [heq, List.length_cons] at hbehind
        rw [ih.elements _ _ (by omega)]
      · rfl
      · rfl
    · rw [parseObject, parseObject]
      split_ifs with hstop
      · rfl
      · have hlt := tail_length hstop
        split
        · rfl
        · rfl
        · rw [ih.members _ _ (by omega)]
    · rw [parseMembers, parseMembers]
      split_ifs with hempty
      · rfl
      · refine Option.bind_congr fun name hname => ?_
        have hbefore := bufferSkipWhitespace_length s
        have hcolon := bufferSkipWhitespace_length name.2
        have hlt := parseString_length hname
        split
        · rename_i t heq
          have hvalue := bufferSkipWhitespace_length t
          rw [heq, List.length_cons] at hcolon
          rw [ih.value _ _ (by omega)]
          refine Option.bind_congr fun item hitem => ?_
          have hitem := (shortens strtod fuel).value hitem
          have hbehind := bufferSkipWhitespace_length item.2
          split
          · rename_i heq
            rw [heq, List.length_cons] at hbehind
            rw [ih.members _ _ (by omega)]
          · rfl
          · rfl
        · rfl

theorem parseValue_fuel (strtod : Strtod) (depth : ℕ) (s : List UInt8)
    (hfuel : 3 * s.length + 2 ≤ fuel) :
    parseValue strtod fuel depth s = parseValue strtod (3 * s.length + 2) depth s := by
  induction fuel, hfuel using Nat.le_induction with
  | base => rfl
  | succ fuel hfuel ih => rw [(enough strtod fuel).value depth s hfuel, ih]

end Fuel

/-- `cJSON_Parse`. -/
def cjsonParse (value : CString) : Option CJson :=
  (parseValue strtod (3 * value.length + 6) 0
    (bufferSkipWhitespace (skipUtf8Bom (value ++ [0])))).map Prod.fst

theorem cjsonParse_eq (value : CString) {fuel : ℕ} (hfuel : 3 * value.length + 5 ≤ fuel) :
    cjsonParse strtod value = (parseValue strtod fuel 0
      (bufferSkipWhitespace (skipUtf8Bom (value ++ [0])))).map Prod.fst := by
  have hskip := bufferSkipWhitespace_length (skipUtf8Bom (value ++ [0]))
  have hbom : (skipUtf8Bom (value ++ [0])).length ≤ value.length + 1 := by
    have hlen : (value ++ [0]).length = value.length + 1 := by simp
    unfold skipUtf8Bom
    split
    · exact hlen ▸ (List.drop_sublist _ _).length_le
    · exact hlen.le
  rw [cjsonParse, parseValue_fuel strtod 0 _ (by omega : _ ≤ 3 * value.length + 6),
    parseValue_fuel strtod 0 _ (by omega : _ ≤ fuel)]

/-- `cJSON_GetObjectItem`. The children of an array have no names. -/
def cjsonGetObjectItem (object : CJson) (name : CString) : Option CJson :=
  match object with
  | .object children =>
      (children.find? fun child => child.1.map toLower = name.map toLower).map Prod.snd
  | _ => none

end Sshnack
