import Sshnack.JsonStrings
import Sshnack.StockAnswer

/-!
# Texts of JSON

The grammar of JSON, with white space wherever it may stand, escapes in the strings and a bound on the
nesting. The numbers are those that fit an int, in decimal. Every text is read as the value that it
denotes, so the client understands a server that lays its answers out in another way.
-/

namespace Sshnack

open Tui (skip_cons parseValue_cons parseValue_formatInt)

def Blank (b : List UInt8) : Prop := ∀ c ∈ b, c ∈ [32, 9, 10, 13]

/-- A value, or what stands between the brackets of an array or an object. -/
inductive JsonPiece where
  | value (v : CJson)
  | elements (vs : List CJson)
  | members (ms : List (CString × CJson))

/-- The texts of a piece with a nesting of at most `n`. -/
inductive JsonText : ℕ → JsonPiece → List UInt8 → Prop
  | null (n : ℕ) : JsonText n (.value .null) (ascii "null")
  | false (n : ℕ) : JsonText n (.value .false) (ascii "false")
  | true (n : ℕ) : JsonText n (.value .true) (ascii "true")
  | number (n : ℕ) (x : Int32) : JsonText n (.value (.number x)) (formatInt x)
  | string (n : ℕ) {w : CString} {t : List UInt8} (h : StringText w t) :
      JsonText n (.value (.string w)) (34 :: (t ++ [34]))
  | emptyArray (n : ℕ) {b : List UInt8} (hb : Blank b) :
      JsonText (n + 1) (.value (.array [])) (91 :: (b ++ [93]))
  | array {n : ℕ} {vs : List CJson} {s : List UInt8} (h : JsonText n (.elements vs) s) :
      JsonText (n + 1) (.value (.array vs)) (91 :: (s ++ [93]))
  | emptyObject (n : ℕ) {b : List UInt8} (hb : Blank b) :
      JsonText (n + 1) (.value (.object [])) (123 :: (b ++ [125]))
  | object {n : ℕ} {ms : List (CString × CJson)} {s : List UInt8} (h : JsonText n (.members ms) s) :
      JsonText (n + 1) (.value (.object ms)) (123 :: (s ++ [125]))
  | lastElement {n : ℕ} {v : CJson} {s b b' : List UInt8} (hb : Blank b)
      (h : JsonText n (.value v) s) (hb' : Blank b') : JsonText n (.elements [v]) (b ++ (s ++ b'))
  | element {n : ℕ} {v : CJson} {vs : List CJson} {s s' b b' : List UInt8} (hb : Blank b)
      (h : JsonText n (.value v) s) (hb' : Blank b') (hs : JsonText n (.elements vs) s') :
      JsonText n (.elements (v :: vs)) (b ++ (s ++ (b' ++ 44 :: s')))
  | lastMember {n : ℕ} {w : CString} {v : CJson} {t s b b₁ b₂ b' : List UInt8} (hb : Blank b)
      (hw : StringText w t) (hb₁ : Blank b₁) (hb₂ : Blank b₂) (h : JsonText n (.value v) s)
      (hb' : Blank b') :
      JsonText n (.members [(w, v)])
        (b ++ 34 :: (t ++ 34 :: (b₁ ++ 58 :: (b₂ ++ (s ++ b')))))
  | member {n : ℕ} {w : CString} {v : CJson} {ms : List (CString × CJson)}
      {t s s' b b₁ b₂ b' : List UInt8} (hb : Blank b) (hw : StringText w t) (hb₁ : Blank b₁)
      (hb₂ : Blank b₂) (h : JsonText n (.value v) s) (hb' : Blank b')
      (hs : JsonText n (.members ms) s') :
      JsonText n (.members ((w, v) :: ms))
        (b ++ 34 :: (t ++ 34 :: (b₁ ++ 58 :: (b₂ ++ (s ++ (b' ++ 44 :: s'))))))

/-! ### White space -/

variable {strtod : Strtod} {b s t rest : List UInt8} {c : UInt8} {fuel depth : ℕ}

theorem Blank.le (h : Blank b) : ∀ c ∈ b, c ≤ 32 := by
  intro c hc
  have hall : ∀ d ∈ ([32, 9, 10, 13] : List UInt8), d ≤ 32 := List.all_iff_forall_prop.1 (by decide)
  exact hall c (h c hc)

theorem Blank.skip (h : Blank b) (hc : 32 < c) (s : List UInt8) :
    bufferSkipWhitespace (b ++ c :: s) = c :: s := by
  have hle : ¬ c ≤ 32 := UInt8.not_le.2 hc
  have hall : ¬ (b ++ c :: s).all (· ≤ 32) = true := by
    rw [List.all_eq_true]
    exact fun hall => hle (by simpa using hall c (by simp))
  rw [bufferSkipWhitespace, if_neg hall,
    List.dropWhile_append_of_pos fun d hd => by simpa using h.le d hd,
    List.dropWhile_cons_of_neg (by simpa using hle)]

theorem bufferSkipWhitespace_idem (s : List UInt8) :
    bufferSkipWhitespace (bufferSkipWhitespace s) = bufferSkipWhitespace s := by
  by_cases hall : s.all (· ≤ 32) = true
  · have hlast : bufferSkipWhitespace s = s.drop (s.length - 1) := by
      rw [bufferSkipWhitespace, if_pos hall]
    have hrest : (s.drop (s.length - 1)).all (· ≤ 32) = true := by
      rw [List.all_eq_true] at hall ⊢
      exact fun c hc => hall c (List.mem_of_mem_drop hc)
    rw [hlast, bufferSkipWhitespace, if_pos hrest, List.length_drop, List.drop_drop]
    congr 1
    omega
  · have hskip : bufferSkipWhitespace s = s.dropWhile (· ≤ 32) := by
      rw [bufferSkipWhitespace, if_neg hall]
    cases hs : s.dropWhile (· ≤ 32) with
    | nil =>
      exact absurd (List.all_eq_true.2 (List.dropWhile_eq_nil_iff.1 hs)) hall
    | cons c t =>
      have hc : ¬ c ≤ 32 := by
        have hhead := List.head?_dropWhile_not (fun c : UInt8 => decide (c ≤ 32)) s
        rw [hs] at hhead
        simpa using hhead
      rw [hskip, hs, skip_cons (UInt8.not_le.1 hc)]

theorem bufferSkipWhitespace_eq_nil (h : bufferSkipWhitespace s = []) : s = [] := by
  unfold bufferSkipWhitespace at h
  split_ifs at h with hall
  · have hlen := List.drop_eq_nil_iff.1 h
    exact List.length_eq_zero_iff.1 (by omega)
  · exact absurd (List.all_eq_true.2 (List.dropWhile_eq_nil_iff.1 h)) hall

theorem parseElements_skip (s : List UInt8) :
    parseElements strtod fuel depth (bufferSkipWhitespace s) = parseElements strtod fuel depth s := by
  cases fuel with
  | zero => rw [parseElements, parseElements]
  | succ fuel => rw [parseElements, parseElements, bufferSkipWhitespace_idem]

theorem parseMembers_skip (s : List UInt8) :
    parseMembers strtod fuel depth (bufferSkipWhitespace s) = parseMembers strtod fuel depth s := by
  cases fuel with
  | zero => rw [parseMembers, parseMembers]
  | succ fuel =>
    rw [parseMembers, parseMembers, bufferSkipWhitespace_idem]
    by_cases hs : s = []
    · subst hs
      rfl
    · rw [if_neg hs, if_neg fun h => hs (bufferSkipWhitespace_eq_nil h)]

/-! ### Starts -/

/-- A value starts with a byte that is neither white space nor a closing bracket nor part of a byte
order mark. -/
theorem JsonText.start {n : ℕ} {v : CJson} (h : JsonText n (.value v) s) :
    ∃ c t, s = c :: t ∧ 32 < c ∧ c ≠ 93 ∧ c ≠ 239 := by
  cases h with
  | null => exact ⟨110, _, rfl, by decide, by decide, by decide⟩
  | false => exact ⟨102, _, rfl, by decide, by decide, by decide⟩
  | true => exact ⟨116, _, rfl, by decide, by decide, by decide⟩
  | number _ x =>
    obtain ⟨c, t, hx⟩ := List.exists_cons_of_ne_nil (formatInt_ne_nil x)
    rcases formatInt_chars x c (hx ▸ List.mem_cons_self) with hdigit | rfl
    · have hrange := isDigit_iff.1 hdigit
      refine ⟨c, t, hx, ?_, ?_, ?_⟩
      · rw [UInt8.lt_iff_toNat_lt]
        exact lt_of_lt_of_le (by decide) hrange.1
      all_goals
        rintro rfl
        exact absurd hrange.2 (by decide)
    · exact ⟨45, t, hx, by decide, by decide, by decide⟩
  | string _ _ => exact ⟨34, _, rfl, by decide, by decide, by decide⟩
  | emptyArray _ _ => exact ⟨91, _, rfl, by decide, by decide, by decide⟩
  | array _ => exact ⟨91, _, rfl, by decide, by decide, by decide⟩
  | emptyObject _ _ => exact ⟨123, _, rfl, by decide, by decide, by decide⟩
  | object _ => exact ⟨123, _, rfl, by decide, by decide, by decide⟩

theorem Blank.skip_value {n : ℕ} {v : CJson} (hb : Blank b) (h : JsonText n (.value v) s)
    (rest : List UInt8) : bufferSkipWhitespace (b ++ (s ++ rest)) = s ++ rest := by
  obtain ⟨c, t, rfl, hc, -⟩ := h.start
  exact hb.skip hc _

theorem elements_start {n : ℕ} {vs : List CJson} (h : JsonText n (.elements vs) s)
    (rest : List UInt8) : ∃ c, (bufferSkipWhitespace (s ++ rest)).head? = some c ∧ c ≠ 93 := by
  cases h with
  | lastElement hb hv _ =>
    obtain ⟨c, t, hs, -, hc, -⟩ := hv.start
    refine ⟨c, ?_, hc⟩
    rw [List.append_assoc, List.append_assoc, hb.skip_value hv, hs]
    rfl
  | element hb hv _ _ =>
    obtain ⟨c, t, hs, -, hc, -⟩ := hv.start
    refine ⟨c, ?_, hc⟩
    rw [List.append_assoc, List.append_assoc, hb.skip_value hv, hs]
    rfl

theorem members_start {n : ℕ} {ms : List (CString × CJson)} (h : JsonText n (.members ms) s)
    (rest : List UInt8) : (bufferSkipWhitespace (s ++ rest)).head? = some 34 := by
  have hquote : (32 : UInt8) < 34 := by decide
  cases h with
  | lastMember hb _ _ _ _ _ => rw [List.append_assoc, List.cons_append, hb.skip hquote, List.head?_cons]
  | member hb _ _ _ _ _ _ => rw [List.append_assoc, List.cons_append, hb.skip hquote, List.head?_cons]

/-! ### Reading -/

/-- A byte follows that no number has. -/
def Stops (rest : List UInt8) : Prop := ∃ c t, rest = c :: t ∧ isNumberChar c = false

theorem Blank.stops (hb : Blank b) (hrest : Stops rest) : Stops (b ++ rest) := by
  have hblank : ∀ d ∈ ([32, 9, 10, 13] : List UInt8), isNumberChar d = false :=
    List.all_iff_forall_prop.1 (by decide)
  cases b with
  | nil => exact hrest
  | cons c b => exact ⟨c, b ++ rest, rfl, hblank c (hb c List.mem_cons_self)⟩

theorem stops_cons (hc : isNumberChar c = false) (rest : List UInt8) : Stops (c :: rest) :=
  ⟨c, rest, rfl, hc⟩

/-- The text of the piece is read as the piece, up to what closes it. -/
def ReadsAt (strtod : Strtod) (fuel depth : ℕ) (rest : List UInt8) :
    JsonPiece → List UInt8 → Prop
  | .value v, s => Stops rest → parseValue strtod fuel depth (s ++ rest) = some (v, rest)
  | .elements vs, s => parseElements strtod fuel depth (s ++ 93 :: rest) = some (vs, rest)
  | .members ms, s => parseMembers strtod fuel depth (s ++ 125 :: rest) = some (ms, rest)

/-- With enough fuel the piece is read wherever its nesting is allowed. -/
def Reads (strtod : Strtod) (n : ℕ) (piece : JsonPiece) (s : List UInt8) : Prop :=
  ∃ N, ∀ fuel ≥ N, ∀ depth, depth + n ≤ cjsonNestingLimit → ∀ rest,
    ReadsAt strtod fuel depth rest piece s

theorem parseArray_elements (hdepth : depth < cjsonNestingLimit)
    (hstart : (bufferSkipWhitespace s).head? = some c) (hc : c ≠ 93) :
    parseArray strtod (fuel + 1) depth (91 :: s) =
      (parseElements strtod fuel (depth + 1) s).map fun r => (.array r.1, r.2) := by
  obtain ⟨t, ht⟩ := List.head?_eq_some_iff.1 hstart
  rw [parseArray, if_neg (by simp [hdepth]), List.tail_cons, ht]
  split
  · rename_i heq
    cases heq
  · rename_i heq
    exact absurd (List.cons.inj heq).1 hc
  · rw [← ht, parseElements_skip]

theorem parseObject_members (hdepth : depth < cjsonNestingLimit)
    (hstart : (bufferSkipWhitespace s).head? = some 34) :
    parseObject strtod (fuel + 1) depth (123 :: s) =
      (parseMembers strtod fuel (depth + 1) s).map fun r => (.object r.1, r.2) := by
  obtain ⟨t, ht⟩ := List.head?_eq_some_iff.1 hstart
  rw [parseObject, if_neg (by simp [hdepth]), List.tail_cons, ht]
  change (parseMembers strtod fuel (depth + 1) (34 :: t)).map _ = _
  rw [← ht, parseMembers_skip]

/-- A member up to its value. -/
theorem parseMembers_value {n : ℕ} {w : CString} {v : CJson} {b₁ b₂ : List UInt8} (hb : Blank b)
    (hw : StringText w t) (hb₁ : Blank b₁) (hb₂ : Blank b₂) (h : JsonText n (.value v) s)
    (rest : List UInt8) :
    parseMembers strtod (fuel + 1) depth
        (b ++ 34 :: (t ++ 34 :: (b₁ ++ 58 :: (b₂ ++ (s ++ rest))))) =
      (parseValue strtod fuel depth (s ++ rest)).bind fun item =>
        match bufferSkipWhitespace item.2 with
        | 44 :: t => (parseMembers strtod fuel depth t).map fun r => ((w, item.1) :: r.1, r.2)
        | 125 :: t => some ([(w, item.1)], t)
        | _ => none := by
  have hquote : (32 : UInt8) < 34 := by decide
  have hcolon : (32 : UInt8) < 58 := by decide
  rw [parseMembers, if_neg (by simp), hb.skip hquote, hw.parse, Option.bind_eq_bind,
    Option.bind_some]
  dsimp only
  rw [hb₁.skip hcolon]
  change (parseValue strtod fuel depth (bufferSkipWhitespace (b₂ ++ (s ++ rest)))).bind _ = _
  exact congrArg (fun s => (parseValue strtod fuel depth s).bind _) (hb₂.skip_value h rest)

theorem reads_word {word : String} {v : CJson} (n : ℕ)
    (h : ∀ fuel depth rest, parseValue strtod (fuel + 1) depth (ascii word ++ rest) = some (v, rest)) :
    Reads strtod n (.value v) (ascii word) := by
  refine ⟨1, fun fuel hfuel depth _ rest _ => ?_⟩
  obtain ⟨fuel, rfl⟩ := Nat.exists_eq_succ_of_ne_zero (Nat.ne_zero_of_lt hfuel)
  exact h fuel depth rest

theorem reads_null (n : ℕ) : Reads strtod n (.value .null) (ascii "null") := by
  refine reads_word n fun fuel depth rest => ?_
  rw [parseValue, if_pos (List.prefix_append _ rest)]
  rfl

theorem reads_false (n : ℕ) : Reads strtod n (.value .false) (ascii "false") := by
  refine reads_word n fun fuel depth rest => ?_
  have hnull : ¬ ascii "null" <+: ascii "false" ++ rest := fun hprefix =>
    absurd (List.cons_prefix_cons.1 hprefix).1 (by decide)
  rw [parseValue, if_neg hnull, if_pos (List.prefix_append _ rest)]
  rfl

theorem reads_true (n : ℕ) : Reads strtod n (.value .true) (ascii "true") := by
  refine reads_word n fun fuel depth rest => ?_
  have hnull : ¬ ascii "null" <+: ascii "true" ++ rest := fun hprefix =>
    absurd (List.cons_prefix_cons.1 hprefix).1 (by decide)
  have hfalse : ¬ ascii "false" <+: ascii "true" ++ rest := fun hprefix =>
    absurd (List.cons_prefix_cons.1 hprefix).1 (by decide)
  rw [parseValue, if_neg hnull, if_neg hfalse, if_pos (List.prefix_append _ rest)]
  rfl

theorem reads_number (n : ℕ) (x : Int32) : Reads strtod n (.value (.number x)) (formatInt x) := by
  refine ⟨1, fun fuel hfuel depth _ rest hrest => ?_⟩
  obtain ⟨fuel, rfl⟩ := Nat.exists_eq_succ_of_ne_zero (Nat.ne_zero_of_lt hfuel)
  obtain ⟨c, rest, rfl, hc⟩ := hrest
  exact parseValue_formatInt x hc rest

theorem reads_string (n : ℕ) {w : CString} (hw : StringText w t) :
    Reads strtod n (.value (.string w)) (34 :: (t ++ [34])) := by
  refine ⟨1, fun fuel hfuel depth _ rest _ => ?_⟩
  obtain ⟨fuel, rfl⟩ := Nat.exists_eq_succ_of_ne_zero (Nat.ne_zero_of_lt hfuel)
  rw [List.cons_append, parseValue_cons (by decide), if_pos rfl, List.append_assoc,
    List.singleton_append, hw.parse, Option.map_some]

/-! ### Arrays and objects -/

theorem parseValue_array (s : List UInt8) :
    parseValue strtod (fuel + 1) depth (91 :: s) = parseArray strtod fuel depth (91 :: s) := by
  rw [parseValue_cons (by decide)]
  rfl

theorem parseValue_object (s : List UInt8) :
    parseValue strtod (fuel + 1) depth (123 :: s) = parseObject strtod fuel depth (123 :: s) := by
  rw [parseValue_cons (by decide)]
  rfl

theorem reads_emptyArray (n : ℕ) (hb : Blank b) :
    Reads strtod (n + 1) (.value (.array [])) (91 :: (b ++ [93])) := by
  refine ⟨2, fun fuel hfuel depth hdepth rest _ => ?_⟩
  obtain ⟨fuel, rfl⟩ := Nat.exists_eq_add_of_le' hfuel
  have hskip : bufferSkipWhitespace (b ++ 93 :: rest) = 93 :: rest := hb.skip (by decide) rest
  have hopen : ¬ (cjsonNestingLimit ≤ depth ∨ (91 :: (b ++ 93 :: rest)).head? ≠ some 91) := by
    rw [not_or, not_not]
    exact ⟨by omega, rfl⟩
  rw [List.cons_append, List.append_assoc, List.singleton_append, parseValue_array, parseArray,
    if_neg hopen, List.tail_cons, hskip]
  rfl

theorem reads_emptyObject (n : ℕ) (hb : Blank b) :
    Reads strtod (n + 1) (.value (.object [])) (123 :: (b ++ [125])) := by
  refine ⟨2, fun fuel hfuel depth hdepth rest _ => ?_⟩
  obtain ⟨fuel, rfl⟩ := Nat.exists_eq_add_of_le' hfuel
  have hskip : bufferSkipWhitespace (b ++ 125 :: rest) = 125 :: rest := hb.skip (by decide) rest
  have hopen : ¬ (cjsonNestingLimit ≤ depth ∨ (123 :: (b ++ 125 :: rest)).head? ≠ some 123) := by
    rw [not_or, not_not]
    exact ⟨by omega, rfl⟩
  rw [List.cons_append, List.append_assoc, List.singleton_append, parseValue_object, parseObject,
    if_neg hopen, List.tail_cons, hskip]
  rfl

section Nested

variable {n : ℕ} {v : CJson} {vs : List CJson} {w : CString} {ms : List (CString × CJson)}
  {s' b' b₁ b₂ : List UInt8}

theorem reads_array (h : JsonText n (.elements vs) s) (hs : Reads strtod n (.elements vs) s) :
    Reads strtod (n + 1) (.value (.array vs)) (91 :: (s ++ [93])) := by
  obtain ⟨N, hN⟩ := hs
  refine ⟨N + 2, fun fuel hfuel depth hdepth rest _ => ?_⟩
  obtain ⟨fuel, rfl⟩ := Nat.exists_eq_add_of_le' (Nat.le_of_add_left_le hfuel)
  obtain ⟨c, hstart, hc⟩ := elements_start h (93 :: rest)
  have helements : parseElements strtod fuel (depth + 1) (s ++ 93 :: rest) = some (vs, rest) :=
    hN fuel (by omega) (depth + 1) (by omega) rest
  rw [List.cons_append, List.append_assoc, List.singleton_append, parseValue_array,
    parseArray_elements (by omega) hstart hc, helements, Option.map_some]

theorem reads_object (h : JsonText n (.members ms) s) (hs : Reads strtod n (.members ms) s) :
    Reads strtod (n + 1) (.value (.object ms)) (123 :: (s ++ [125])) := by
  obtain ⟨N, hN⟩ := hs
  refine ⟨N + 2, fun fuel hfuel depth hdepth rest _ => ?_⟩
  obtain ⟨fuel, rfl⟩ := Nat.exists_eq_add_of_le' (Nat.le_of_add_left_le hfuel)
  have hmembers : parseMembers strtod fuel (depth + 1) (s ++ 125 :: rest) = some (ms, rest) :=
    hN fuel (by omega) (depth + 1) (by omega) rest
  rw [List.cons_append, List.append_assoc, List.singleton_append, parseValue_object,
    parseObject_members (by omega) (members_start h (125 :: rest)), hmembers, Option.map_some]

theorem reads_lastElement (hb : Blank b) (h : JsonText n (.value v) s) (hb' : Blank b')
    (hv : Reads strtod n (.value v) s) : Reads strtod n (.elements [v]) (b ++ (s ++ b')) := by
  obtain ⟨N, hN⟩ := hv
  refine ⟨N + 1, fun fuel hfuel depth hdepth rest => ?_⟩
  obtain ⟨fuel, rfl⟩ := Nat.exists_eq_succ_of_ne_zero (Nat.ne_zero_of_lt hfuel)
  have hvalue : parseValue strtod fuel depth (s ++ (b' ++ 93 :: rest)) = some (v, b' ++ 93 :: rest) :=
    hN fuel (by omega) depth hdepth _ (hb'.stops (stops_cons (by decide) rest))
  have hskip : bufferSkipWhitespace (b' ++ 93 :: rest) = 93 :: rest := hb'.skip (by decide) rest
  change parseElements strtod (fuel + 1) depth (b ++ (s ++ b') ++ 93 :: rest) = _
  rw [List.append_assoc, List.append_assoc, parseElements, hb.skip_value h, hvalue,
    Option.bind_eq_bind, Option.bind_some]
  dsimp only
  rw [hskip]
  rfl

theorem reads_element (hb : Blank b) (h : JsonText n (.value v) s) (hb' : Blank b')
    (hv : Reads strtod n (.value v) s) (hs : Reads strtod n (.elements vs) s') :
    Reads strtod n (.elements (v :: vs)) (b ++ (s ++ (b' ++ 44 :: s'))) := by
  obtain ⟨N, hN⟩ := hv
  obtain ⟨M, hM⟩ := hs
  refine ⟨max N M + 1, fun fuel hfuel depth hdepth rest => ?_⟩
  obtain ⟨fuel, rfl⟩ := Nat.exists_eq_succ_of_ne_zero (Nat.ne_zero_of_lt hfuel)
  have htext : b ++ (s ++ (b' ++ 44 :: s')) ++ 93 :: rest =
      b ++ (s ++ (b' ++ 44 :: (s' ++ 93 :: rest))) := by simp
  have hvalue : parseValue strtod fuel depth (s ++ (b' ++ 44 :: (s' ++ 93 :: rest))) =
      some (v, b' ++ 44 :: (s' ++ 93 :: rest)) :=
    hN fuel (by omega) depth hdepth _ (hb'.stops (stops_cons (by decide) _))
  have hskip : bufferSkipWhitespace (b' ++ 44 :: (s' ++ 93 :: rest)) = 44 :: (s' ++ 93 :: rest) :=
    hb'.skip (by decide) _
  have helements : parseElements strtod fuel depth (s' ++ 93 :: rest) = some (vs, rest) :=
    hM fuel (by omega) depth hdepth rest
  change parseElements strtod (fuel + 1) depth (b ++ (s ++ (b' ++ 44 :: s')) ++ 93 :: rest) = _
  rw [htext, parseElements, hb.skip_value h, hvalue, Option.bind_eq_bind, Option.bind_some]
  dsimp only
  rw [hskip]
  change (parseElements strtod fuel depth (s' ++ 93 :: rest)).map _ = _
  rw [helements, Option.map_some]

theorem reads_lastMember (hb : Blank b) (hw : StringText w t) (hb₁ : Blank b₁) (hb₂ : Blank b₂)
    (h : JsonText n (.value v) s) (hb' : Blank b') (hv : Reads strtod n (.value v) s) :
    Reads strtod n (.members [(w, v)])
      (b ++ 34 :: (t ++ 34 :: (b₁ ++ 58 :: (b₂ ++ (s ++ b'))))) := by
  obtain ⟨N, hN⟩ := hv
  refine ⟨N + 1, fun fuel hfuel depth hdepth rest => ?_⟩
  obtain ⟨fuel, rfl⟩ := Nat.exists_eq_succ_of_ne_zero (Nat.ne_zero_of_lt hfuel)
  have htext : b ++ 34 :: (t ++ 34 :: (b₁ ++ 58 :: (b₂ ++ (s ++ b')))) ++ 125 :: rest =
      b ++ 34 :: (t ++ 34 :: (b₁ ++ 58 :: (b₂ ++ (s ++ (b' ++ 125 :: rest))))) := by simp
  have hvalue : parseValue strtod fuel depth (s ++ (b' ++ 125 :: rest)) =
      some (v, b' ++ 125 :: rest) :=
    hN fuel (by omega) depth hdepth _ (hb'.stops (stops_cons (by decide) rest))
  have hskip : bufferSkipWhitespace (b' ++ 125 :: rest) = 125 :: rest := hb'.skip (by decide) rest
  change parseMembers strtod (fuel + 1) depth
    (b ++ 34 :: (t ++ 34 :: (b₁ ++ 58 :: (b₂ ++ (s ++ b')))) ++ 125 :: rest) = _
  rw [htext, parseMembers_value hb hw hb₁ hb₂ h, hvalue, Option.bind_some]
  dsimp only
  rw [hskip]
  rfl

theorem reads_member (hb : Blank b) (hw : StringText w t) (hb₁ : Blank b₁) (hb₂ : Blank b₂)
    (h : JsonText n (.value v) s) (hb' : Blank b') (hv : Reads strtod n (.value v) s)
    (hs : Reads strtod n (.members ms) s') :
    Reads strtod n (.members ((w, v) :: ms))
      (b ++ 34 :: (t ++ 34 :: (b₁ ++ 58 :: (b₂ ++ (s ++ (b' ++ 44 :: s')))))) := by
  obtain ⟨N, hN⟩ := hv
  obtain ⟨M, hM⟩ := hs
  refine ⟨max N M + 1, fun fuel hfuel depth hdepth rest => ?_⟩
  obtain ⟨fuel, rfl⟩ := Nat.exists_eq_succ_of_ne_zero (Nat.ne_zero_of_lt hfuel)
  have htext : b ++ 34 :: (t ++ 34 :: (b₁ ++ 58 :: (b₂ ++ (s ++ (b' ++ 44 :: s'))))) ++ 125 :: rest =
      b ++ 34 :: (t ++ 34 :: (b₁ ++ 58 :: (b₂ ++ (s ++ (b' ++ 44 :: (s' ++ 125 :: rest)))))) := by
    simp
  have hvalue : parseValue strtod fuel depth (s ++ (b' ++ 44 :: (s' ++ 125 :: rest))) =
      some (v, b' ++ 44 :: (s' ++ 125 :: rest)) :=
    hN fuel (by omega) depth hdepth _ (hb'.stops (stops_cons (by decide) _))
  have hskip : bufferSkipWhitespace (b' ++ 44 :: (s' ++ 125 :: rest)) = 44 :: (s' ++ 125 :: rest) :=
    hb'.skip (by decide) _
  have hmembers : parseMembers strtod fuel depth (s' ++ 125 :: rest) = some (ms, rest) :=
    hM fuel (by omega) depth hdepth rest
  change parseMembers strtod (fuel + 1) depth
    (b ++ 34 :: (t ++ 34 :: (b₁ ++ 58 :: (b₂ ++ (s ++ (b' ++ 44 :: s'))))) ++ 125 :: rest) = _
  rw [htext, parseMembers_value hb hw hb₁ hb₂ h, hvalue, Option.bind_some]
  dsimp only
  rw [hskip]
  change (parseMembers strtod fuel depth (s' ++ 125 :: rest)).map _ = _
  rw [hmembers, Option.map_some]

end Nested

theorem reads (strtod : Strtod) {n : ℕ} {piece : JsonPiece} (h : JsonText n piece s) :
    Reads strtod n piece s := by
  induction h with
  | null n => exact reads_null n
  | false n => exact reads_false n
  | true n => exact reads_true n
  | number n x => exact reads_number n x
  | string n hw => exact reads_string n hw
  | emptyArray n hb => exact reads_emptyArray n hb
  | array h ih => exact reads_array h ih
  | emptyObject n hb => exact reads_emptyObject n hb
  | object h ih => exact reads_object h ih
  | lastElement hb h hb' ih => exact reads_lastElement hb h hb' ih
  | element hb h hb' _ ih ihs => exact reads_element hb h hb' ih ihs
  | lastMember hb hw hb₁ hb₂ h hb' ih => exact reads_lastMember hb hw hb₁ hb₂ h hb' ih
  | member hb hw hb₁ hb₂ h hb' _ ih ihs => exact reads_member hb hw hb₁ hb₂ h hb' ih ihs

/-- A text does not start like a byte order mark. -/
theorem skipUtf8Bom_text {n : ℕ} {v : CJson} (hb : Blank b) (h : JsonText n (.value v) s)
    (rest : List UInt8) : skipUtf8Bom (b ++ (s ++ rest)) = b ++ (s ++ rest) := by
  have hblank : ∀ d ∈ ([32, 9, 10, 13] : List UInt8), d ≠ 0xEF := List.all_iff_forall_prop.1 (by decide)
  have hhead : ∀ d ∈ (b ++ (s ++ rest)).head?, d ≠ 0xEF := by
    obtain ⟨c, t, rfl, -, -, hc⟩ := h.start
    cases b with
    | nil =>
      intro d hd
      cases hd
      exact hc
    | cons d b =>
      intro d' hd
      cases hd
      exact hblank d (hb d List.mem_cons_self)
  have hnot : ¬ [0xEF, 0xBB, 0xBF] <+: b ++ (s ++ rest) := by
    rintro ⟨u, hu⟩
    rw [← hu] at hhead
    exact hhead 0xEF rfl rfl
  rw [skipUtf8Bom, if_neg fun h => hnot h.2]

/-- A value that is read on its own is read with blanks around it. -/
theorem Reads.cjsonParse {v : CJson} {b b' : List UInt8}
    (hs : Reads strtod cjsonNestingLimit (.value v) s) (hb : Blank b)
    (h : JsonText cjsonNestingLimit (.value v) s) (hb' : Blank b') :
    cjsonParse strtod (b ++ (s ++ b')) = some v := by
  obtain ⟨N, hN⟩ := hs
  have hnul : isNumberChar 0 = false := by decide
  have htext : b ++ (s ++ b') ++ [0] = b ++ (s ++ (b' ++ [0])) := by simp
  have hvalue : parseValue strtod (max N (3 * (b ++ (s ++ b')).length + 5)) 0 (s ++ (b' ++ [0])) =
      some (v, b' ++ [0]) :=
    hN _ (le_max_left _ _) 0 (by omega) _ (hb'.stops (stops_cons hnul []))
  rw [cjsonParse_eq strtod _ (le_max_right N _), htext, skipUtf8Bom_text hb h, hb.skip_value h,
    hvalue, Option.map_some]

/-- Every text with a nesting of at most 1000, in any layout, is read as the value that it denotes. -/
theorem cjsonParse_text (strtod : Strtod) {v : CJson} {b b' : List UInt8} (hb : Blank b)
    (h : JsonText cjsonNestingLimit (.value v) s) (hb' : Blank b') :
    cjsonParse strtod (b ++ (s ++ b')) = some v :=
  (reads strtod h).cjsonParse hb h hb'

/-- `{"balance_gr" : 500}` between a space and a line feed. -/
theorem cjsonParse_text_spaced : cjsonParse Tui.integerStrtod
    (ascii " \x7b\"balance_gr\" : 500\x7d\n") =
      some (.object [(ascii "balance_gr", .number 500)]) := by
  have hblank : ∀ b ∈ [[], [32], [10]], Blank b := by
    simp [Blank]
  have hkey : StringText (ascii "balance_gr") (ascii "balance_gr") :=
    stringText_verbatim ⟨by decide, by decide⟩ (List.all_iff_forall_prop.1 (by decide))
  have hmember := JsonText.lastMember (n := 999) (hblank [] (by simp)) hkey (hblank [32] (by simp))
    (hblank [32] (by simp)) (.number 999 500) (hblank [] (by simp))
  have htext : ascii " \x7b\"balance_gr\" : 500\x7d\n" = [32] ++ ((123 :: (([] ++ 34 ::
      (ascii "balance_gr" ++ 34 :: ([32] ++ 58 :: ([32] ++ (formatInt 500 ++ []))))) ++ [125])) ++
        [10]) := by
    decide
  rw [htext]
  exact cjsonParse_text Tui.integerStrtod (hblank [32] (by simp)) (.object hmember)
    (hblank [10] (by simp))

end Sshnack
