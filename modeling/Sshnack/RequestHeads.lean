import Mathlib.Data.List.DropRight
import Sshnack.RequestText

/-!
# The head and the body of a request

The head of a request ends with its first blank line. `parse_request` reads the head twice: the loop
over the lines stops at the blank line, but `sscanf` takes its two words from the whole buffer and
skips line breaks. So the body has a say in the method, the path and the credentials if the head has
fewer than two words, and only then.
-/

namespace Sshnack

/-- The text ends with its only CRLF CRLF. -/
structure FirstBlank (s : CString) : Prop where
  closed : crlf ++ crlf <:+ s
  first : ¬ crlf ++ crlf <:+: s.dropLast

/-- The bytes that the words missing in the head take at least. -/
def missing (head : CString) : ℕ := if skipSpace head = [] then 3 else 1

def SameRouting (r r' : Request) : Prop :=
  r.method = r'.method ∧ r.path = r'.path ∧ r.auth = r'.auth

/-! ### Lines -/

section Lines

variable {s t : CString}

theorem exists_lines (t : CString) : ∃ lines, (∀ line ∈ lines, TextLine line) ∧
    ((∃ body, t = headerBytes lines ++ (crlf ++ body)) ∨
      ∃ tail, ¬ crlf <:+: tail ∧ t = headerBytes lines ++ tail) := by
  induction hn : t.length using Nat.strong_induction_on generalizing t with
  | _ n ih =>
    have hnone : ∀ line ∈ ([] : List CString), TextLine line :=
      fun line hline => absurd hline List.not_mem_nil
    rcases splitCrlf_cases t with ⟨line, rest, hsplit⟩ | hopen
    · obtain ⟨rfl, hline⟩ := splitCrlf_eq_some hsplit
      by_cases hblank : line = []
      · subst hblank
        exact ⟨[], hnone, .inl ⟨rest, rfl⟩⟩
      · have hshort : rest.length < n := by
          rw [← hn, List.length_append, List.length_cons, List.length_cons]
          omega
        obtain ⟨lines, hlines, hrest⟩ := ih rest.length hshort rest rfl
        have hall : ∀ l ∈ line :: lines, TextLine l :=
          List.forall_mem_cons.2 ⟨⟨hblank, hline⟩, hlines⟩
        refine ⟨line :: lines, hall, ?_⟩
        rcases hrest with ⟨body, rfl⟩ | ⟨tail, htail, rfl⟩
        · exact .inl ⟨body, by simp [headerBytes, crlf]⟩
        · exact .inr ⟨tail, htail, by simp [headerBytes, crlf]⟩
    · exact ⟨[], hnone, .inr ⟨t, hopen, rfl⟩⟩

theorem crlf_suffix_headerBytes (lines : List CString) : crlf <:+ crlf ++ headerBytes lines := by
  rcases List.eq_nil_or_concat lines with rfl | ⟨lines, line, rfl⟩
  · simp [headerBytes]
  · refine ⟨crlf ++ (headerBytes lines ++ line), ?_⟩
    simp [headerBytes]

/-- Line breaks do not overlap. -/
theorem crlf_suffix_append (hs : crlf <:+ s) (h : crlf <:+ s ++ t) : t = [] ∨ crlf <:+ t := by
  rcases t with _ | ⟨c, _ | ⟨d, t⟩⟩
  · exact .inl rfl
  · obtain ⟨s, rfl⟩ := hs
    obtain ⟨u, hu⟩ := h
    have hshape : u ++ [13, 10] = (s ++ [13]) ++ [10, c] := by simpa [crlf] using hu
    have hlast := (List.append_inj' hshape rfl).2
    exact absurd (List.cons.inj hlast).1 (by decide)
  · exact .inr (List.suffix_of_suffix_length_le h (List.suffix_append s _) (by simp [crlf]))

theorem not_blank_of_open {line tail : CString} {lines : List CString} (hline : ¬ crlf <:+: line)
    (hlines : ∀ l ∈ lines, TextLine l) (htail : ¬ crlf <:+: tail) :
    ¬ crlf ++ crlf <:+ line ++ (crlf ++ headerBytes lines) ++ tail := by
  have hbefore (ls : List CString) : crlf <:+ line ++ (crlf ++ headerBytes ls) :=
    (crlf_suffix_headerBytes ls).trans (List.suffix_append line _)
  intro h
  rcases crlf_suffix_append (hbefore lines) ((List.suffix_append crlf crlf).trans h) with
    rfl | hsuffix
  · obtain ⟨u, hu⟩ := h
    rcases List.eq_nil_or_concat lines with rfl | ⟨lines, last, rfl⟩
    · have hcancel : u ++ crlf ++ crlf = line ++ crlf := by simpa [headerBytes] using hu
      have hend : u ++ crlf = line := List.append_cancel_right hcancel
      exact hline ⟨u, [], by rw [List.append_nil, hend]⟩
    · have hcancel : u ++ crlf ++ crlf = line ++ (crlf ++ headerBytes lines) ++ last ++ crlf := by
        simpa [headerBytes] using hu
      have hend := List.append_cancel_right hcancel
      have hlast := hlines last (by simp)
      rcases crlf_suffix_append (hbefore lines) ⟨u, hend⟩ with hnil | hsuffix
      · exact hlast.1 hnil
      · exact hlast.2 hsuffix.isInfix
  · exact htail hsuffix.isInfix

theorem FirstBlank.exists_lines (h : FirstBlank s) :
    ∃ line lines, (∀ l ∈ lines, TextLine l) ∧ ¬ crlf <:+: line ∧
      s = line ++ (crlf ++ (headerBytes lines ++ crlf)) := by
  rcases splitCrlf_cases s with ⟨line, p, hsplit⟩ | hopen
  · obtain ⟨hs, hline⟩ := splitCrlf_eq_some hsplit
    have hs' : s = line ++ (crlf ++ p) := hs
    obtain ⟨lines, hlines, ⟨body, rfl⟩ | ⟨tail, htail, rfl⟩⟩ := Sshnack.exists_lines p
    · rcases List.eq_nil_or_concat body with rfl | ⟨body, c, rfl⟩
      · rw [List.append_nil] at hs'
        exact ⟨line, lines, hlines, hline, hs'⟩
      · exfalso
        obtain ⟨u, hu⟩ := crlf_suffix_headerBytes lines
        apply h.first
        have hshape : s = line ++ (u ++ (crlf ++ crlf) ++ body) ++ [c] := by
          rw [hs', ← List.append_assoc crlf, ← hu]
          simp
        rw [hshape, List.dropLast_concat]
        exact ⟨line ++ u, body, by simp⟩
    · exfalso
      apply not_blank_of_open hline hlines htail
      have hshape : s = line ++ (crlf ++ headerBytes lines) ++ tail := by simp [hs']
      rw [← hshape]
      exact h.closed
  · exact absurd ((List.suffix_append crlf crlf).trans h.closed).isInfix hopen

end Lines

/-! ### Words -/

section Words

variable {s b : CString}

def EndsInSpace (s : CString) : Prop := ∃ c, s.getLast? = some c ∧ isSpace c = true

theorem EndsInSpace.suffix {t : CString} (h : EndsInSpace s) (hsuffix : t <:+ s) (hne : t ≠ []) :
    EndsInSpace t := by
  obtain ⟨c, hlast, hc⟩ := h
  obtain ⟨u, rfl⟩ := hsuffix
  exact ⟨c, by rwa [List.getLast?_append_of_ne_nil _ hne] at hlast, hc⟩

theorem EndsInSpace.cases (h : EndsInSpace s) : skipSpace s = [] ∨
    ∃ w rest, skipSpace s = w ++ rest ∧ w ≠ [] ∧ (∀ c ∈ w, isSpace c = false) ∧
      (∀ b, ∀ c ∈ (rest ++ b).head?, isSpace c = true) ∧ EndsInSpace rest := by
  cases hskip : skipSpace s with
  | nil => exact .inl rfl
  | cons d u =>
    right
    have hd : isSpace d = false := dropWhile_head hskip
    have hsuffix : d :: u <:+ s := hskip ▸ List.dropWhile_suffix isSpace
    have htail : (d :: u).dropWhile (fun c => !isSpace c) <:+ d :: u := List.dropWhile_suffix _
    obtain ⟨c, hlast, hc⟩ := h.suffix hsuffix (List.cons_ne_nil d u)
    cases hrest : (d :: u).dropWhile fun c => !isSpace c with
    | nil =>
      have hword := List.dropWhile_eq_nil_iff.1 hrest c (List.mem_of_getLast? hlast)
      rw [hc] at hword
      cases hword
    | cons e v =>
      rw [hrest] at htail
      have he : isSpace e = true := by simpa using dropWhile_head hrest
      refine ⟨(d :: u).takeWhile fun c => !isSpace c, e :: v, ?_, ?_, ?_, ?_, ?_⟩
      · rw [← hrest, List.takeWhile_append_dropWhile]
      · simp [hd]
      · intro c hc
        simpa using List.all_eq_true.1 List.all_takeWhile c hc
      · rintro b c ⟨⟩
        exact he
      · exact h.suffix (htail.trans hsuffix) (List.cons_ne_nil e v)

theorem skipSpace_append (s b : CString) :
    skipSpace (s ++ b) = if skipSpace s = [] then skipSpace b else skipSpace s ++ b := by
  rw [skipSpace, List.dropWhile_append]
  cases hskip : s.dropWhile isSpace <;> simp [skipSpace, hskip]

theorem scanWord_skipSpace (width : ℕ) (s : CString) :
    scanWord width (skipSpace s) = scanWord width s := by
  have hidem : skipSpace (skipSpace s) = skipSpace s := List.dropWhile_idempotent isSpace s
  rw [scanWord, scanWord, hidem]

theorem scanWords_skipSpace (s : CString) : scanWords (skipSpace s) = scanWords s := by
  rw [scanWords, scanWord_skipSpace, scanWords]

/-- The words that the body adds to those of the head. -/
theorem scanWords_append (h : EndsInSpace s) (b : CString) :
    (skipSpace s = [] ∧ scanWords (s ++ b) = scanWords b) ∨
    (skipSpace s ≠ [] ∧ scanWords s = none ∧
      ∃ w, scanWords (s ++ b) = (scanWord 63 b).map fun path => (w, path.1)) ∨
    (scanWords s).isSome ∧ scanWords (s ++ b) = scanWords s := by
  rcases h.cases with hnil | ⟨w, rest, hskip, hne, hw, hrest, hspace⟩
  · left
    refine ⟨hnil, ?_⟩
    rw [← scanWords_skipSpace (s ++ b), skipSpace_append, if_pos hnil, scanWords_skipSpace]
  · right
    have hcons : skipSpace s ≠ [] := by simp [hskip, hne]
    have hscan (b : CString) : scanWords (s ++ b) =
        if w.length ≤ 15 then (scanWord 63 (rest ++ b)).map fun path => (w, path.1)
        else some (w.take 15, (w.drop 15).take 63) := by
      rw [← scanWords_skipSpace, skipSpace_append, if_neg hcons, hskip, List.append_assoc,
        scanWords_word hw hne (hrest b), scanWord_skipSpace]
    have hself := hscan []
    rw [List.append_nil, List.append_nil] at hself
    by_cases hlen : w.length ≤ 15
    · rw [if_pos hlen] at hself
      rcases hspace.cases with hnil | ⟨v, rest', hskip', hne', hv, hrest', -⟩
      · left
        have hnone : scanWord 63 rest = none := by
          rw [← scanWord_skipSpace, hnil, scanWord_nil]
        refine ⟨hcons, by rw [hself, hnone, Option.map_none], w, ?_⟩
        rw [hscan, if_pos hlen, ← scanWord_skipSpace, skipSpace_append, if_pos hnil,
          scanWord_skipSpace]
      · right
        have hpath (b : CString) :
            scanWord 63 (rest ++ b) = some (v.take 63, v.drop 63 ++ (rest' ++ b)) := by
          rw [← scanWord_skipSpace, skipSpace_append, if_neg (by simp [hskip', hne']), hskip',
            List.append_assoc, scanWord_word hv hne' (hrest' b) (by decide)]
        have hpath' := hpath []
        rw [List.append_nil] at hpath'
        rw [hself, hpath', hscan, if_pos hlen, hpath]
        exact ⟨rfl, rfl⟩
    · right
      rw [if_neg hlen] at hself
      rw [hscan, if_neg hlen, hself]
      exact ⟨rfl, rfl⟩

theorem scanWords_short {b : CString} (hb : b.length < 3) : scanWords b = none := by
  match b, hb with
  | [], _ => rfl
  | [c], _ => by_cases hc : isSpace c <;> simp [scanWords, scanWord, skipSpace, hc]
  | [c, d], _ =>
    by_cases hc : isSpace c <;> by_cases hd : isSpace d <;>
      simp [scanWords, scanWord, skipSpace, hc, hd]

end Words

/-! ### Routing -/

section Routing

variable {head : CString}

theorem FirstBlank.endsInSpace (h : FirstBlank head) : EndsInSpace head := by
  obtain ⟨s, rfl⟩ := h.closed
  exact ⟨10, by simp [crlf], by decide⟩

/-- The loop over the lines stops where the body starts. -/
theorem FirstBlank.parseRequest (h : FirstBlank head) (adminToken : CString) :
    ∃ auth, ∀ body, parseRequest adminToken (head ++ body) = match scanWords (head ++ body) with
      | none => ⟨none, [], [], noAuth⟩
      | some (method, path) => ⟨parseMethod method, path, body.take 511, auth⟩ := by
  obtain ⟨line, lines, hlines, hline, rfl⟩ := h.exists_lines
  refine ⟨credentials adminToken lines, fun body => ?_⟩
  have hlen := headerBytes_length lines
  have hsplit : splitCrlf (line ++ (crlf ++ (headerBytes lines ++ crlf)) ++ body) =
      some (line, headerBytes lines ++ (crlf ++ body)) := by
    rw [← splitCrlf_append hline]
    simp [crlf]
  unfold Sshnack.parseRequest
  cases scanWords (line ++ (crlf ++ (headerBytes lines ++ crlf)) ++ body) with
  | none => rfl
  | some words =>
    simp only [hsplit]
    rw [headerLoop_closed hlines (by rw [List.length_append]; omega)]
    rfl

theorem FirstBlank.path_ne (h : FirstBlank head) (adminToken : CString) {body : CString}
    {words : CString × CString} (hhead : scanWords head = none)
    (hwords : scanWords (head ++ body) = some words) (hpath : words.2 ≠ []) :
    ¬ SameRouting (Sshnack.parseRequest adminToken head)
      (Sshnack.parseRequest adminToken (head ++ body)) := by
  obtain ⟨auth, hparse⟩ := h.parseRequest adminToken
  have hempty := hparse []
  rw [List.append_nil, hhead] at hempty
  rw [hempty, hparse, hwords]
  rintro ⟨-, hpath', -⟩
  exact hpath hpath'.symm

theorem FirstBlank.sameRouting (h : FirstBlank head) (adminToken : CString) {b₁ b₂ : CString}
    (hwords : scanWords (head ++ b₁) = scanWords (head ++ b₂)) :
    SameRouting (Sshnack.parseRequest adminToken (head ++ b₁))
      (Sshnack.parseRequest adminToken (head ++ b₂)) := by
  obtain ⟨auth, hparse⟩ := h.parseRequest adminToken
  rw [hparse, hparse, hwords]
  cases scanWords (head ++ b₂) <;> exact ⟨rfl, rfl, rfl⟩

theorem FirstBlank.scanWords_missing (h : FirstBlank head) {body : CString}
    (hhead : scanWords head = none) (hshort : body.length < missing head) :
    scanWords (head ++ body) = none := by
  rcases scanWords_append h.endsInSpace body with
    ⟨hskip, heq⟩ | ⟨hskip, -, w, heq⟩ | ⟨hsome, -⟩
  · rw [missing, if_pos hskip] at hshort
    rw [heq, scanWords_short hshort]
  · rw [missing, if_neg hskip] at hshort
    have hnil : body = [] := List.length_eq_zero_iff.1 (by omega)
    rw [heq, hnil, scanWord_nil]
    rfl
  · rw [hhead] at hsome
    cases hsome

theorem FirstBlank.exists_scanWords (h : FirstBlank head) (hhead : scanWords head = none) :
    ∃ body words, 0 ∉ body ∧ body.length = missing head ∧
      scanWords (head ++ body) = some words ∧ words.2 ≠ [] := by
  have hslash : scanWord 63 [47] = some ([47], []) := by decide
  have hpair : scanWords [47, 32, 47] = some ([47], [47]) := by decide
  rcases scanWords_append h.endsInSpace [47, 32, 47] with ⟨hskip, heq⟩ | ⟨hskip, -⟩ | ⟨hsome, -⟩
  · exact ⟨[47, 32, 47], ([47], [47]), by decide, by rw [missing, if_pos hskip]; rfl,
      heq.trans hpair, by decide⟩
  · rcases scanWords_append h.endsInSpace [47] with ⟨hnil, -⟩ | ⟨-, -, w, heq⟩ | ⟨hsome, -⟩
    · exact absurd hnil hskip
    · rw [hslash] at heq
      exact ⟨[47], (w, [47]), by decide, by rw [missing, if_neg hskip]; rfl, heq,
        List.cons_ne_nil 47 []⟩
    · rw [hhead] at hsome
      cases hsome
  · rw [hhead] at hsome
    cases hsome

/-- The body has no say in the routing if and only if the head has its two words or the receive
buffer has no room for the missing ones. -/
theorem routed_by_head_iff (adminToken : CString) {head : CString} (hblank : FirstBlank head)
    (hnul : 0 ∉ head) :
    (∀ b₁ b₂, 0 ∉ b₁ → 0 ∉ b₂ → (head ++ b₁).length ≤ 2047 → (head ++ b₂).length ≤ 2047 →
      SameRouting (parseRequest adminToken (cString (head ++ b₁)))
        (parseRequest adminToken (cString (head ++ b₂)))) ↔
    (scanWords head).isSome ∨ 2047 < head.length + missing head := by
  have hstring (b : CString) (hb : 0 ∉ b) : cString (head ++ b) = head ++ b := by
    rw [cString_append hnul, cString_of_noNul hb]
  constructor
  · intro hsame
    by_contra hcond
    obtain ⟨hhead, hroom⟩ := not_or.1 hcond
    rw [Bool.not_eq_true, Option.isSome_eq_false_iff, Option.isNone_iff_eq_none] at hhead
    obtain ⟨body, words, hbody, hlen, hwords, hpath⟩ := hblank.exists_scanWords hhead
    have hdiff := hblank.path_ne adminToken hhead hwords hpath
    apply hdiff
    have hrun := hsame [] body (by decide) hbody (by rw [List.append_nil]; omega)
      (by rw [List.length_append]; omega)
    rwa [hstring [] (by decide), hstring body hbody, List.append_nil] at hrun
  · intro hcond b₁ b₂ hb₁ hb₂ hlen₁ hlen₂
    rw [hstring b₁ hb₁, hstring b₂ hb₂]
    apply hblank.sameRouting adminToken
    cases hhead : scanWords head with
    | none =>
      rw [hhead] at hcond
      rw [List.length_append] at hlen₁ hlen₂
      have hroom : 2047 < head.length + missing head := by simpa using hcond
      rw [hblank.scanWords_missing hhead (by omega), hblank.scanWords_missing hhead (by omega)]
    | some words =>
      have hfixed (b : CString) : scanWords (head ++ b) = some words := by
        rcases scanWords_append hblank.endsInSpace b with ⟨hskip, -⟩ | ⟨-, hnone, -⟩ | ⟨-, heq⟩
        · rw [← scanWords_skipSpace, hskip] at hhead
          cases hhead
        · rw [hhead] at hnone
          cases hnone
        · rw [heq, hhead]
      rw [hfixed, hfixed]

theorem routed_by_head_get : FirstBlank (ascii "GET /stock HTTP/1.1\r\n\r\n") ∧
    ∀ b₁ b₂, 0 ∉ b₁ → 0 ∉ b₂ → (ascii "GET /stock HTTP/1.1\r\n\r\n" ++ b₁).length ≤ 2047 →
      (ascii "GET /stock HTTP/1.1\r\n\r\n" ++ b₂).length ≤ 2047 →
      SameRouting (parseRequest [] (cString (ascii "GET /stock HTTP/1.1\r\n\r\n" ++ b₁)))
        (parseRequest [] (cString (ascii "GET /stock HTTP/1.1\r\n\r\n" ++ b₂))) :=
  have hblank : FirstBlank (ascii "GET /stock HTTP/1.1\r\n\r\n") :=
    ⟨by decide, by decide⟩
  ⟨hblank, (routed_by_head_iff [] hblank (by decide)).2 (.inl (by decide))⟩

theorem routed_by_body : FirstBlank (ascii "GET\r\n\r\n") ∧
    ¬ ∀ b₁ b₂, 0 ∉ b₁ → 0 ∉ b₂ → (ascii "GET\r\n\r\n" ++ b₁).length ≤ 2047 →
      (ascii "GET\r\n\r\n" ++ b₂).length ≤ 2047 →
      SameRouting (parseRequest [] (cString (ascii "GET\r\n\r\n" ++ b₁)))
        (parseRequest [] (cString (ascii "GET\r\n\r\n" ++ b₂))) := by
  refine ⟨⟨by decide, by decide⟩, fun hsame => ?_⟩
  have hrun := hsame (ascii "/stock") (ascii "/balance") (by decide) (by decide)
    (by decide) (by decide)
  have hpaths : (parseRequest [] (cString (ascii "GET\r\n\r\n" ++ ascii "/stock"))).path ≠
      (parseRequest [] (cString (ascii "GET\r\n\r\n" ++ ascii "/balance"))).path := by
    decide
  exact hpaths hrun.2.1

end Routing

end Sshnack
