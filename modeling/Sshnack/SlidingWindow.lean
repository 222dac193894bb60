import Mathlib.Data.List.Infix
import Mathlib.Tactic

/-!
# Recognizing a pattern with a sliding window

The window is filled with the latest inputs, slides when it is full and is emptied by a match. If no
border of the pattern is left over after a match, this finds every occurrence of the pattern.
-/

namespace Sliding

variable {α : Type*} {pattern hist window init : List α} {x : α}

/-- The window with one more input. -/
def slide (pattern window : List α) (x : α) : List α :=
  if window.length < pattern.length then window ++ [x] else window.tail ++ [x]

/-- The window after an input, and whether the input completes the pattern. -/
def feed [DecidableEq α] (pattern window : List α) (x : α) : List α × Bool :=
  if slide pattern window x = pattern then ([], true) else (slide pattern window x, false)

/-- No proper part at the end of the pattern is also at its front. -/
def Unbordered (pattern : List α) : Prop :=
  ∀ border, border ≠ [] → border.length < pattern.length → border <+: pattern → ¬ border <:+ pattern

/-- The window holds the end of the history. As long as it is not full, it reaches back to the start
or to the last match. -/
structure Tracks (pattern hist window : List α) : Prop where
  suffix : window <:+ hist
  length_le : window.length ≤ pattern.length
  restart : window.length < pattern.length → window = hist ∨ pattern ++ window <:+ hist

theorem unbordered_concat (h : x ∉ init) : Unbordered (init ++ [x]) := by
  rintro border hne hlen hprefix hsuffix
  obtain ⟨border, y, hconcat⟩ := (List.eq_nil_or_concat border).resolve_left hne
  rw [List.concat_eq_append] at hconcat
  subst hconcat
  have hy : y = x := by
    obtain ⟨front, hfront⟩ := hsuffix
    rw [← List.append_assoc] at hfront
    simpa using (List.append_inj' hfront rfl).2
  have hinit : border ++ [y] <+: init := by
    apply List.prefix_of_prefix_length_le hprefix (List.prefix_append init [x])
    simp only [List.length_append, List.length_singleton] at hlen ⊢
    omega
  exact h (hy ▸ hinit.subset (by simp))

theorem tracks_nil (pattern : List α) : Tracks pattern [] [] :=
  ⟨List.suffix_rfl, Nat.zero_le _, fun _ => .inl rfl⟩

theorem slide_length (h : window.length ≤ pattern.length) (hpattern : pattern ≠ []) :
    (slide pattern window x).length = min (window.length + 1) pattern.length := by
  have hpos := List.length_pos_iff.2 hpattern
  unfold slide
  split_ifs with hlt
  · rw [List.length_append, List.length_singleton]
    omega
  · rw [List.length_append, List.length_tail, List.length_singleton]
    omega

theorem slide_suffix (h : window <:+ hist) : slide pattern window x <:+ hist ++ [x] := by
  have happend {w : List α} (hw : w <:+ hist) : w ++ [x] <:+ hist ++ [x] := by
    obtain ⟨front, rfl⟩ := hw
    exact ⟨front, by rw [List.append_assoc]⟩
  unfold slide
  split_ifs
  · exact happend h
  · exact happend ((List.tail_suffix window).trans h)

variable [DecidableEq α]

theorem Tracks.feed (h : Tracks pattern hist window) (hpattern : pattern ≠ []) (x : α) :
    Tracks pattern (hist ++ [x]) (feed pattern window x).1 := by
  have hsuffix : slide pattern window x <:+ hist ++ [x] := slide_suffix h.suffix
  have hlength : (slide pattern window x).length = _ := slide_length h.length_le hpattern
  unfold Sliding.feed
  split_ifs with hmatch
  · refine ⟨List.nil_suffix, Nat.zero_le _, fun _ => .inr ?_⟩
    rwa [List.append_nil, ← hmatch]
  · dsimp only
    refine ⟨hsuffix, by omega, fun hshort => ?_⟩
    have hroom : window.length < pattern.length := by omega
    rw [slide, if_pos hroom]
    rcases h.restart hroom with rfl | ⟨front, rfl⟩
    · exact .inl rfl
    · exact .inr ⟨front, by simp⟩

/-- The window finds exactly the occurrences of the pattern at the end of the history. -/
theorem Tracks.feed_iff (h : Tracks pattern hist window) (hpattern : pattern ≠ [])
    (hborder : Unbordered pattern) (x : α) :
    (Sliding.feed pattern window x).2 = true ↔ pattern <:+ hist ++ [x] := by
  have hsuffix : slide pattern window x <:+ hist ++ [x] := slide_suffix h.suffix
  have hlength : (slide pattern window x).length = _ := slide_length h.length_le hpattern
  have hmatch : (Sliding.feed pattern window x).2 = true ↔ slide pattern window x = pattern := by
    unfold Sliding.feed
    split_ifs with hmatch <;> simp [hmatch]
  rw [hmatch]
  constructor
  · intro heq
    rwa [heq] at hsuffix
  · intro hend
    have hwindow := List.suffix_of_suffix_length_le hsuffix hend (by omega)
    by_contra hne
    have hshort : (slide pattern window x).length < pattern.length :=
      lt_of_le_of_ne hwindow.length_le fun hlen => hne (hwindow.eq_of_length hlen)
    have hroom : window.length < pattern.length := by omega
    rw [slide, if_pos hroom] at hshort hwindow
    rcases h.restart hroom with rfl | ⟨front, hfront⟩
    · have hle := hend.length_le
      omega
    · -- what is left of the pattern in front of the window is also the end of the last match
      obtain ⟨border, hsplit⟩ := hwindow
      have hpart : border <:+ front ++ pattern := by
        obtain ⟨before, hbefore⟩ := hend
        have hcancel : before ++ border ++ (window ++ [x]) = front ++ pattern ++ (window ++ [x]) := by
          rw [List.append_assoc, hsplit, hbefore, ← hfront]
          simp
        exact ⟨before, List.append_cancel_right hcancel⟩
      have hle : border.length ≤ pattern.length := by
        rw [← hsplit, List.length_append]
        omega
      have hlen := congrArg List.length hsplit
      rw [List.length_append, List.length_append, List.length_singleton] at hlen
      rw [List.length_append, List.length_singleton] at hshort
      have hne' : border ≠ [] := by
        rintro rfl
        rw [List.length_nil] at hlen
        omega
      exact hborder border hne' (by omega) ⟨window ++ [x], hsplit⟩
        (List.suffix_of_suffix_length_le hpart (List.suffix_append front pattern) hle)

end Sliding
