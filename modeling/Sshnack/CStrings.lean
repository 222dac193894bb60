import Mathlib.Tactic

/-!
# C strings and the tokenizer of the C library

A C string is the list of its bytes before the terminating NUL. `strtok` is one call of the function
on the text at its cursor, as glibc computes it: the token, if there is one, and the text that the
cursor points to afterwards. The set of delimiters is one character, or empty when it is NUL.
-/

namespace Sshnack

/-- The bytes of a C string, without its terminating NUL. -/
abbrev CString := List UInt8

def ascii (s : String) : CString := s.toList.map fun c => c.toNat.toUInt8

def strtok (delim : UInt8) (s : CString) : Option CString × CString :=
  match s.dropWhile (· = delim) with
  | [] => (none, [])
  | c :: t => (some ((c :: t).takeWhile (· ≠ delim)), ((c :: t).dropWhile (· ≠ delim)).drop 1)

theorem dropWhile_head {p : UInt8 → Bool} {s t : CString} {c : UInt8}
    (h : s.dropWhile p = c :: t) : p c = false := by
  have hhead := List.head?_dropWhile_not p s
  rwa [h] at hhead

/-- A call that returns a token moves the cursor forward. -/
theorem strtok_length {delim : UInt8} {s token rest : CString}
    (h : strtok delim s = (some token, rest)) : rest.length < s.length := by
  unfold strtok at h
  have hle := (List.dropWhile_sublist (fun c => decide (c = delim)) (l := s)).length_le
  cases hs : s.dropWhile (· = delim) with
  | nil =>
    rw [hs] at h
    cases h
  | cons c t =>
    rw [hs] at h hle
    have hrest := (Prod.mk.inj h).2
    have hc : c ≠ delim := by simpa using dropWhile_head hs
    have hdrop : (c :: t).dropWhile (· ≠ delim) = t.dropWhile (· ≠ delim) := by
      simp [hc]
    have hshort := (List.dropWhile_sublist (fun c => decide (c ≠ delim)) (l := t)).length_le
    rw [hdrop] at hrest
    rw [← hrest, List.length_drop]
    simp only [List.length_cons] at hle
    omega

@[simp] theorem strtok_delim (delim : UInt8) (s : CString) :
    strtok delim (delim :: s) = strtok delim s := by
  simp [strtok]

/-- A word up to a delimiter or the end. -/
theorem strtok_word {delim : UInt8} {w rest : CString} (hne : w ≠ []) (hw : delim ∉ w)
    (hrest : ∀ c ∈ rest.head?, c = delim) : strtok delim (w ++ rest) = (some w, rest.drop 1) := by
  have hword : ∀ c ∈ w, decide (c ≠ delim) = true := by
    intro c hc
    have hcd : c ≠ delim := fun heq => hw (heq ▸ hc)
    simpa using hcd
  have htake : (w ++ rest).takeWhile (· ≠ delim) = w := by
    rw [List.takeWhile_append_of_pos hword]
    cases rest with
    | nil => simp
    | cons c rest => simp [hrest c rfl]
  have hdrop : (w ++ rest).dropWhile (· ≠ delim) = rest := by
    rw [List.dropWhile_append_of_pos hword]
    cases rest with
    | nil => rfl
    | cons c rest => simp [hrest c rfl]
  obtain ⟨c, w, rfl⟩ := List.exists_cons_of_ne_nil hne
  have hc : c ≠ delim := fun heq => hw (heq ▸ List.mem_cons_self)
  have hlead : (c :: w ++ rest).dropWhile (· = delim) = c :: (w ++ rest) := by
    simp [hc]
  rw [List.cons_append] at htake hdrop
  simp only [strtok, hlead, htake, hdrop]

end Sshnack
