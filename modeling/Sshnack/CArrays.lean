import Sshnack.CStrings

/-!
# C arrays

An access to an array is a partial function: outside the bounds there is no result. A string in a
buffer ends at its first NUL, and without a NUL there is no string.
-/

namespace Sshnack

variable {α : Type*} {n : ℕ}

/-- `xs[i]` as a value. -/
def load (xs : List α) (i : Int) : Option α := if 0 ≤ i then xs[i.toNat]? else none

/-- `xs[i] = x`. -/
def store (xs : Vector α n) (i : Int) (x : α) : Option (Vector α n) :=
  if h : 0 ≤ i ∧ i < n then some (xs.set i.toNat x (by omega)) else none

def cstr (buf : Vector UInt8 n) : Option CString :=
  if 0 ∈ buf.toList then some (buf.toList.takeWhile (· ≠ 0)) else none

/-- `snprintf(buf, size, ..)`: the string that is then in the buffer. -/
def snprintf (size : ℕ) (text : CString) : CString := text.take (size - 1)

/-- `sprintf(buf + pos, ..)`, which writes a text and its NUL: the buffer and the position of the
NUL. -/
def sprintf (buf : Vector UInt8 n) (pos : ℕ) : CString → Option (Vector UInt8 n × ℕ)
  | [] => (store buf pos 0).map fun buf => (buf, pos)
  | c :: text => (store buf pos c).bind fun buf => sprintf buf (pos + 1) text

theorem store_of_range (xs : Vector α n) {i : Int} (x : α) (h : 0 ≤ i ∧ i < n) :
    store xs i x = some (xs.set i.toNat x (by omega)) := dif_pos h

theorem store_of_lt (xs : Vector α n) {i : ℕ} (x : α) (hlt : i < n) :
    store xs i x = some (xs.set i x hlt) := store_of_range xs x (by omega)

theorem store_after {xs : Vector α n} {front rest : List α} (h : xs.toList = front ++ rest) (x : α)
    (hlen : front.length < n) :
    ∃ xs', store xs front.length x = some xs' ∧ xs'.toList = front ++ x :: rest.tail := by
  refine ⟨_, store_of_lt xs x hlen, ?_⟩
  cases rest with
  | nil =>
    have htotal := congrArg List.length h
    simp only [Vector.length_toList, List.append_nil] at htotal
    omega
  | cons y rest =>
    rw [Vector.toList_set, h]
    simp

section Text
variable {buf : Vector UInt8 n} {s : CString} {c : UInt8}

theorem takeWhile_text {rest : CString} (h0 : 0 ∉ s) :
    (s ++ 0 :: rest).takeWhile (· ≠ 0) = s := by
  rw [List.takeWhile_append_of_pos]
  · simp
  · intro c hc
    have hne : c ≠ 0 := fun hz => h0 (hz ▸ hc)
    simpa using hne

theorem cstr_iff : cstr buf = some s ↔ 0 ∉ s ∧ ∃ rest, buf.toList = s ++ 0 :: rest := by
  unfold cstr
  constructor
  · intro h
    split_ifs at h with h0
    obtain ⟨text, rest, hbuf, hnul⟩ := List.eq_append_cons_of_mem h0
    rw [hbuf, takeWhile_text hnul] at h
    cases h
    exact ⟨hnul, rest, hbuf⟩
  · rintro ⟨h0, rest, hbuf⟩
    rw [hbuf, if_pos (by simp), takeWhile_text h0]

theorem cstr_length (h : cstr buf = some s) : s.length < n := by
  obtain ⟨_, rest, hbuf⟩ := cstr_iff.1 h
  have hlen := congrArg List.length hbuf
  simp only [Vector.length_toList, List.length_append, List.length_cons] at hlen
  omega

/-- `buf[0] = '\0'`. -/
theorem cstr_clear (buf : Vector UInt8 n) (hn : 0 < n) :
    ∃ buf', store buf 0 0 = some buf' ∧ cstr buf' = some [] := by
  refine ⟨buf.set 0 0 hn, store_of_lt buf 0 hn, cstr_iff.2 ⟨by simp, buf.toList.tail, ?_⟩⟩
  rw [Vector.toList_set]
  cases hbuf : buf.toList with
  | nil =>
    have hlen := congrArg List.length hbuf
    simp only [Vector.length_toList, List.length_nil] at hlen
    omega
  | cons c rest => rfl

/-- `buf[l - 1] = '\0'`. -/
theorem cstr_truncate (h : cstr buf = some (s ++ [c])) :
    ∃ buf', store buf s.length 0 = some buf' ∧ cstr buf' = some s := by
  have hlen := cstr_length h
  rw [List.length_append, List.length_singleton] at hlen
  obtain ⟨h0, rest, hbuf⟩ := cstr_iff.1 h
  have hlt : s.length < n := by omega
  refine ⟨_, store_of_lt buf 0 hlt, cstr_iff.2 ⟨fun hs => h0 (by simp [hs]), 0 :: rest, ?_⟩⟩
  rw [Vector.toList_set, hbuf]
  simp

/-- `buf[l] = c; buf[l + 1] = '\0'`. -/
theorem cstr_append (h : cstr buf = some s) (hlen : s.length + 1 < n) (hc : c ≠ 0) :
    ∃ mid buf', store buf s.length c = some mid ∧ store mid (s.length + 1) 0 = some buf' ∧
      cstr buf' = some (s ++ [c]) := by
  obtain ⟨h0, rest, hbuf⟩ := cstr_iff.1 h
  have hlast := fun mid : Vector UInt8 n => store_of_lt mid 0 hlen
  rw [Nat.cast_add, Nat.cast_one] at hlast
  refine ⟨_, _, store_of_lt buf c (by omega), hlast _, cstr_iff.2 ⟨?_, rest.tail, ?_⟩⟩
  · simp [h0, hc.symm]
  · cases rest with
    | nil =>
      have htotal := congrArg List.length hbuf
      simp only [Vector.length_toList, List.length_append, List.length_singleton] at htotal
      omega
    | cons d rest =>
      rw [Vector.toList_set, Vector.toList_set, hbuf]
      simp

/-- A text that fits with its NUL is written behind what is there. -/
theorem sprintf_some {text rest : List UInt8} (h : buf.toList = s ++ rest)
    (hlen : s.length + text.length < n) :
    ∃ buf' rest', sprintf buf s.length text = some (buf', (s ++ text).length) ∧
      buf'.toList = s ++ text ++ 0 :: rest' := by
  induction text generalizing s buf rest with
  | nil =>
    obtain ⟨buf', hstore, hbuf'⟩ := store_after h 0 hlen
    exact ⟨buf', rest.tail, by rw [sprintf, hstore, List.append_nil]; rfl, by rw [hbuf']; simp⟩
  | cons c text ih =>
    rw [List.length_cons] at hlen
    obtain ⟨mid, hstore, hmid⟩ := store_after h c (by omega)
    have hmid' : mid.toList = s ++ [c] ++ rest.tail := by simpa using hmid
    have hsnoc : (s ++ [c]).length = s.length + 1 := by simp
    obtain ⟨buf', rest', hprint, hbuf'⟩ := ih hmid' (by omega)
    rw [hsnoc] at hprint
    exact ⟨buf', rest', by rw [sprintf, hstore, Option.bind_some, hprint]; simp, by simpa using hbuf'⟩

theorem sprintf_none {text rest : List UInt8} (h : buf.toList = s ++ rest)
    (hlen : n ≤ s.length + text.length) : sprintf buf s.length text = none := by
  induction text generalizing s buf rest with
  | nil => rw [sprintf, store, dif_neg (by rw [List.length_nil] at hlen; omega), Option.map_none]
  | cons c text ih =>
    rw [List.length_cons] at hlen
    by_cases hlt : s.length < n
    · obtain ⟨mid, hstore, hmid⟩ := store_after h c hlt
      have hmid' : mid.toList = s ++ [c] ++ rest.tail := by simpa using hmid
      have hsnoc : (s ++ [c]).length = s.length + 1 := by simp
      have hprint := ih hmid' (by omega)
      rw [hsnoc] at hprint
      rw [sprintf, hstore, Option.bind_some, hprint]
    · rw [sprintf, store, dif_neg (by omega), Option.bind_none]

end Text

end Sshnack
