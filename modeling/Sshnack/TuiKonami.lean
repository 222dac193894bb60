import Sshnack.SlidingWindow
import Sshnack.TuiAdmin
import Sshnack.TuiSelection

/-!
# The recognizer of the code

The array of `feed_konami` with its position is a sliding window over all keys, whatever the mode in
which they are handled. No border of the code is left over after a match, because its last key occurs
nowhere else in it.
-/

namespace Sshnack.Tui

open Sliding

variable {a a' : App} {keypad : Keypad} {api : Api} {key : Int32} {window : List Int32}

/-- The filled part of the array. -/
structure Filled (a : App) (window : List Int32) : Prop where
  position : a.konamiPos.toInt = window.length
  prefixed : window <+: a.konami.toList

theorem konamiSeq_unbordered (keypad : Keypad) : Unbordered (konamiSeq keypad).toList := by
  have hlast : keyOf 'a' ∉ [keypad.up, keypad.up, keypad.down, keypad.down, keypad.left,
      keypad.right, keypad.left, keypad.right, keyOf 'b'] := by
    have hcode (k : Int32) (hk : k ∈ [keypad.up, keypad.down, keypad.left, keypad.right,
        keypad.enter, keypad.backspace]) : keyOf 'a' ≠ k := by
      rintro rfl
      exact absurd (keypad.no_character _ hk) (by decide)
    have hb : keyOf 'a' ≠ keyOf 'b' := by decide
    simp [hcode, hb]
  exact unbordered_concat hlast

theorem konamiSeq_ne_nil (keypad : Keypad) : (konamiSeq keypad).toList ≠ [] :=
  List.cons_ne_nil keypad.up _

theorem konamiSeq_length (keypad : Keypad) : (konamiSeq keypad).toList.length = konamiLen :=
  Vector.length_toList

theorem Edits.konami_eq (h : Edits a a') : a'.konami = a.konami := by
  refine h.preserve (P := fun b => b.konami = a.konami) (fun _ _ hedit hb => ?_) rfl
  cases hedit <;> exact hb

theorem Filled.edits (h : Filled a window) (hedits : Edits a a') : Filled a' window :=
  ⟨hedits.konamiPos_eq ▸ h.position, hedits.konami_eq ▸ h.prefixed⟩

theorem tail_push_toList (w : Vector Int32 konamiLen) (key : Int32) :
    (w.tail.push key).toList = w.toList.tail ++ [key] := by
  rw [Vector.toList_push, Vector.tail_eq_cast_extract, Vector.toList_cast, Vector.toList_extract]
  simp

/-- The array after a key. -/
theorem Filled.konamiWindow (h : Filled a window) (hlen : window.length ≤ konamiLen) (key : Int32) :
    ∃ w pos, konamiWindow key a = some (w, pos) ∧
      pos.toInt = (slide (konamiSeq keypad).toList window key).length ∧
      slide (konamiSeq keypad).toList window key <+: w.toList := by
  obtain ⟨rest, hrest⟩ := h.prefixed
  have hten : (10 : Int32).toInt = (10 : ℕ) := by decide
  have hslots : (konamiSeq keypad).toList.length = 10 := konamiSeq_length keypad
  have hpart : a.konamiPos < 10 ↔ window.length < 10 := by
    rw [Int32.lt_iff_toInt_lt, h.position, hten, Nat.cast_lt]
  have hlen' : window.length ≤ 10 := hlen
  unfold Tui.konamiWindow slide
  rw [hslots]
  by_cases hroom : window.length < 10
  · obtain ⟨w, hstore, hw⟩ := store_after hrest.symm key hroom
    have hone : (1 : Int32).toInt = 1 := by decide
    have hnext : (a.konamiPos + 1).toInt = a.konamiPos.toInt + 1 :=
      toInt_add_of_range (by rw [h.position, hone]; omega) (by rw [h.position, hone]; omega)
    rw [if_pos (hpart.2 hroom), if_pos hroom, h.position, hstore]
    refine ⟨w, a.konamiPos + 1, rfl, ?_, rest.tail, ?_⟩
    · rw [hnext, h.position, List.length_append, List.length_singleton]
      rfl
    · rw [hw, List.append_assoc]
      rfl
  · have hall : window = a.konami.toList :=
      h.prefixed.eq_of_length (by rw [Vector.length_toList, konamiLen]; omega)
    rw [if_neg fun hlt => hroom (hpart.1 hlt), if_neg hroom]
    refine ⟨_, _, rfl, ?_, ?_⟩
    · rw [h.position, List.length_append, List.length_tail, List.length_singleton]
      omega
    · have hpush := tail_push_toList a.konami key
      rw [← hall] at hpush
      exact ⟨[], (List.append_nil _).trans hpush.symm⟩

/-- `feed_konami` feeds the window and flips the flag if the code is complete. -/
theorem Filled.feedKonami (h : Filled a window) (hlen : window.length ≤ konamiLen)
    (keypad : Keypad) (key : Int32) :
    ∃ fed, feedKonami keypad key a = some fed ∧
      Filled fed (feed (konamiSeq keypad).toList window key).1 ∧
      (fed.admin ≠ a.admin ↔ (feed (konamiSeq keypad).toList window key).2 = true) := by
  obtain ⟨w, pos, hwindow, hpos, hprefix⟩ : ∃ w pos, Tui.konamiWindow key a = some (w, pos) ∧
      pos.toInt = (slide (konamiSeq keypad).toList window key).length ∧
      slide (konamiSeq keypad).toList window key <+: w.toList := h.konamiWindow hlen key
  have hten : (10 : Int32).toInt = (10 : ℕ) := by decide
  have hcode : pos = 10 ∧ w = konamiSeq keypad ↔
      slide (konamiSeq keypad).toList window key = (konamiSeq keypad).toList := by
    constructor
    · rintro ⟨rfl, rfl⟩
      rw [hten, Nat.cast_inj] at hpos
      exact hprefix.eq_of_length (by rw [← hpos, Vector.length_toList]; rfl)
    · intro heq
      rw [heq, Vector.length_toList] at hpos
      rw [heq] at hprefix
      have hw := hprefix.eq_of_length (by rw [Vector.length_toList, Vector.length_toList])
      exact ⟨Int32.toInt_inj.1 hpos, (Vector.toList_inj.1 hw).symm⟩
  simp only [Tui.feedKonami, hwindow, Option.bind_eq_bind, Option.bind_some]
  refine ⟨_, rfl, ?_⟩
  unfold feed
  by_cases hmatch : pos = 10 ∧ w = konamiSeq keypad
  · rw [if_pos hmatch, if_pos (hcode.1 hmatch)]
    refine ⟨⟨rfl, List.nil_prefix⟩, iff_of_true ?_ rfl⟩
    exact Bool.not_ne_self a.admin
  · rw [if_neg hmatch, if_neg fun heq => hmatch (hcode.2 heq)]
    exact ⟨⟨hpos, hprefix⟩, iff_of_false (not_not_intro rfl) Bool.false_ne_true⟩

theorem filled_appInit (api : Api) : Filled (appInit api) [] := by
  have hcleared : Filled .cleared [] := ⟨rfl, List.nil_prefix⟩
  exact hcleared.edits (edits_appInit api)

/-- After any run the array holds the window that the recognizer has for its keys. -/
theorem filled_run {keys : List (Int32 × Api)} (h : feedKeys keypad keys (appInit api) = some a) :
    ∃ window, Filled a window ∧
      Tracks (konamiSeq keypad).toList (keys.map Prod.fst) window := by
  induction keys using List.reverseRecOn generalizing a with
  | nil =>
    cases h
    exact ⟨[], filled_appInit api, tracks_nil _⟩
  | append_singleton keys k ih =>
    rw [feedKeys_concat, Option.bind_eq_some_iff] at h
    obtain ⟨mid, hmid, hstep⟩ := h
    obtain ⟨window, hfilled, htracks⟩ := ih hmid
    obtain ⟨fed, hfed, hedits⟩ := edits_appHandleKey hstep
    have hlen : window.length ≤ konamiLen := konamiSeq_length keypad ▸ htracks.length_le
    obtain ⟨fed', hfed', hnext, -⟩ := hfilled.feedKonami hlen keypad k.1
    cases hfed.symm.trans hfed'
    rw [List.map_append, List.map_cons, List.map_nil]
    exact ⟨_, hnext.edits hedits, htracks.feed (konamiSeq_ne_nil keypad) k.1⟩

/-- At every key of every run, `feed_konami` flips the admin flag if and only if the last ten keys
are the code. -/
theorem konami_exact {keys : List (Int32 × Api)} (keypad : Keypad) (api : Api)
    (h : feedKeys keypad keys (appInit api) = some a) (key : Int32) :
    ∃ fed, feedKonami keypad key a = some fed ∧
      (fed.admin ≠ a.admin ↔ (konamiSeq keypad).toList <:+ keys.map Prod.fst ++ [key]) := by
  obtain ⟨window, hfilled, htracks⟩ := filled_run h
  have hlen : window.length ≤ konamiLen := konamiSeq_length keypad ▸ htracks.length_le
  obtain ⟨fed, hfed, -, hflip⟩ := hfilled.feedKonami hlen keypad key
  refine ⟨fed, hfed, hflip.trans ?_⟩
  exact htracks.feed_iff (konamiSeq_ne_nil keypad) (konamiSeq_unbordered keypad) key

/-- The code is entered twice in a row, up to its last key. -/
theorem konami_exact_twice :
    ∃ a, feedKeys ncurses ((konamiKeys ++ konamiKeys.dropLast).map fun key => (key, oneSlot))
        (appInit oneSlot) = some a ∧
      ∃ fed, feedKonami ncurses (keyOf 'a') a = some fed ∧
        (fed.admin ≠ a.admin ↔ (konamiSeq ncurses).toList <:+
          ((konamiKeys ++ konamiKeys.dropLast).map fun key => (key, oneSlot)).map Prod.fst ++
            [keyOf 'a']) := by
  have hsome : (feedKeys ncurses ((konamiKeys ++ konamiKeys.dropLast).map fun key => (key, oneSlot))
      (appInit oneSlot)).isSome = true := by decide
  obtain ⟨a, ha⟩ := Option.isSome_iff_exists.1 hsome
  exact ⟨a, ha, konami_exact ncurses oneSlot ha (keyOf 'a')⟩

end Sshnack.Tui
