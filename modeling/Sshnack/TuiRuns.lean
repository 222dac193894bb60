import Sshnack.TuiInvariant
import Sshnack.TuiAdmin

/-!
# Runs of the client

Every key leads from a sound state to a sound state, in every mode and with every answer of the
server, as long as no stock has more than 2^30 products. With more products the sum that
`move_horizontal` computes wraps and the selection becomes negative.
-/

namespace Sshnack.Tui

variable {a : App} {api : Api} {keypad : Keypad} {key : Int32}

theorem konamiWindow_total (h : 0 ≤ a.konamiPos ∧ a.konamiPos ≤ 10) (key : Int32) :
    ∃ window pos, konamiWindow key a = some (window, pos) ∧ 0 ≤ pos ∧ pos ≤ 10 := by
  have h0 : 0 ≤ a.konamiPos.toInt := Int32.le_iff_toInt_le.1 h.1
  unfold konamiWindow
  split_ifs with hlt
  · have hlt' : a.konamiPos.toInt < 10 := Int32.lt_iff_toInt_lt.1 hlt
    have hnext : (a.konamiPos + 1).toInt = a.konamiPos.toInt + 1 :=
      toInt_add_of_range (y := 1) (by simp; omega) (by simp; omega)
    rw [store_of_range a.konami key ⟨h0, hlt'⟩]
    refine ⟨_, _, rfl, ?_, ?_⟩
    · rw [Int32.le_iff_toInt_le, hnext]
      exact Int.le_add_one h0
    · rw [Int32.le_iff_toInt_le, hnext]
      exact hlt'
  · exact ⟨_, _, rfl, h⟩

theorem feedKonami_total (h : 0 ≤ a.konamiPos ∧ a.konamiPos ≤ 10) (keypad : Keypad) (key : Int32) :
    ∃ fed, feedKonami keypad key a = some fed ∧ 0 ≤ fed.konamiPos ∧ fed.konamiPos ≤ 10 := by
  obtain ⟨window, pos, hwindow, hpos⟩ := konamiWindow_total h key
  simp only [Tui.feedKonami, hwindow, Option.bind_eq_bind, Option.bind_some]
  refine ⟨_, rfl, ?_⟩
  by_cases hcode : pos = 10 ∧ window = konamiSeq keypad
  · have hstart : (0 : Int32) ≤ 0 ∧ (0 : Int32) ≤ 10 := by decide
    rw [if_pos hcode]
    exact hstart
  · rw [if_neg hcode]
    exact hpos

theorem Sound.feedKonami (h : Sound a) (keypad : Keypad) (key : Int32) :
    ∃ fed, feedKonami keypad key a = some fed ∧ Sound fed := by
  obtain ⟨fed, hfed, hpos⟩ := feedKonami_total h.konami keypad key
  refine ⟨fed, hfed, ?_⟩
  obtain ⟨window, pos, text, rfl, _⟩ := feedKonami_eq hfed
  exact ⟨⟨h.shelf, h.text, hpos⟩, h.prompt_iff, h.prompt_up, h.prompt_slot⟩

theorem Sound.browsing (h : Sound a) (hmode : a.mode = .browse) : Browsing a := by
  refine ⟨h.toKept, hmode, ?_⟩
  by_contra hpending
  rw [← ne_eq, ← h.prompt_iff, hmode] at hpending
  cases hpending

/-- A digit or a point is not NUL and stays an amount. -/
theorem amountKey_byte (h : isAmountKey key = true) :
    key.toInt8.toUInt8 ≠ 0 ∧ (isDigit key.toInt8.toUInt8 = true ∨ key.toInt8.toUInt8 = 46) := by
  have hrange : 46 ≤ key.toInt ∧ key.toInt ≤ 57 ∧ key.toInt ≠ 47 := by
    rw [isAmountKey, decide_eq_true_iff] at h
    rcases h with ⟨hlow, hhigh⟩ | rfl
    · rw [Int32.le_iff_toInt_le] at hlow hhigh
      have hlow' : 48 ≤ key.toInt := hlow
      have hhigh' : key.toInt ≤ 57 := hhigh
      omega
    · decide
  rw [← Int32.ofInt_toInt key]
  generalize key.toInt = k at hrange
  obtain ⟨hlow, hhigh, hne⟩ := hrange
  interval_cases k
  all_goals first
    | decide
    | exact absurd rfl hne

theorem Sound.type (h : Sound a) {buf : Vector UInt8 promptBufLen} (htext : AmountText buf) :
    Sound { a with promptBuf := buf } :=
  ⟨⟨h.shelf, htext, h.konami⟩, h.prompt_iff, h.prompt_up, h.prompt_slot⟩

theorem Sound.promptKey (h : Sound a) (hsmall : api.SmallStock) (keypad : Keypad) (key : Int32) :
    ∃ a', promptKey keypad api key a = some a' ∧ Sound a' := by
  obtain ⟨s, hs, hamount⟩ := h.text
  unfold Tui.promptKey
  split_ifs with _ _ _ hkey
  · obtain ⟨closed, hclosed, hbrowse⟩ := h.toKept.closePrompt
    rw [hclosed]
    exact ⟨_, rfl, (hbrowse.say _).sound⟩
  · obtain ⟨closed, hclosed, hbrowse⟩ := h.toKept.confirmPrompt hsmall
    exact ⟨closed, hclosed, hbrowse.sound⟩
  · simp only [hs, Option.bind_eq_bind, Option.bind_some]
    split_ifs with hpos
    · obtain ⟨t, c, rfl⟩ : ∃ t c, s = t ++ [c] :=
        ⟨_, _, (List.dropLast_append_getLast (List.ne_nil_of_length_pos hpos)).symm⟩
      obtain ⟨buf, hbuf, htext⟩ := cstr_truncate hs
      have hlen : ((t ++ [c]).length : Int) - 1 = t.length := by simp
      rw [hlen, hbuf]
      exact ⟨_, rfl, h.type ⟨t, htext, fun d hd => hamount d (List.mem_append_left _ hd)⟩⟩
    · exact ⟨a, rfl, h⟩
  · simp only [hs, Option.bind_eq_bind, Option.bind_some]
    split_ifs with hroom
    · obtain ⟨hnul, hchar⟩ := amountKey_byte hkey
      obtain ⟨mid, buf, hmid, hbuf, htext⟩ := cstr_append hs (c := key.toInt8.toUInt8) (by omega) hnul
      rw [hmid, Option.bind_some, hbuf]
      refine ⟨_, rfl, h.type ⟨_, htext, fun d hd => ?_⟩⟩
      rcases List.mem_append.1 hd with hold | hnew
      · exact hamount d hold
      · rw [List.mem_singleton.1 hnew]
        exact hchar
    · exact ⟨a, rfl, h⟩
  · exact ⟨a, rfl, h⟩

theorem Browsing.browseKey (h : Browsing a) (hup : a.serverDown = false) (hsmall : api.SmallStock)
    (keypad : Keypad) (key : Int32) : ∃ a', browseKey keypad api key a = some a' ∧ Sound a' := by
  have hback : IsStep (-1) := .inr rfl
  have hforth : IsStep 1 := .inl rfl
  have hmoved : ∀ {dir}, IsStep dir → ∃ a', Tui.moveVertical dir a = some a' ∧ Sound a' := by
    intro dir hdir
    obtain ⟨a', ha', hb⟩ := h.moveVertical hdir
    exact ⟨a', ha', hb.sound⟩
  unfold Tui.browseKey
  cases keyCase keypad key with
  | left => exact ⟨_, rfl, (h.moveHorizontal hback).sound⟩
  | right => exact ⟨_, rfl, (h.moveHorizontal hforth).sound⟩
  | up => exact hmoved hback
  | down => exact hmoved hforth
  | buy =>
    obtain ⟨a', ha', hb⟩ := h.doBuy hsmall
    exact ⟨a', ha', hb.sound⟩
  | deposit => exact h.openPrompt hup (by decide) _
  | cashout => exact ⟨_, rfl, (h.doCashout hsmall).sound⟩
  | refresh => exact ⟨_, rfl, ((h.appRefresh hsmall).say _).sound⟩
  | quit => exact ⟨_, rfl, Browsing.sound ⟨⟨h.shelf, h.text, h.konami⟩, h.mode, h.pending⟩⟩
  | restock | price =>
    dsimp only
    split_ifs
    · exact h.openPrompt hup (by decide) _
    · exact ⟨a, rfl, h.sound⟩
  | escape =>
    refine ⟨_, rfl, ?_⟩
    split_ifs
    · exact Browsing.sound ⟨⟨h.shelf, h.text, h.konami⟩, h.mode, h.pending⟩
    · exact h.sound
  | other => exact ⟨a, rfl, h.sound⟩

theorem Browsing.downKey (h : Browsing a) (hsmall : api.SmallStock) (key : Int32) :
    Browsing (downKey api key a) := by
  unfold Tui.downKey
  split_ifs
  · exact h.appRefresh hsmall
  · exact ⟨⟨h.shelf, h.text, h.konami⟩, h.mode, h.pending⟩
  · exact h

/-- Every key in every mode. -/
theorem Sound.appHandleKey (h : Sound a) (hsmall : api.SmallStock) (keypad : Keypad) (key : Int32) :
    ∃ a', appHandleKey keypad api key a = some a' ∧ Sound a' := by
  obtain ⟨fed, hfed, hsound⟩ := h.feedKonami keypad key
  simp only [Tui.appHandleKey, hfed, Option.bind_eq_bind, Option.bind_some]
  split_ifs with hdown hmode
  · have hbrowse : fed.mode = .browse := by
      cases hm : fed.mode with
      | browse => rfl
      | prompt => simp [hsound.prompt_up hm] at hdown
    exact ⟨_, rfl, ((hsound.browsing hbrowse).downKey hsmall key).sound⟩
  · exact hsound.promptKey hsmall keypad key
  · have hbrowse : fed.mode = .browse := by
      cases hm : fed.mode with
      | browse => rfl
      | prompt => exact absurd hm hmode
    exact (hsound.browsing hbrowse).browseKey (by simpa using hdown) hsmall keypad key

theorem browsing_appInit (hsmall : api.SmallStock) : Browsing (appInit api) := by
  have hempty : cstr App.cleared.promptBuf = some [] := by decide
  have hcleared : Browsing .cleared :=
    ⟨⟨⟨rfl, by decide, by decide, by decide⟩, amountText_empty hempty, by decide⟩, rfl, rfl⟩
  have hrefreshed := hcleared.appRefresh hsmall
  exact ⟨⟨hrefreshed.shelf, hrefreshed.text, hrefreshed.konami⟩, hrefreshed.mode,
    hrefreshed.pending⟩

theorem sound_run (keypad : Keypad) {keys : List (Int32 × Api)} (hinit : api.SmallStock)
    (hsmall : ∀ k ∈ keys, k.2.SmallStock) :
    ∃ a, feedKeys keypad keys (appInit api) = some a ∧ Sound a := by
  induction keys using List.reverseRecOn with
  | nil => exact ⟨_, rfl, (browsing_appInit hinit).sound⟩
  | append_singleton keys k ih =>
    obtain ⟨mid, hmid, hsound⟩ := ih fun k hk => hsmall k (List.mem_append_left _ hk)
    obtain ⟨a, ha, hs⟩ := hsound.appHandleKey (hsmall k (by simp)) keypad k.1
    exact ⟨a, by rw [feedKeys_concat, hmid, Option.bind_some, ha], hs⟩

end Sshnack.Tui
