import Sshnack.TuiSelection

/-!
# Every state of the client

The prompt, the retry screen and the selection share one state. The stock is never replaced while a
prompt is open, so the product that a prompt is about stays where it was. No key makes an access out
of bounds, and every key leaves a state that satisfies the invariant.
-/

namespace Sshnack.Tui

variable {a : App} {api : Api} {keypad : Keypad} {key : Int32}

/-! ### Calls of the API -/

theorem Kept.issue (h : Kept a) (call : ApiCall) : Kept (a.issue call) :=
  ⟨h.shelf, h.text, h.konami⟩

theorem Kept.say (h : Kept a) (text : CString) : Kept (a.say text) := ⟨h.shelf, h.text, h.konami⟩

theorem Kept.setStatus (h : Kept a) (st : ApiError) (what : String) : Kept (setStatus st what a) := by
  cases st <;> exact ⟨h.shelf, h.text, h.konami⟩

theorem Kept.report (h : Kept a) (outcome : Except ApiError Unit) (done failed : CString) :
    Kept (report outcome done failed a) := by
  unfold Tui.report
  split <;> exact ⟨h.shelf, h.text, h.konami⟩

/-- The selection after the stock is replaced. -/
theorem clamped_range {selected : Int32} {len : ℕ} (h0 : 0 ≤ selected.toInt) (hlen : len < 2 ^ 31) :
    let count := Int32.ofNat len
    let clamped := if count ≤ selected then (if 0 < count then count - 1 else 0) else selected
    0 ≤ clamped.toInt ∧ clamped.toInt < (max 1 len : ℕ) := by
  have hcount : (Int32.ofNat len).toInt = len := Int32.toInt_ofNat_of_lt (by omega)
  have hzero : (0 : Int32).toInt = 0 := rfl
  dsimp only
  split_ifs with hle hpos
  · rw [Int32.lt_iff_toInt_lt, hcount] at hpos
    have hone : (1 : Int32).toInt = 1 := rfl
    have hlast : (Int32.ofNat len - 1).toInt = len - 1 := by
      rw [Int32.toInt_sub, hcount, hone, Int.bmod_eq_of_le] <;> omega
    omega
  · omega
  · rw [Int32.le_iff_toInt_le, hcount] at hle
    omega

theorem Kept.refreshStock (h : Kept a) (hsmall : api.SmallStock) : Kept (refreshStock api a) := by
  unfold Tui.refreshStock
  cases hstock : api.getStock with
  | error st => exact (h.issue .getStock).setStatus st "stock"
  | ok prods =>
    have hlen := hsmall prods hstock
    have hsel := clamped_range h.shelf.selected_nonneg prods.2
    exact ⟨⟨Int32.toInt_ofNat_of_lt (by omega), hlen, hsel.1, hsel.2⟩, h.text, h.konami⟩

theorem Kept.refreshBalance (h : Kept a) : Kept (refreshBalance api a) := by
  unfold Tui.refreshBalance
  cases hbal : api.getBalance with
  | error st => exact (h.issue .getBalance).setStatus st "balance"
  | ok bal => exact ⟨h.shelf, h.text, h.konami⟩

theorem Kept.appRefresh (h : Kept a) (hsmall : api.SmallStock) : Kept (appRefresh api a) := by
  have hup : Kept { a with serverDown := false } := ⟨h.shelf, h.text, h.konami⟩
  exact (hup.refreshStock hsmall).refreshBalance

@[simp] theorem setStatus_mode (st : ApiError) (what : String) (a : App) :
    (setStatus st what a).mode = a.mode := by
  cases st <;> rfl

@[simp] theorem setStatus_pending (st : ApiError) (what : String) (a : App) :
    (setStatus st what a).pending = a.pending := by
  cases st <;> rfl

@[simp] theorem appRefresh_mode (api : Api) (a : App) : (appRefresh api a).mode = a.mode := by
  unfold appRefresh refreshBalance refreshStock
  cases api.getStock <;> cases api.getBalance <;> simp [App.issue]

@[simp] theorem appRefresh_pending (api : Api) (a : App) :
    (appRefresh api a).pending = a.pending := by
  unfold appRefresh refreshBalance refreshStock
  cases api.getStock <;> cases api.getBalance <;> simp [App.issue]

theorem Browsing.appRefresh (h : Browsing a) (hsmall : api.SmallStock) :
    Browsing (appRefresh api a) :=
  ⟨h.toKept.appRefresh hsmall, by simp [h.mode], by simp [h.pending]⟩

theorem Browsing.say (h : Browsing a) (text : CString) : Browsing (a.say text) :=
  ⟨h.toKept.say text, h.mode, h.pending⟩

theorem Browsing.report (h : Browsing a) (outcome : Except ApiError Unit) (done failed : CString) :
    Browsing (report outcome done failed a) := by
  refine ⟨h.toKept.report outcome done failed, ?_, ?_⟩
  · unfold Tui.report
    split <;> exact h.mode
  · unfold Tui.report
    split <;> exact h.pending

theorem Browsing.doBuy (h : Browsing a) (hsmall : api.SmallStock) :
    ∃ a', doBuy api a = some a' ∧ Browsing a' := by
  unfold Tui.doBuy
  by_cases hzero : a.count = 0
  · exact ⟨a, if_pos hzero, h⟩
  · rw [if_neg hzero]
    obtain ⟨p, hp⟩ := h.shelf.standsOn hzero
    simp only [hp.selected_eq, Option.bind_eq_bind, Option.bind_some]
    have hissued : Browsing (a.issue (.purchase p.slotId)) :=
      ⟨h.toKept.issue _, h.mode, h.pending⟩
    split_ifs
    · exact ⟨_, rfl, h.say _⟩
    · exact ⟨_, rfl, h.say _⟩
    · exact ⟨_, rfl, hissued.report _ _ _⟩
    · exact ⟨_, rfl, (hissued.report _ _ _).appRefresh hsmall⟩

theorem Browsing.doCashout (h : Browsing a) (hsmall : api.SmallStock) :
    Browsing (doCashout api a) := by
  have hissued : Browsing (a.issue .refund) := ⟨h.toKept.issue _, h.mode, h.pending⟩
  unfold Tui.doCashout
  split
  · exact (hissued.say _).appRefresh hsmall
  · exact ⟨⟨h.shelf, h.text, h.konami⟩, h.mode, h.pending⟩
  · exact hissued.say _

/-! ### Prompts -/

structure Sound (a : App) : Prop extends Kept a where
  prompt_iff : a.mode = .prompt ↔ a.pending ≠ .none
  prompt_up : a.mode = .prompt → a.serverDown = false
  prompt_slot : a.pending = .restock ∨ a.pending = .price → 0 < a.count

theorem Browsing.sound (h : Browsing a) : Sound a where
  toKept := h.toKept
  prompt_iff := by simp [h.mode, h.pending]
  prompt_up := by simp [h.mode]
  prompt_slot := by simp [h.pending]

theorem Browsing.openPrompt (h : Browsing a) (hup : a.serverDown = false) {action : PromptAction}
    (haction : action ≠ .none) (label : String) :
    ∃ a', openPrompt action label a = some a' ∧ Sound a' := by
  unfold Tui.openPrompt
  split_ifs with hempty
  · exact ⟨_, rfl, (h.say _).sound⟩
  · obtain ⟨buf, hstore, htext⟩ := cstr_clear a.promptBuf (by decide)
    simp only [hstore, Option.bind_eq_bind, Option.bind_some]
    refine ⟨_, rfl, ⟨h.shelf, amountText_empty htext, h.konami⟩, ?_, ?_, ?_⟩
    · exact ⟨fun _ => haction, fun _ => rfl⟩
    · exact fun _ => hup
    · intro hslot
      have hne : a.count ≠ 0 := fun hz => hempty ⟨hz, by rcases hslot with rfl | rfl <;> decide⟩
      have hcount := h.shelf.count_eq
      have hpos : a.count.toInt ≠ 0 := fun hz => hne (Int32.toInt_inj.1 hz)
      change 0 < a.count
      rw [Int32.lt_iff_toInt_lt]
      change 0 < a.count.toInt
      omega

theorem Kept.closePrompt (h : Kept a) : ∃ a', closePrompt a = some a' ∧ Browsing a' := by
  obtain ⟨buf, hstore, htext⟩ := cstr_clear a.promptBuf (by decide)
  simp only [Tui.closePrompt, hstore, Option.bind_eq_bind, Option.bind_some]
  exact ⟨_, rfl, ⟨h.shelf, amountText_empty htext, h.konami⟩, rfl, rfl⟩

theorem Kept.confirmAction (h : Kept a) (api : Api) (p : Option Product) :
    ∃ a', confirmAction api p a = some a' ∧ Kept a' := by
  obtain ⟨s, hs, _⟩ := h.text
  unfold Tui.confirmAction
  split
  case h_4 => exact ⟨a, rfl, h⟩
  all_goals
    simp only [hs, Option.bind_eq_bind, Option.bind_some]
    refine ⟨_, rfl, ?_⟩
    split_ifs
    · exact h.say _
    · exact (h.issue _).report _ _ _

theorem Kept.pointed (h : Kept a) : ∃ p, a.pointed = some p := by
  unfold App.pointed
  split_ifs with hpos
  · have hne : a.count ≠ 0 := fun hz => by simp [hz] at hpos
    obtain ⟨p, hp⟩ := h.shelf.standsOn hne
    exact ⟨some p, by rw [hp.selected_eq, Option.map_some]⟩
  · exact ⟨none, rfl⟩

theorem Kept.confirmPrompt (h : Kept a) (hsmall : api.SmallStock) :
    ∃ a', confirmPrompt api a = some a' ∧ Browsing a' := by
  obtain ⟨p, hp⟩ := h.pointed
  obtain ⟨done, hdone, hkept⟩ := h.confirmAction api p
  obtain ⟨closed, hclosed, hbrowse⟩ := hkept.closePrompt
  simp only [Tui.confirmPrompt, hp, hdone, hclosed, Option.bind_eq_bind, Option.bind_some]
  refine ⟨_, rfl, ?_⟩
  split_ifs
  · exact hbrowse
  · exact hbrowse.appRefresh hsmall

end Sshnack.Tui
