import Sshnack.TuiApp
import Mathlib.Logic.Relation

/-!
# Elementary changes of the client

After `feed_konami` a key changes the state by a sequence of elementary changes. None of them touches
the window of keys, only the confirmation of a prompt of the administrator issues a privileged call,
and such a prompt is opened only while the admin flag is set.
-/

namespace Sshnack.Tui

open Relation

variable {a a' : App} {keypad : Keypad} {api : Api} {key : Int32}

def ApiCall.Privileged : ApiCall → Prop
  | .restock _ _ => True
  | .setPrice _ _ => True
  | _ => False

def PromptAction.Privileged (action : PromptAction) : Prop := action = .restock ∨ action = .price

inductive Edit : App → App → Prop
  | say (a : App) (text : CString) : Edit a (a.say text)
  | issue (a : App) (call : ApiCall) (hcall : call.Privileged → a.pending.Privileged) :
      Edit a (a.issue call)
  | connect (a : App) (down : Bool) : Edit a { a with serverDown := down }
  | stock (a : App) (products : List Product) (count selected : Int32) :
      Edit a { a with products := some products, count := count, selected := selected }
  | balance (a : App) (bal : Int32) : Edit a { a with balanceGr := bal }
  | select (a : App) (i : Int32) : Edit a { a with selected := i }
  | quit (a : App) : Edit a { a with running := false }
  | openPrompt (a : App) (action : PromptAction) (label : CString)
      (buf : Vector UInt8 promptBufLen) (haction : action.Privileged → a.admin = true) :
      Edit a { a with mode := .prompt, pending := action, promptLabel := label, promptBuf := buf }
  | closePrompt (a : App) (buf : Vector UInt8 promptBufLen) :
      Edit a { a with mode := .browse, pending := .none, promptBuf := buf }
  | type (a : App) (buf : Vector UInt8 promptBufLen) : Edit a { a with promptBuf := buf }
  | lock (a : App) (hmode : a.mode = .browse) : Edit a { a with admin := false }

abbrev Edits : App → App → Prop := ReflTransGen Edit

theorem Edits.preserve {P : App → Prop} (hedit : ∀ a a', Edit a a' → P a → P a')
    (h : Edits a a') (ha : P a) : P a' := by
  induction h with
  | refl => exact ha
  | tail _ hlast ih => exact hedit _ _ hlast ih

/-- The window of keys is left to `feed_konami`. -/
theorem Edits.konamiPos_eq (h : Edits a a') : a'.konamiPos = a.konamiPos :=
  h.preserve (P := fun b => b.konamiPos = a.konamiPos) (fun _ _ hedit hb => by cases hedit <;> exact hb)
    rfl

theorem Edits.say (h : Edits a a') (text : CString) : Edits a (a'.say text) := h.tail (.say a' text)

theorem Edits.issue (h : Edits a a') (call : ApiCall)
    (hcall : call.Privileged → a'.pending.Privileged) : Edits a (a'.issue call) :=
  h.tail (.issue a' call hcall)

theorem Edits.connect (h : Edits a a') (down : Bool) : Edits a { a' with serverDown := down } :=
  h.tail (.connect a' down)

theorem Edits.setStatus (h : Edits a a') (st : ApiError) (what : String) :
    Edits a (setStatus st what a') := by
  cases st with
  | network => exact (h.connect true).say _
  | http => exact h.say _
  | parse => exact h.say _

theorem Edits.report (h : Edits a a') (outcome : Except ApiError Unit) (done failed : CString) :
    Edits a (report outcome done failed a') := by
  unfold Tui.report
  split
  · exact h.say _
  · exact (h.connect true).say _
  · exact h.say _

theorem Edits.appRefresh (h : Edits a a') (api : Api) : Edits a (appRefresh api a') := by
  have hstock : Edits a (refreshStock api { a' with serverDown := false }) := by
    have hcall := (h.connect false).issue .getStock False.elim
    unfold refreshStock
    cases api.getStock with
    | ok prods => exact hcall.tail (.stock _ _ _ _)
    | error st => exact hcall.setStatus st _
  have hcall := hstock.issue .getBalance False.elim
  unfold Tui.appRefresh refreshBalance
  cases api.getBalance with
  | ok bal => exact hcall.tail (.balance _ _)
  | error st => exact hcall.setStatus st _

theorem edits_appInit (api : Api) : Edits .cleared (appInit api) :=
  Edits.say (Edits.appRefresh .refl api) []

theorem edits_moveHorizontal (dir : Int32) (a : App) : Edits a (moveHorizontal dir a) := by
  unfold moveHorizontal
  split_ifs
  · exact .refl
  · exact .single (.select a _)

theorem edits_moveVertical {dir : Int32} (h : moveVertical dir a = some a') : Edits a a' := by
  unfold moveVertical at h
  split_ifs at h
  · cases h
    exact .refl
  · simp only [Option.bind_eq_bind, Option.bind_eq_some_iff, Option.some.injEq] at h
    obtain ⟨p, _, rows, _, idx, _, rfl⟩ := h
    split_ifs
    · exact .single (.select a idx)
    · exact .refl

theorem edits_openPrompt {action : PromptAction} {label : String}
    (h : openPrompt action label a = some a') (haction : action.Privileged → a.admin = true) :
    Edits a a' := by
  unfold openPrompt at h
  split_ifs at h
  · cases h
    exact .single (.say a _)
  · simp only [Option.bind_eq_bind, Option.bind_eq_some_iff, Option.some.injEq] at h
    obtain ⟨buf, _, rfl⟩ := h
    exact .single (.openPrompt a action _ buf haction)

theorem edit_closePrompt (h : closePrompt a = some a') : Edit a a' := by
  simp only [closePrompt, Option.bind_eq_bind, Option.bind_eq_some_iff, Option.some.injEq] at h
  obtain ⟨buf, _, rfl⟩ := h
  exact .closePrompt a buf

theorem edits_doBuy (h : doBuy api a = some a') : Edits a a' := by
  unfold doBuy at h
  by_cases hzero : a.count = 0
  · rw [if_pos hzero] at h
    cases h
    exact .refl
  · rw [if_neg hzero] at h
    simp only [Option.bind_eq_bind, Option.bind_eq_some_iff] at h
    obtain ⟨p, _, h⟩ := h
    have hissued : Edits a (a.issue (.purchase p.slotId)) :=
      Edits.issue .refl (.purchase p.slotId) False.elim
    split_ifs at h
    · cases h
      exact .single (.say a _)
    · cases h
      exact .single (.say a _)
    · cases h
      exact hissued.report _ _ _
    · cases h
      exact (hissued.report _ _ _).appRefresh api

theorem edits_doCashout (api : Api) (a : App) : Edits a (doCashout api a) := by
  have hissued : Edits a (a.issue .refund) := Edits.issue .refl .refund False.elim
  unfold doCashout
  split
  · exact (hissued.say _).appRefresh api
  · exact (hissued.connect true).say _
  · exact hissued.say _

/-- Only the branches for a prompt of the administrator issue a privileged call. -/
theorem edits_confirmAction {p : Option Product} (h : confirmAction api p a = some a') :
    Edits a a' := by
  unfold confirmAction at h
  split at h
  · simp only [Option.bind_eq_bind, Option.bind_eq_some_iff, Option.some.injEq] at h
    obtain ⟨s, _, rfl⟩ := h
    split_ifs
    · exact .single (.say a _)
    · exact (Edits.issue .refl (.deposit _) False.elim).report _ _ _
  · rename_i p hpending
    simp only [Option.bind_eq_bind, Option.bind_eq_some_iff, Option.some.injEq] at h
    obtain ⟨s, _, rfl⟩ := h
    split_ifs
    · exact .single (.say a _)
    · exact (Edits.issue .refl _ fun _ => .inl hpending).report _ _ _
  · rename_i p hpending
    simp only [Option.bind_eq_bind, Option.bind_eq_some_iff, Option.some.injEq] at h
    obtain ⟨s, _, rfl⟩ := h
    split_ifs
    · exact .single (.say a _)
    · exact (Edits.issue .refl _ fun _ => .inr hpending).report _ _ _
  · cases h
    exact .refl

theorem edits_confirmPrompt (h : confirmPrompt api a = some a') : Edits a a' := by
  simp only [confirmPrompt, Option.bind_eq_bind, Option.bind_eq_some_iff, Option.some.injEq] at h
  obtain ⟨p, _, done, hdone, closed, hclosed, rfl⟩ := h
  have hedits : Edits a closed := (edits_confirmAction hdone).tail (edit_closePrompt hclosed)
  split_ifs
  · exact hedits
  · exact hedits.appRefresh api

theorem edits_downKey (api : Api) (key : Int32) (a : App) : Edits a (downKey api key a) := by
  unfold downKey
  split_ifs
  · exact Edits.appRefresh .refl api
  · exact .single (.quit a)
  · exact .refl

theorem edits_promptKey (h : promptKey keypad api key a = some a') : Edits a a' := by
  unfold promptKey at h
  split_ifs at h
  · simp only [Option.map_eq_some_iff] at h
    obtain ⟨closed, hclosed, rfl⟩ := h
    exact Edits.say (.single (edit_closePrompt hclosed)) _
  · exact edits_confirmPrompt h
  · simp only [Option.bind_eq_bind, Option.bind_eq_some_iff] at h
    obtain ⟨s, _, h⟩ := h
    split_ifs at h
    · simp only [Option.map_eq_some_iff] at h
      obtain ⟨buf, _, rfl⟩ := h
      exact .single (.type a buf)
    · cases h
      exact .refl
  · simp only [Option.bind_eq_bind, Option.bind_eq_some_iff] at h
    obtain ⟨s, _, h⟩ := h
    split_ifs at h
    · simp only [Option.bind_eq_some_iff, Option.map_eq_some_iff] at h
      obtain ⟨_, _, buf, _, rfl⟩ := h
      exact .single (.type a buf)
    · cases h
      exact .refl
  · cases h
    exact .refl

theorem edits_browseKey (hmode : a.mode = .browse) (h : browseKey keypad api key a = some a') :
    Edits a a' := by
  unfold browseKey at h
  cases hcase : keyCase keypad key <;> rw [hcase] at h
  case left | right =>
    cases h
    exact edits_moveHorizontal _ a
  case up | down => exact edits_moveVertical h
  case buy => exact edits_doBuy h
  case deposit => exact edits_openPrompt h (by simp [PromptAction.Privileged])
  case cashout =>
    cases h
    exact edits_doCashout api a
  case refresh =>
    cases h
    exact Edits.say (Edits.appRefresh .refl api) _
  case quit =>
    cases h
    exact .single (.quit a)
  case restock | price =>
    dsimp only at h
    split_ifs at h with hadmin
    · exact edits_openPrompt h fun _ => hadmin
    · cases h
      exact .refl
  case escape =>
    cases h
    split_ifs
    · exact Edits.say (.single (.lock a hmode)) _
    · exact .refl
  case other =>
    cases h
    exact .refl

/-- A key is first fed to the window and then makes elementary changes. -/
theorem edits_appHandleKey (h : appHandleKey keypad api key a = some a') :
    ∃ fed, feedKonami keypad key a = some fed ∧ Edits fed a' := by
  simp only [appHandleKey, Option.bind_eq_bind, Option.bind_eq_some_iff] at h
  obtain ⟨fed, hfed, h⟩ := h
  refine ⟨fed, hfed, ?_⟩
  split_ifs at h with _ hmode
  · cases h
    exact edits_downKey api key fed
  · exact edits_promptKey h
  · have hbrowse : fed.mode = .browse := by
      cases hm : fed.mode with
      | browse => rfl
      | prompt => exact absurd hm hmode
    exact edits_browseKey hbrowse h

end Sshnack.Tui
