import Sshnack.TuiEdits

/-!
# The gate of the administrator

The admin flag is checked when a prompt for a restock or a price is opened, and flipped whenever the
keys of the code are complete, in an open prompt too. The privileged calls are issued with the flag
set as long as no code is completed while such a prompt is open.
-/

namespace Sshnack.Tui

variable {a a' : App} {keypad : Keypad} {api : Api} {key : Int32}

/-- With this key the window is full and holds the code. -/
def CompletesKonami (keypad : Keypad) (key : Int32) (a : App) : Prop :=
  konamiWindow key a = some (konamiSeq keypad, 10)

instance : Decidable (CompletesKonami keypad key a) := inferInstanceAs (Decidable (_ = _))

instance (action : PromptAction) : Decidable action.Privileged :=
  inferInstanceAs (Decidable (_ ∨ _))

instance : DecidablePred ApiCall.Privileged
  | .restock _ _ => isTrue trivial
  | .setPrice _ _ => isTrue trivial
  | .getStock => isFalse not_false
  | .getBalance => isFalse not_false
  | .deposit _ => isFalse not_false
  | .purchase _ => isFalse not_false
  | .refund => isFalse not_false

/-- The first part of a key: it can only change the window, the message and the flag. -/
theorem feedKonami_eq {fed : App} (h : feedKonami keypad key a = some fed) :
    ∃ window pos text,
      fed = { a with
        konami := window, konamiPos := pos, message := text
        admin := if CompletesKonami keypad key a then !a.admin else a.admin } ∧
      (CompletesKonami keypad key a → pos = 0) := by
  simp only [feedKonami, Option.bind_eq_bind, Option.bind_eq_some_iff, Option.some.injEq] at h
  obtain ⟨⟨window, pos⟩, hwindow, rfl⟩ := h
  have hcomplete : CompletesKonami keypad key a ↔ pos = 10 ∧ window = konamiSeq keypad := by
    rw [CompletesKonami, hwindow, Option.some.injEq, Prod.mk.injEq, and_comm]
  dsimp only
  by_cases hcode : pos = 10 ∧ window = konamiSeq keypad
  · rw [if_pos hcode, if_pos (hcomplete.2 hcode)]
    exact ⟨window, 0, _, rfl, fun _ => rfl⟩
  · have hnot : ¬ CompletesKonami keypad key a := fun hc => hcode (hcomplete.1 hc)
    rw [if_neg hcode, if_neg hnot]
    exact ⟨window, pos, _, rfl, fun hc => absurd hc hnot⟩

/-- Every privileged call was issued with the flag set. -/
def IssuedByAdmin (a : App) : Prop := ∀ i ∈ a.client, i.call.Privileged → i.admin = true

instance : Decidable (IssuedByAdmin a) :=
  inferInstanceAs (Decidable (∀ i ∈ a.client, i.call.Privileged → i.admin = true))

structure Gate (a : App) : Prop where
  issued : IssuedByAdmin a
  prompt : a.pending.Privileged → a.admin = true
  browse : a.mode = .browse → a.pending = .none

theorem not_privileged_none : ¬ PromptAction.none.Privileged := by decide

theorem Gate.edit (hedit : Edit a a') (h : Gate a) : Gate a' := by
  cases hedit with
  | issue call hcall =>
    refine ⟨fun i hi hpriv => ?_, h.prompt, h.browse⟩
    rcases List.mem_append.1 hi with hold | hnew
    · exact h.issued i hold hpriv
    · rw [List.mem_singleton] at hnew
      subst hnew
      exact h.prompt (hcall hpriv)
  | openPrompt action label buf haction => exact ⟨h.issued, haction, fun hmode => by cases hmode⟩
  | closePrompt buf => exact ⟨h.issued, fun hp => absurd hp not_privileged_none, fun _ => rfl⟩
  | lock hmode =>
    refine ⟨h.issued, fun hp => ?_, h.browse⟩
    have hnone : a.pending.Privileged := hp
    rw [h.browse hmode] at hnone
    exact absurd hnone not_privileged_none
  | say | connect | stock | balance | select | quit | type => exact ⟨h.issued, h.prompt, h.browse⟩

theorem Gate.feedKonami {fed : App} (h : Gate a) (hfed : feedKonami keypad key a = some fed)
    (hcode : a.pending.Privileged → ¬ CompletesKonami keypad key a) : Gate fed := by
  obtain ⟨window, pos, text, rfl, _⟩ := feedKonami_eq hfed
  refine ⟨h.issued, fun hp => ?_, h.browse⟩
  have hadmin := h.prompt hp
  simpa only [if_neg (hcode hp)] using hadmin

theorem Gate.appHandleKey (h : Gate a) (hstep : appHandleKey keypad api key a = some a')
    (hcode : a.pending.Privileged → ¬ CompletesKonami keypad key a) : Gate a' := by
  obtain ⟨fed, hfed, hedits⟩ := edits_appHandleKey hstep
  exact hedits.preserve (fun _ _ hedit hg => hg.edit hedit) (h.feedKonami hfed hcode)

theorem gate_appInit (api : Api) : Gate (appInit api) := by
  have hcleared : Gate .cleared := ⟨by simp [IssuedByAdmin, App.cleared], by decide, fun _ => rfl⟩
  exact (edits_appInit api).preserve (fun _ _ hedit hg => hg.edit hedit) hcleared

/-- No key of the run completes the code while a prompt of the administrator is open. -/
def CodeFreePrompts (keypad : Keypad) (api : Api) (keys : List (Int32 × Api)) : Prop :=
  ∀ (n : ℕ) (hn : n < keys.length), ∀ a ∈ feedKeys keypad (keys.take n) (appInit api),
    a.pending.Privileged → ¬ CompletesKonami keypad keys[n].1 a

instance (keys : List (Int32 × Api)) : Decidable (CodeFreePrompts keypad api keys) :=
  inferInstanceAs (Decidable (∀ (n : ℕ) (hn : n < keys.length),
    ∀ a ∈ feedKeys keypad (keys.take n) (appInit api),
      a.pending.Privileged → ¬ CompletesKonami keypad keys[n].1 a))

theorem feedKeys_concat (keypad : Keypad) (keys : List (Int32 × Api)) (k : Int32 × Api) (a : App) :
    feedKeys keypad (keys ++ [k]) a =
      (feedKeys keypad keys a).bind (appHandleKey keypad k.2 k.1) := by
  simp [feedKeys, List.foldlM_append]

theorem codeFreePrompts_take {keys : List (Int32 × Api)} (h : CodeFreePrompts keypad api keys)
    (m : ℕ) : CodeFreePrompts keypad api (keys.take m) := by
  intro n hn a ha
  rw [List.length_take] at hn
  have hcode := h n (by omega) a
  rw [List.take_take, min_eq_left (by omega)] at ha
  rw [List.getElem_take]
  exact hcode ha

theorem gate_run {keys : List (Int32 × Api)} (hfree : CodeFreePrompts keypad api keys)
    (h : feedKeys keypad keys (appInit api) = some a) : Gate a := by
  induction keys using List.reverseRecOn generalizing a with
  | nil =>
    cases h
    exact gate_appInit api
  | append_singleton keys k ih =>
    rw [feedKeys_concat, Option.bind_eq_some_iff] at h
    obtain ⟨mid, hmid, hstep⟩ := h
    have hfree' := codeFreePrompts_take hfree keys.length
    rw [List.take_left] at hfree'
    refine (ih hfree' hmid).appHandleKey hstep ?_
    have hcode := hfree keys.length (by simp) mid
    simp only [List.take_left, List.getElem_concat_length] at hcode
    exact hcode hmid

/-- In a run in which no code is completed in a prompt of the administrator, every state reached has
its restocks and price changes issued with the admin flag set. -/
theorem privileged_only_by_admin {keys : List (Int32 × Api)} (keypad : Keypad) (api : Api)
    (hfree : CodeFreePrompts keypad api keys) (n : ℕ) {a : App}
    (h : feedKeys keypad (keys.take n) (appInit api) = some a) : IssuedByAdmin a :=
  (gate_run (codeFreePrompts_take hfree n) h).issued

/-- A server with one product, on which every call succeeds. -/
def oneSlot : Api where
  getStock := .ok ⟨[⟨11, 1, 350, 4, ascii "Cola"⟩], by decide⟩
  getBalance := .ok 0
  deposit := .ok ()
  purchase := .ok ()
  refund := .ok 0
  restock := .ok ()
  setPrice := .ok ()

def konamiKeys : List Int32 := (konamiSeq ncurses).toList

/-- The code unlocks, and five pieces are restocked. -/
def restockRun : List (Int32 × Api) :=
  (konamiKeys ++ [keyOf 's', keyOf '5', 10]).map fun key => (key, oneSlot)

theorem privileged_only_by_admin_restockRun :
    CodeFreePrompts ncurses oneSlot restockRun ∧
      ∃ a, feedKeys ncurses restockRun (appInit oneSlot) = some a ∧
        ⟨true, .restock 11 5⟩ ∈ a.client ∧ IssuedByAdmin a := by
  have hfree : CodeFreePrompts ncurses oneSlot restockRun := by decide +kernel
  have hrun : ∃ a, feedKeys ncurses (restockRun.take 13) (appInit oneSlot) = some a ∧
      ⟨true, .restock 11 5⟩ ∈ a.client := by
    have hcall : ((feedKeys ncurses (restockRun.take 13) (appInit oneSlot)).any fun a =>
        ⟨true, .restock 11 5⟩ ∈ a.client) = true := by decide +kernel
    simpa [Option.any_eq_true] using hcall
  obtain ⟨a, ha, hmem⟩ := hrun
  exact ⟨hfree, a, ha, hmem, privileged_only_by_admin ncurses oneSlot hfree 13 ha⟩

/-- The code is entered a second time before the quantity is confirmed. -/
def lockedRestockRun : List (Int32 × Api) :=
  (konamiKeys ++ [keyOf 's', keyOf '5'] ++ konamiKeys ++ [10]).map fun key => (key, oneSlot)

theorem privileged_not_only_by_admin :
    ¬ ∀ (keypad : Keypad) (api : Api) (keys : List (Int32 × Api)) (a : App),
      feedKeys keypad keys (appInit api) = some a → IssuedByAdmin a := by
  intro h
  have hcall : ((feedKeys ncurses lockedRestockRun (appInit oneSlot)).any fun a =>
      !decide (IssuedByAdmin a)) = true := by decide +kernel
  obtain ⟨a, ha, hnot⟩ := (Option.any_eq_true _ _).1 hcall
  have hissued := h ncurses oneSlot lockedRestockRun a ha
  simp [hissued] at hnot

end Sshnack.Tui
