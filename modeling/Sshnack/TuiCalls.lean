import Sshnack.TuiApp
import Sshnack.ApiAnswers

/-!
# The calls of one key

A key makes at most one call that changes something. If that call is answered, a refresh follows,
except when a cash-out is refused; if it is not, the screen asks whether to retry. Everything else
that a key does leaves the connection and what was received over it alone.
-/

namespace Sshnack.Tui

variable {a a' b b' c : App} {keypad : Keypad} {api : Api} {key : Int32}

/-- Nothing that depends on the server has changed. -/
structure Frame (a a' : App) : Prop where
  client : a'.client = a.client
  products : a'.products = a.products
  count : a'.count = a.count
  balanceGr : a'.balanceGr = a.balanceGr
  serverDown : a'.serverDown = a.serverDown

theorem Frame.refl (a : App) : Frame a a := ⟨rfl, rfl, rfl, rfl, rfl⟩

theorem Frame.trans (h : Frame a b) (h' : Frame b c) : Frame a c where
  client := h'.client.trans h.client
  products := h'.products.trans h.products
  count := h'.count.trans h.count
  balanceGr := h'.balanceGr.trans h.balanceGr
  serverDown := h'.serverDown.trans h.serverDown

theorem frame_say (a : App) (text : CString) : Frame a (a.say text) := ⟨rfl, rfl, rfl, rfl, rfl⟩

/-- What the client has checked before it makes a call that changes something. -/
def Offered (a : App) : ApiCall → Prop
  | .getStock | .getBalance => False
  | .deposit amountGr => 0 < amountGr
  | .purchase slotId => ∃ p, a.product a.selected = some p ∧ slotId = p.slotId ∧ 0 < p.stockQty ∧
      p.priceGr ≤ a.balanceGr
  | .refund => True
  | .restock slotId qty => ∃ p, a.product a.selected = some p ∧ slotId = p.slotId ∧ 0 ≤ qty
  | .setPrice itemId priceGr => ∃ p, a.product a.selected = some p ∧ itemId = p.itemId ∧ 0 < priceGr

/-- The state `b` in which a call is made, after a key in the state `a`. -/
structure Calling (a b : App) (call : ApiCall) : Prop extends Frame a b where
  selected : b.selected = a.selected
  up : a.serverDown = false
  offered : Offered b call

theorem Calling.start (hup : a.serverDown = false) {call : ApiCall} (h : Offered a call) :
    Calling a a call := ⟨.refl a, rfl, hup, h⟩

/-- What a key does to the connection. -/
inductive KeyEffect (api : Api) (a a' : App) : Prop
  | still (h : Frame a a')
  | refreshed {b : App} (h : Frame a b) (h' : Frame (appRefresh api b) a')
  | cut {b : App} {call : ApiCall} (h : Calling a b call)
      (hout : call.outcomeIn api = .error .network)
      (h' : Frame { b.issue call with serverDown := true } a')
  | refused {b : App} {call : ApiCall} (h : Calling a b call) {st : ApiError} (hst : st ≠ .network)
      (hout : call.outcomeIn api = .error st) (h' : Frame (b.issue call) a')
  | carried {b b' : App} {call : ApiCall} (h : Calling a b call)
      (hout : call.outcomeIn api ≠ .error .network) (hissued : Frame (b.issue call) b')
      (h' : Frame (appRefresh api b') a')

theorem Calling.prepend (h : Frame a b) (hsel : b.selected = a.selected) {call : ApiCall}
    (h' : Calling b c call) : Calling a c call where
  toFrame := h.trans h'.toFrame
  selected := h'.selected.trans hsel
  up := h.serverDown.symm.trans h'.up
  offered := h'.offered

theorem KeyEffect.prepend (h : Frame a b) (hsel : b.selected = a.selected) (h' : KeyEffect api b c) :
    KeyEffect api a c := by
  cases h' with
  | still h₁ => exact .still (h.trans h₁)
  | refreshed h₁ h₂ => exact .refreshed (h.trans h₁) h₂
  | cut h₁ hout h₂ => exact .cut (.prepend h hsel h₁) hout h₂
  | refused h₁ hst hout h₂ => exact .refused (.prepend h hsel h₁) hst hout h₂
  | carried h₁ hout hissued h₂ => exact .carried (.prepend h hsel h₁) hout hissued h₂

/-! ### The keys -/

theorem frame_feedKonami (h : feedKonami keypad key a = some a') :
    Frame a a' ∧ a'.selected = a.selected := by
  simp only [feedKonami, Option.bind_eq_bind, Option.bind_eq_some_iff, Option.some.injEq] at h
  obtain ⟨w, -, rfl⟩ := h
  by_cases hcode : w.2 = 10 ∧ w.1 = konamiSeq keypad
  · rw [if_pos hcode]
    exact ⟨⟨rfl, rfl, rfl, rfl, rfl⟩, rfl⟩
  · rw [if_neg hcode]
    exact ⟨⟨rfl, rfl, rfl, rfl, rfl⟩, rfl⟩

theorem frame_moveHorizontal (dir : Int32) (a : App) : Frame a (moveHorizontal dir a) := by
  unfold moveHorizontal
  split_ifs
  · exact .refl a
  · exact ⟨rfl, rfl, rfl, rfl, rfl⟩

theorem frame_moveVertical {dir : Int32} (h : moveVertical dir a = some a') : Frame a a' := by
  unfold moveVertical at h
  split_ifs at h
  · cases h
    exact .refl a
  · simp only [Option.bind_eq_bind, Option.bind_eq_some_iff, Option.some.injEq] at h
    obtain ⟨_, _, _, _, _, _, rfl⟩ := h
    split_ifs
    · exact ⟨rfl, rfl, rfl, rfl, rfl⟩
    · exact .refl a

theorem frame_openPrompt {action : PromptAction} {label : String}
    (h : openPrompt action label a = some a') : Frame a a' := by
  unfold openPrompt at h
  split_ifs at h
  · cases h
    exact frame_say a _
  · simp only [Option.bind_eq_bind, Option.bind_eq_some_iff, Option.some.injEq] at h
    obtain ⟨_, _, rfl⟩ := h
    exact ⟨rfl, rfl, rfl, rfl, rfl⟩

theorem frame_closePrompt (h : closePrompt a = some a') : Frame a a' := by
  simp only [closePrompt, Option.bind_eq_bind, Option.bind_eq_some_iff, Option.some.injEq] at h
  obtain ⟨_, _, rfl⟩ := h
  exact ⟨rfl, rfl, rfl, rfl, rfl⟩

/-- What is reported of a call that returns no data. -/
theorem report_cases (outcome : Except ApiError Unit) (done failed : CString) (a : App) :
    outcome = .error .network ∧ Frame { a with serverDown := true } (report outcome done failed a) ∨
      outcome ≠ .error .network ∧ Frame a (report outcome done failed a) := by
  unfold report
  split
  · exact .inr ⟨by simp, frame_say a _⟩
  · exact .inl ⟨rfl, frame_say _ _⟩
  · rename_i hne
    exact .inr ⟨fun h => hne (Except.error.inj h), frame_say a _⟩

theorem map_eq_network {α : Type} {r : Except ApiError α} {f : α → ApiValue} :
    r.map f = .error .network ↔ r = .error .network := by
  cases r <;> simp [Except.map]

theorem keyEffect_doBuy (hup : a.serverDown = false) (h : doBuy api a = some a') : KeyEffect api a a' := by
  unfold doBuy at h
  by_cases hzero : a.count = 0
  · rw [if_pos hzero] at h
    cases h
    exact .still (.refl a)
  · rw [if_neg hzero] at h
    simp only [Option.bind_eq_bind, Option.bind_eq_some_iff] at h
    obtain ⟨p, hp, h⟩ := h
    by_cases hsold : p.stockQty ≤ 0
    · rw [if_pos hsold] at h
      cases h
      exact .still (frame_say a _)
    rw [if_neg hsold] at h
    by_cases hshort : a.balanceGr < p.priceGr
    · rw [if_pos hshort] at h
      cases h
      exact .still (frame_say a _)
    rw [if_neg hshort] at h
    have hoffered : Offered a (.purchase p.slotId) :=
      ⟨p, hp, rfl, Int32.not_le.1 hsold, Int32.not_lt.1 hshort⟩
    rcases report_cases api.purchase (ascii "Dispensing " ++ p.name ++ ascii "!")
      (ascii "Purchase failed") (a.issue (.purchase p.slotId)) with ⟨hout, hframe⟩ | ⟨hout, hframe⟩
    · rw [if_pos hout] at h
      cases h
      exact .cut (.start hup hoffered) (by rw [ApiCall.outcomeIn, hout]; rfl) hframe
    · rw [if_neg hout] at h
      cases h
      exact .carried (.start hup hoffered) (by rwa [ApiCall.outcomeIn, ne_eq, map_eq_network])
        hframe (.refl _)

theorem keyEffect_doCashout (hup : a.serverDown = false) (api : Api) :
    KeyEffect api a (doCashout api a) := by
  have hcalling : Calling a a .refund := .start hup trivial
  unfold doCashout
  cases hout : api.refund with
  | ok refund =>
    refine .carried hcalling ?_ (frame_say _ _) (.refl _)
    simp [ApiCall.outcomeIn, hout, Except.map]
  | error st =>
    have herror : ApiCall.refund.outcomeIn api = .error st := by
      rw [ApiCall.outcomeIn, hout]
      rfl
    cases st with
    | network => exact .cut hcalling herror (frame_say _ _)
    | http => exact .refused hcalling (by decide) herror (frame_say _ _)
    | parse => exact .refused hcalling (by decide) herror (frame_say _ _)

/-- What the pending action of a prompt does. -/
inductive Confirmed (api : Api) (a done : App) : Prop
  | still (h : Frame a done)
  | reported {call : ApiCall} {outcome : Except ApiError Unit} {said failed : CString}
      (hoffered : Offered a call) (houtcome : call.outcomeIn api = outcome.map fun _ => .nothing)
      (hdone : done = report outcome said failed (a.issue call))

theorem confirmed_confirmAction {p : Option Product} {done : App}
    (hp : ∀ q ∈ p, a.product a.selected = some q) (h : confirmAction api p a = some done) :
    Confirmed api a done := by
  unfold confirmAction at h
  split at h
  · simp only [Option.bind_eq_bind, Option.bind_eq_some_iff, Option.some.injEq] at h
    obtain ⟨s, -, rfl⟩ := h
    split_ifs with hbad
    · exact .still (frame_say a _)
    · have hoffered : Offered a (.deposit (parseZlToGr s)) := Int32.not_le.1 hbad
      exact .reported hoffered rfl rfl
  · rename_i q hpending
    simp only [Option.bind_eq_bind, Option.bind_eq_some_iff, Option.some.injEq] at h
    obtain ⟨s, -, rfl⟩ := h
    split_ifs with hbad
    · exact .still (frame_say a _)
    · have hoffered : Offered a (.restock q.slotId (parsePosInt s)) :=
        ⟨q, hp q rfl, rfl, Int32.not_lt.1 hbad⟩
      exact .reported hoffered rfl rfl
  · rename_i q hpending
    simp only [Option.bind_eq_bind, Option.bind_eq_some_iff, Option.some.injEq] at h
    obtain ⟨s, -, rfl⟩ := h
    split_ifs with hbad
    · exact .still (frame_say a _)
    · have hoffered : Offered a (.setPrice q.itemId (parseZlToGr s)) :=
        ⟨q, hp q rfl, rfl, Int32.not_le.1 hbad⟩
      exact .reported hoffered rfl rfl
  · cases h
    exact .still (.refl a)

/-- The end of `confirm_prompt`: a refresh, unless the call was cut. -/
theorem Confirmed.keyEffect {done closed : App} (h : Confirmed api a done) (hup : a.serverDown = false)
    (hclose : Frame done closed) :
    KeyEffect api a (if closed.serverDown then closed else appRefresh api closed) := by
  have hstays (b : App) (hb : b.serverDown = a.serverDown) (hframe : Frame b closed) :
      ¬ closed.serverDown = true := by
    rw [hframe.serverDown, hb, hup]
    decide
  cases h with
  | still hframe =>
    rw [if_neg (hstays a rfl (hframe.trans hclose))]
    exact .refreshed (hframe.trans hclose) (.refl _)
  | @reported call outcome said failed hoffered houtcome hdone =>
    subst hdone
    rcases report_cases outcome said failed (a.issue call) with ⟨hout, hframe⟩ | ⟨hout, hframe⟩
    · have hdown : closed.serverDown = true := by rw [hclose.serverDown, hframe.serverDown]
      rw [if_pos hdown]
      exact .cut (.start hup hoffered) (by rw [houtcome, hout]; rfl) (hframe.trans hclose)
    · rw [if_neg (hstays (a.issue call) rfl (hframe.trans hclose))]
      exact .carried (.start hup hoffered) (by rwa [houtcome, ne_eq, map_eq_network])
        (hframe.trans hclose) (.refl _)

theorem keyEffect_confirmPrompt (hup : a.serverDown = false) (h : confirmPrompt api a = some a') :
    KeyEffect api a a' := by
  simp only [confirmPrompt, Option.bind_eq_bind, Option.bind_eq_some_iff, Option.some.injEq] at h
  obtain ⟨p, hp, done, hdone, closed, hclosed, rfl⟩ := h
  have hpointed : ∀ q ∈ p, a.product a.selected = some q := by
    rintro q rfl
    unfold App.pointed at hp
    split_ifs at hp
    · obtain ⟨q', hq', heq⟩ := Option.map_eq_some_iff.1 hp
      rw [hq', Option.some.inj heq]
    · cases hp
  exact (confirmed_confirmAction hpointed hdone).keyEffect hup (frame_closePrompt hclosed)

theorem keyEffect_downKey (api : Api) (key : Int32) (a : App) :
    KeyEffect api a (downKey api key a) := by
  unfold downKey
  split_ifs
  · exact .refreshed (.refl a) (.refl _)
  · exact .still ⟨rfl, rfl, rfl, rfl, rfl⟩
  · exact .still (.refl a)

theorem keyEffect_promptKey (hup : a.serverDown = false) (h : promptKey keypad api key a = some a') :
    KeyEffect api a a' := by
  unfold promptKey at h
  split_ifs at h
  · simp only [Option.map_eq_some_iff] at h
    obtain ⟨closed, hclosed, rfl⟩ := h
    exact .still ((frame_closePrompt hclosed).trans (frame_say _ _))
  · exact keyEffect_confirmPrompt hup h
  · simp only [Option.bind_eq_bind, Option.bind_eq_some_iff] at h
    obtain ⟨s, -, h⟩ := h
    split_ifs at h
    · simp only [Option.map_eq_some_iff] at h
      obtain ⟨buf, -, rfl⟩ := h
      exact .still ⟨rfl, rfl, rfl, rfl, rfl⟩
    · cases h
      exact .still (.refl a)
  · simp only [Option.bind_eq_bind, Option.bind_eq_some_iff] at h
    obtain ⟨s, -, h⟩ := h
    split_ifs at h
    · simp only [Option.bind_eq_some_iff, Option.map_eq_some_iff] at h
      obtain ⟨_, -, buf, -, rfl⟩ := h
      exact .still ⟨rfl, rfl, rfl, rfl, rfl⟩
    · cases h
      exact .still (.refl a)
  · cases h
    exact .still (.refl a)

theorem keyEffect_browseKey (hup : a.serverDown = false) (h : browseKey keypad api key a = some a') :
    KeyEffect api a a' := by
  unfold browseKey at h
  cases hcase : keyCase keypad key <;> rw [hcase] at h
  case left | right =>
    cases h
    exact .still (frame_moveHorizontal _ a)
  case up | down => exact .still (frame_moveVertical h)
  case buy => exact keyEffect_doBuy hup h
  case deposit => exact .still (frame_openPrompt h)
  case cashout =>
    cases h
    exact keyEffect_doCashout hup api
  case refresh =>
    cases h
    exact .refreshed (.refl a) (frame_say _ _)
  case quit =>
    cases h
    exact .still ⟨rfl, rfl, rfl, rfl, rfl⟩
  case restock | price =>
    dsimp only at h
    split_ifs at h
    · exact .still (frame_openPrompt h)
    · cases h
      exact .still (.refl a)
  case escape =>
    cases h
    split_ifs
    · exact .still ⟨rfl, rfl, rfl, rfl, rfl⟩
    · exact .still (.refl a)
  case other =>
    cases h
    exact .still (.refl a)

/-- Every key has one of the effects. -/
theorem keyEffect_appHandleKey (h : appHandleKey keypad api key a = some a') : KeyEffect api a a' := by
  simp only [appHandleKey, Option.bind_eq_bind, Option.bind_eq_some_iff] at h
  obtain ⟨fed, hfed, h⟩ := h
  obtain ⟨hframe, hsel⟩ := frame_feedKonami hfed
  refine .prepend hframe hsel ?_
  by_cases hdown : fed.serverDown = true
  · rw [if_pos hdown] at h
    cases h
    exact keyEffect_downKey api key fed
  · have hup : fed.serverDown = false := by simpa using hdown
    rw [if_neg hdown] at h
    split_ifs at h
    · exact keyEffect_promptKey hup h
    · exact keyEffect_browseKey hup h

end Sshnack.Tui
