import Sshnack.ConnectionOwnership
import Sshnack.PoolProgress

/-!
# The stages of `main`

Until `main` calls `tpool_destroy` the accounts of the connections are those of the accept loop
(`Ledger`). From then on no connection is accepted and no job is added, and every connection that was
accepted is closed or has a job that the pool accepted (`Filed`). This holds in every run, also when
the list is not empty at the stop.
-/

namespace Sshnack

open Linked Machine

variable {n : ℕ}

namespace Pool

theorem Move.stop_kept {m : ℕ} {s s' : Pool n m} {l : PoolLabel n m} (hm : Move s l s')
    (hl : ∀ j, l ≠ .destroy j) : s'.stop = s.stop := by
  cases hm with
  | destroy _ _ => exact absurd rfl (hl _)
  | _ => rfl

end Pool

namespace Launch

/-- What holds of the pool and its threads in every run. -/
structure Sound (s : Launch n) : Prop where
  accounted : s.Accounted
  wakeful : s.pool.Wakeful
  exits : ∀ i, s.pool.workers i = .exited → s.pool.stop = true
  consistent : ∃ q, s.pool.Consistent q
  full : s.phase = .created → s.threads = n

theorem sound_init : (init n).Sound where
  accounted := accounted_init
  wakeful := Pool.idle_start.wakeful
  exits i hi := by cases hi
  consistent := ⟨[], Pool.consistent_start⟩
  full h := by cases h

theorem Sound.create {s : Launch n} (h : s.Sound) (ok : Bool) : (s.step (.create ok)).Sound := by
  refine ⟨h.accounted.step _, wakeful_step h.accounted h.wakeful _, ?_, ?_, ?_⟩
  · obtain ⟨threads, hpool⟩ := s.pool_create ok
    rw [hpool]
    exact h.exits
  · obtain ⟨threads, hpool⟩ := s.pool_create ok
    obtain ⟨q, hq⟩ := h.consistent
    rw [hpool]
    exact ⟨q, hq.rephase (fun _ => rfl) (fun _ => rfl) _ _ _⟩
  · have hstarted := h.accounted.started
    simp only [Launch.step, tpoolCreate]
    split_ifs with hphase hmore hok
    · exact fun hcreated => absurd (hphase.symm.trans hcreated) (by simp)
    · intro hcreated
      cases hcreated
    · exact fun _ => by change s.threads = n; omega
    · exact h.full

theorem Sound.thread {s : Launch n} (h : s.Sound) (l : PoolLabel n 1) :
    (s.step (.thread l)).Sound := by
  refine ⟨h.accounted.step _, wakeful_step h.accounted h.wakeful _, ?_,
    consistent_thread h.consistent l, ?_⟩
  · simp only [Launch.step]
    split_ifs
    · exact (s.pool.step_move l).exits h.exits
    · exact h.exits
  · simp only [Launch.step]
    split_ifs
    · exact h.full
    · exact h.full

end Launch

namespace Server

/-- `main` has not called `tpool_destroy`. -/
def beforeStop : MainPhase → Bool
  | .creating => true
  | .stopping => true
  | main => inLoop main

/-- `main` has called `tpool_destroy` and not crashed. -/
def afterStop : MainPhase → Bool
  | .draining => true
  | main => afterDestroy main

/-- `main` closed the connection, or the pool accepted its job. -/
def Filed (s : Server n) (c : ℕ) : Prop :=
  c ∈ s.closed ∨ ∃ k, s.jobs[k]? = some c ∧ k ∈ s.launch.pool.accepted

inductive Stage (s : Server n) : Prop where
  | before (hmain : beforeStop s.main = true) (ledger : s.Ledger)
      (running : s.launch.pool.stop = false)
  | after (hmain : afterStop s.main = true) (stopped : s.launch.pool.stop = true)
      (empty : s.launch.pool.workFirst = none)
      (waiting : s.main = .draining → s.launch.pool.freed = false ∧
        (s.launch.pool.clients 0 = .waiting true ∨ s.launch.pool.clients 0 = .blocked true))
      (filed : ∀ c < s.connections, s.Filed c)
  | crashed (hmain : s.main = .crashed)
  | returned (hmain : s.main = .returned)

/-- What holds of the server in every run. -/
structure Sound (s : Server n) : Prop where
  launch : s.launch.Sound
  stopped : s.Stopped
  stage : s.Stage
  early : s.main = .creating ∨ s.main = .listening ∨ s.main = .returned ∨ s.launch.phase = .failed →
    s.connections = 0

variable {s s' : Server n} {l : ServerLabel n}

theorem Move.launch_sound (hm : Move s l s') (h : s.launch.Sound) : s'.launch.Sound := by
  have hthread : ∀ l, (s.thread l).launch.Sound := fun l => h.thread l
  cases hm with
  | stay | sigint | goOn _ _ | accepted _ | refused _ | crash _ | release _ _ => exact h
  | create _ _ => exact h.create _
  | submitted _ _ | stop _ => exact hthread _
  | added _ | drain _ _ | destroyed _ _ _ => exact hthread (.client 0)
  | wakeMain => exact hthread (.wakeClient 0)
  | @worker i woken => exact hthread (.worker i woken)
  | @wakeWorker i => exact hthread (.wakeWorker i)

/-- A step of a thread of the pool, or of `main` inside one of its functions. -/
theorem thread_pool (s : Server n) (l : PoolLabel n 1) :
    (s.thread l).launch.pool = s.launch.pool.step l ∨ (s.thread l).launch.pool = s.launch.pool := by
  simp only [Server.thread, Launch.step]
  split_ifs
  · exact .inl rfl
  · exact .inr rfl

theorem thread_grows (s : Server n) (l : PoolLabel n 1) :
    s.launch.pool.Grows (s.thread l).launch.pool := by
  rcases s.thread_pool l with h | h
  · rw [h]
    exact s.launch.pool.step_grows l
  · rw [h]
    exact .same rfl rfl rfl rfl

theorem thread_stop (s : Server n) {l : PoolLabel n 1} (hl : ∀ j, l ≠ .destroy j) :
    (s.thread l).launch.pool.stop = s.launch.pool.stop := by
  rcases s.thread_pool l with h | h
  · rw [h]
    exact (s.launch.pool.step_move l).stop_kept hl
  · rw [h]

theorem thread_aside (s : Server n) {l : PoolLabel n 1} (hl : l.aside = true) :
    s.launch.pool.Aside (s.thread l).launch.pool := by
  rcases s.thread_pool l with h | h
  · rw [h]
    exact (s.launch.pool.step_move l).aside hl
  · rw [h]
    exact .refl _

theorem thread_phase (s : Server n) (l : PoolLabel n 1) :
    (s.thread l).launch.phase = s.launch.phase ∧ (s.thread l).launch.threads = s.launch.threads := by
  simp only [Server.thread, Launch.step]
  split_ifs <;> exact ⟨rfl, rfl⟩

/-- The end of the accept loop: every connection that is not closed has become a job by then. -/
theorem Ledger.filed (h : s.Ledger) (hmain : s.main ≠ .crashed ∧ ∀ r, s.main ≠ .submitting r)
    {c : ℕ} (hc : c < s.connections) : s.Filed c ∨
      ∃ k, s.jobs[k]? = some c ∧ k ∈ Pool.pendingJob (s.launch.pool.clients 0) := by
  have howned := h.owned hmain.1
  rw [pendingConnection_eq_nil hmain.2, List.append_nil] at howned
  rcases List.mem_append.1 (howned.mem_iff.2 (List.mem_range.2 hc)) with hjob | hclosed
  · obtain ⟨k, hk, hkc⟩ := List.mem_iff_getElem.1 hjob
    have hget : s.jobs[k]? = some c := by rw [List.getElem?_eq_getElem hk, hkc]
    have hmem : k ∈ List.range s.launch.pool.created := by
      rw [h.numbered]
      exact List.mem_range.2 hk
    rw [← h.ordered] at hmem
    rcases List.mem_append.1 hmem with haccepted | hpending
    · exact .inl (.inr ⟨k, hget, haccepted⟩)
    · exact .inr ⟨k, hget, hpending⟩
  · exact .inl (.inl hclosed)

theorem Filed.grows {c : ℕ} (h : s.Filed c) (hclosed : s'.closed = s.closed)
    (hjobs : s'.jobs = s.jobs) (hgrows : s.launch.pool.Grows s'.launch.pool) : s'.Filed c := by
  rcases h with hc | ⟨k, hk, haccepted⟩
  · exact .inl (hclosed ▸ hc)
  · exact .inr ⟨k, hjobs ▸ hk, hgrows.accepted.subset haccepted⟩

/-- A step that does not leave the stage before `tpool_destroy`. -/
theorem Stage.stay_before (ledger : s.Ledger) (running : s.launch.pool.stop = false)
    (hm : Move s l s') (hsafe : DrainSafe s l) (hmain : beforeStop s'.main = true)
    (hstop : s'.launch.pool.stop = s.launch.pool.stop) : s'.Stage :=
  .before hmain (ledger.move hsafe hm) (hstop.trans running)

theorem drainSafe_of_ne (h : s.main ≠ .stopping) : DrainSafe s l := fun hstop => absurd hstop.1 h

theorem Stage.before_move (hmain : beforeStop s.main = true) (ledger : s.Ledger)
    (running : s.launch.pool.stop = false) (hm : Move s l s') : s'.Stage := by
  cases hm with
  | stay => exact .before hmain ledger running
  | sigint => exact .stay_before ledger running .sigint (fun h => by cases h.2) hmain rfl
  | create h hnext =>
    refine .stay_before ledger running (.create h hnext) (drainSafe_of_ne (by simp [h])) ?_ ?_
    · rcases hnext with rfl | ⟨rfl, -⟩ | ⟨rfl, -⟩ <;> rfl
    · obtain ⟨threads, hpool⟩ := s.launch.pool_create _
      rw [hpool]
  | goOn h hnext =>
    have hne : s.main ≠ .stopping := by rcases h with h | h | ⟨r, h⟩ <;> simp [h]
    rcases hnext with rfl | rfl | rfl | ⟨r, rfl⟩
    · exact .stay_before ledger running (.goOn h (.inl rfl)) (drainSafe_of_ne (l := l) hne) rfl rfl
    · exact .returned rfl
    · exact .stay_before ledger running (.goOn h (.inr (.inr (.inl rfl))))
        (drainSafe_of_ne (l := l) hne) rfl rfl
    · exact .stay_before ledger running (.goOn h (.inr (.inr (.inr ⟨r, rfl⟩))))
        (drainSafe_of_ne (l := l) hne) rfl rfl
  | accepted h =>
    exact .stay_before ledger running (.accepted (l := l) h) (drainSafe_of_ne (by simp [h])) rfl rfl
  | refused h =>
    exact .stay_before ledger running (.refused (l := l) h) (drainSafe_of_ne (by simp [h])) rfl rfl
  | crash h => exact .crashed rfl
  | submitted h ha =>
    exact .stay_before ledger running (.submitted (l := l) h ha) (drainSafe_of_ne (by simp [h])) rfl
      (s.thread_stop (by simp))
  | added h =>
    exact .stay_before ledger running (.added h) (drainSafe_of_ne (by simp [h])) rfl
      (s.thread_stop (by simp))
  | drain h _ | destroyed h _ _ =>
    rw [h] at hmain
    cases hmain
  | release h _ => rcases h with h | h <;> rw [h] at hmain <;> cases hmain
  | wakeMain | worker | wakeWorker =>
    exact .before hmain (ledger.aside rfl) ((s.thread_stop (by simp)).trans running)
  | stop h =>
    have hphase : s.launch.phase ≠ .creating := ledger.launched (by simp [h])
    have hfreed := ledger.unfreed h rfl
    have hidle : s.launch.pool.clients 0 = .idle := ledger.fits h
    obtain ⟨q, hq⟩ := ledger.consistent
    obtain ⟨heap, hdrain, -⟩ := hq.listed.drain hq.distinct (hq.listed.length_le hq.distinct)
    have hpool : (s.thread (.destroy 0)).launch.pool = ({ s.launch.pool with
        heap := heap
        workFirst := none
        stop := true
        discarded := s.launch.pool.discarded ++ q.map Prod.snd }.setClient 0
          (.waiting true)).broadcastWork := by
      have henabled : s.launch.enabled (.destroy 0) = true := by simp [Launch.enabled, hphase]
      rw [Server.thread, Launch.step_enabled henabled]
      simp only [Pool.step, hfreed, ledger.alive, hidle, Pool.tpoolDestroy, hdrain,
        Bool.false_eq_true, or_self, if_false, if_true]
    refine .after rfl ?_ ?_ ?_ ?_
    · rw [hpool]
      rfl
    · rw [hpool]
      rfl
    · intro _
      rw [hpool]
      exact ⟨hfreed, .inl (by simp [Pool.broadcastWork, Pool.setClient])⟩
    · intro c hc
      rcases ledger.filed ⟨by simp [h], by simp [h]⟩ hc with hfiled | ⟨k, -, hk⟩
      · exact hfiled.grows rfl rfl (s.thread_grows _)
      · rw [hidle] at hk
        cases hk

theorem Stage.after_move (hmain : afterStop s.main = true) (stopped : s.launch.pool.stop = true)
    (empty : s.launch.pool.workFirst = none)
    (waiting : s.main = .draining → s.launch.pool.freed = false ∧
      (s.launch.pool.clients 0 = .waiting true ∨ s.launch.pool.clients 0 = .blocked true))
    (filed : ∀ c < s.connections, s.Filed c) (halive : s.launch.pool.crashed = false)
    (hm : Move s l s') : s'.Stage := by
  have haside : ∀ l : PoolLabel n 1, l.aside = true → (s.thread l).Stage := by
    intro l hl
    have h := s.thread_aside hl
    refine .after hmain ?_ (h.empty empty) ?_ ?_
    · rw [s.thread_stop (by rintro j rfl; cases hl)]
      exact stopped
    · intro hdraining
      obtain ⟨hfreed, hclient⟩ := waiting hdraining
      refine ⟨h.freed.trans hfreed, ?_⟩
      rcases h.client with heq | heq
      · rw [heq]
        exact hclient
      · rw [heq]
        rcases hclient with hc | hc <;> rw [hc] <;> exact .inl rfl
    · exact fun c hc => (filed c hc).grows rfl rfl (s.thread_grows l)
  cases hm with
  | stay => exact .after hmain stopped empty waiting filed
  | sigint => exact .after hmain stopped empty waiting filed
  | create h _ | accepted h | refused h | crash h | submitted h _ | added h | stop h =>
    rw [h] at hmain
    cases hmain
  | goOn h _ => rcases h with h | h | ⟨r, h⟩ <;> rw [h] at hmain <;> cases hmain
  | wakeMain | worker | wakeWorker => exact haside _ rfl
  | release h hnext =>
    rcases hnext with rfl | rfl
    · exact .after rfl stopped empty (fun hd => by cases hd) filed
    · exact .after rfl stopped empty (fun hd => by cases hd) filed
  | drain h hfreed =>
    obtain ⟨hkept, hclient⟩ := waiting h
    have hfiled : ∀ c < s.connections, (s.thread (.client 0)).Filed c :=
      fun c hc => (filed c hc).grows rfl rfl (s.thread_grows _)
    have hpool : (s.thread (.client 0)).launch.pool = s.launch.pool.step (.client 0) := rfl
    rcases Pool.step_wait hkept halive hclient with hstep | hstep | ⟨-, hstep⟩
    · refine .after hmain ?_ ?_ ?_ hfiled <;> rw [hpool, hstep]
      · exact stopped
      · exact empty
      · exact fun _ => ⟨hkept, hclient⟩
    · refine .after hmain ?_ ?_ ?_ hfiled <;> rw [hpool, hstep]
      · exact stopped
      · exact empty
      · exact fun _ => ⟨hkept, .inr (by simp [Pool.setClient])⟩
    · rw [hpool, hstep] at hfreed
      cases hfreed
  | destroyed h _ hnext =>
    rcases hnext with rfl | rfl
    · exact .returned rfl
    · have hfiled : ∀ c < s.connections,
          ({ s.thread (.client 0) with main := .destroyed } : Server n).Filed c :=
        fun c hc => (filed c hc).grows rfl rfl (s.thread_grows _)
      obtain ⟨hkept, hclient⟩ := waiting h
      have hpool : (s.thread (.client 0)).launch.pool = s.launch.pool.step (.client 0) := rfl
      refine .after rfl ((s.thread_stop (by simp)).trans stopped) ?_ (fun hd => by cases hd) hfiled
      change (s.thread (.client 0)).launch.pool.workFirst = none
      rw [hpool]
      rcases Pool.step_wait hkept halive hclient with hstep | hstep | ⟨-, hstep⟩ <;> rw [hstep] <;>
        exact empty

/-! ### Every run is sound -/

theorem sound_init : (init n).Sound where
  launch := Launch.sound_init
  stopped := stopped_init
  stage := .before rfl ledger_init rfl
  early _ := rfl

theorem step_of_ended (h : ended s.main = true) (l : ServerLabel n) : s.step l = s := if_pos h

theorem Sound.stage_step (h : s.Sound) (l : ServerLabel n) : (s.step l).Stage := by
  cases h.stage with
  | before hmain ledger running => exact Stage.before_move hmain ledger running (s.step_move l)
  | after hmain stopped empty waiting filed =>
    obtain ⟨q, hq⟩ := h.launch.consistent
    exact Stage.after_move hmain stopped empty waiting filed hq.alive (s.step_move l)
  | crashed hmain =>
    rw [step_of_ended (by rw [hmain]; rfl)]
    exact .crashed hmain
  | returned hmain =>
    rw [step_of_ended (by rw [hmain]; rfl)]
    exact .returned hmain

/-- In the accept loop every thread of the pool was started. -/
theorem Sound.created (h : s.Sound) (hin : inLoop s.main = true) : s.launch.phase = .created := by
  cases h.stage with
  | before _ ledger _ => exact ledger.created hin
  | after hmain _ _ _ _ => cases hs : s.main <;> rw [hs] at hmain hin <;> cases hmain <;> cases hin
  | crashed hmain | returned hmain =>
    rw [hmain] at hin
    cases hin

/-- `main` returns early only when a socket or a thread could not be created. -/
theorem returned_step (hne : s.main ≠ .returned) (h : (s.step l).main = .returned) :
    (s.step l).connections = s.connections ∧ (s.main = .listening ∨ s.launch.phase = .failed) := by
  by_cases hended : ended s.main = true
  · rw [step_of_ended hended] at h
    exact absurd h hne
  unfold Server.step at h ⊢
  rw [if_neg hended] at h ⊢
  cases l with
  | sigint | wakeMain | worker i woken | wakeWorker i => exact absurd h hne
  | create ok =>
    simp only [create] at h
    split at h
    · cases hphase : (s.launch.step (.create ok)).phase <;> simp [hphase] at h
    · exact absurd h hne
  | createSockets ok =>
    split_ifs at h ⊢ with hmain
    · exact ⟨rfl, .inl hmain⟩
    · exact absurd h hne
  | poll revents =>
    simp only [Server.poll] at h
    split at h
    · split_ifs at h
      cases revents <;> simp at h
    · exact absurd h hne
  | accept ok client =>
    simp only [accept] at h
    split at h
    · split_ifs at h
    · exact absurd h hne
  | submit work =>
    simp only [submit] at h
    split at h
    · cases h
    · split_ifs at h
      exact absurd h hne
    · exact absurd h hne
  | main =>
    simp only [proceed] at h ⊢
    split at h
    case h_5 hmain =>
      split_ifs at h ⊢ with hfreed hfailed
      · exact ⟨rfl, .inr hfailed⟩
      · rw [show (s.thread (.client 0)).main = s.main from rfl, hmain] at h
        cases h
    case h_8 => exact absurd h hne
    all_goals cases h

/-- Nothing is accepted before the accept loop, or without it. -/
theorem Sound.early_step (h : s.Sound) (l : ServerLabel n)
    (hearly : (s.step l).main = .creating ∨ (s.step l).main = .listening ∨
      (s.step l).main = .returned ∨ (s.step l).launch.phase = .failed) :
    (s.step l).connections = 0 := by
  by_cases hreturned : (s.step l).main = .returned
  · by_cases hold : s.main = .returned
    · rw [step_of_ended (by rw [hold]; rfl)]
      exact h.early (.inr (.inr (.inl hold)))
    · obtain ⟨hsame, hlistening | hfailed⟩ := returned_step hold hreturned
      · exact hsame.trans (h.early (.inr (.inl hlistening)))
      · exact hsame.trans (h.early (.inr (.inr (.inr hfailed))))
  have hm := s.step_move l
  generalize s.step l = s' at hearly hreturned hm ⊢
  have hfailed : ∀ l : PoolLabel n 1, (s.thread l).launch.phase = .failed → s.connections = 0 := by
    intro l hphase
    exact h.early (.inr (.inr (.inr ((s.thread_phase l).1.symm.trans hphase))))
  have hthread : ∀ l : PoolLabel n 1, (s.main = .creating ∨ s.main = .listening ∨
      s.main = .returned ∨ (s.thread l).launch.phase = .failed) → s.connections = 0 := by
    rintro l (hm | hm | hm | hm)
    · exact h.early (.inl hm)
    · exact h.early (.inr (.inl hm))
    · exact h.early (.inr (.inr (.inl hm)))
    · exact hfailed l hm
  cases hm with
  | stay | sigint => exact h.early hearly
  | create hmain _ => exact h.early (.inl hmain)
  | goOn hmain hnext =>
    rcases hnext with rfl | rfl | rfl | ⟨r, rfl⟩ <;>
      first
        | exact absurd rfl hreturned
        | exact h.early (.inr (.inr (.inr (by simpa using hearly))))
  | accepted hmain | refused hmain =>
    have hcreated := h.created (by rw [hmain]; rfl)
    simp [hcreated] at hearly
  | crash hmain => exact h.early (.inr (.inr (.inr (by simpa using hearly))))
  | submitted hmain _ => exact hfailed (.add 0 _) (by simpa using hearly)
  | added hmain => exact hfailed (.client 0) (by simpa using hearly)
  | stop hmain => exact hfailed (.destroy 0) (by simpa using hearly)
  | drain hmain _ => exact hthread (.client 0) hearly
  | destroyed hmain _ hnext =>
    rcases hnext with rfl | rfl
    · exact absurd rfl hreturned
    · exact hfailed (.client 0) (by simpa using hearly)
  | release hmain hnext =>
    rcases hnext with rfl | rfl <;> exact h.early (.inr (.inr (.inr (by simpa using hearly))))
  | wakeMain => exact hthread (.wakeClient 0) hearly
  | @worker i woken => exact hthread (.worker i woken) hearly
  | @wakeWorker i => exact hthread (.wakeWorker i) hearly

theorem Sound.step (h : s.Sound) (l : ServerLabel n) : (s.step l).Sound where
  launch := (s.step_move l).launch_sound h.launch
  stopped := h.stopped.move (s.step_move l)
  stage := h.stage_step l
  early := h.early_step l

theorem sound_run (n : ℕ) (ls : List (ServerLabel n)) : (run Server.step (init n) ls).Sound :=
  run_invariant_of_step (I := Sound) (fun _ l h => h.step l) sound_init ls

end Server
end Sshnack
