import Sshnack.ServerStages
import Sshnack.Fairness

/-!
# Nobody waits for ever

A schedule is fair if every worker and `main` go on again and again: a job that runs returns, and so
does every system call (`answers`). Under such a schedule every accepted connection is passed to
`handle_client`, closed or abandoned by `tpool_destroy`, in spite of spurious wake-ups and however many
connections arrive. A job waits for its turn in the list, which only workers shorten; any one worker is
enough for that, because a worker sleeps only while the list is empty.
-/

namespace Sshnack

open Linked Machine

variable {n : ℕ}

namespace Pool

variable {m : ℕ} {s s' : Pool n m} {i : Fin n} {k : Job}

/-- A bound on the steps of a worker until the job is taken. -/
def turnsLeft (s : Pool n m) (i : Fin n) (k : Job) : ℕ :=
  4 * (s.accepted.idxOf k + 1 - s.taken.length) + stepsLeft (s.workers i)

theorem stepsLeft_le (phase : WorkerPhase) : stepsLeft phase ≤ 3 := by
  cases phase <;> simp [stepsLeft]

structure Listed (s : Pool n m) (k : Job) : Prop where
  accepted : k ∈ s.accepted
  taken : k ∉ s.taken
  discarded : k ∉ s.discarded

theorem Listed.nonempty {q : List (ℕ × Job)} (h : s.Listed k) (hq : s.Consistent q) : q ≠ [] := by
  rintro rfl
  have hmem := h.accepted
  rw [hq.order] at hmem
  simp [h.taken, h.discarded] at hmem

theorem Listed.turn {q : List (ℕ × Job)} (h : s.Listed k) (hq : s.Consistent q) :
    s.taken.length ≤ s.accepted.idxOf k := by
  rw [hq.order, List.idxOf_append, if_neg h.taken]
  exact Nat.le_add_left _ _

/-- Jobs that come later do not change the place of a job. -/
theorem Grows.turn (hgrows : s.Grows s') (hk : k ∈ s.accepted) :
    s'.accepted.idxOf k = s.accepted.idxOf k := by
  obtain ⟨more, hmore⟩ := hgrows.accepted
  rw [← hmore, List.idxOf_append_of_mem hk]

theorem turnsLeft_le (hgrows : s.Grows s') (hk : k ∈ s.accepted)
    (hphase : s'.workers i = s.workers i) : s'.turnsLeft i k ≤ s.turnsLeft i k := by
  have htaken := hgrows.taken.length_le
  unfold turnsLeft
  rw [hgrows.turn hk, hphase]
  omega

theorem Listed.turnsLeft_lt {q : List (ℕ × Job)} (h : s.Listed k) (hq : s.Consistent q)
    (hfreed : s.freed = false) (hblocked : s.workers i ≠ .blocked) (hexited : s.workers i ≠ .exited)
    (woken : Fin m → Bool) : (s.step (.worker i woken)).turnsLeft i k < s.turnsLeft i k := by
  have hgrows := s.step_grows (.worker i woken)
  have htaken := hgrows.taken.length_le
  have hturn := h.turn hq
  have hleft := stepsLeft_le ((s.step (.worker i woken)).workers i)
  have hadvance := hq.advance hfreed (.inr (h.nonempty hq)) hblocked hexited woken
  unfold turnsLeft
  rw [hgrows.turn h.accepted]
  omega

end Pool

namespace Server

variable {s s' : Server n} {l : ServerLabel n} {c : ℕ}

/-! ### Fair schedules -/

/-- The label ends the call that `main` is in. A round of the waiting loop of `tpool_destroy` counts as
one, and after its end `main` makes no call. -/
def answers (s : Server n) (l : ServerLabel n) : Bool :=
  match s.main, l with
  | .creating, .create _ => true
  | .listening, .createSockets _ => true
  | .polling, .poll _ => true
  | .serving (true :: _), .accept _ _ => true
  | .serving (true :: _), _ => false
  | .serving _, .main => true
  | .submitting _, .submit none => true
  | .submitting _, .submit (some a) => (s.launch.pool.heap.get a).isNone
  | .adding _, .main => true
  | .stopping, .main => true
  | .draining, .main => true
  | .destroyed, .main => true
  | .apiDestroyed, .main => true
  | main, _ => ended main

/-- Every worker and `main` go on again and again. -/
structure Fair (σ : ℕ → ServerLabel n) : Prop where
  worker : ∀ i, Recurs Server.step (init n) σ fun _ l => ∃ woken, l = .worker i woken
  main : Recurs Server.step (init n) σ fun s l => s.answers l = true

/-- Any other step leaves `main` where it is. -/
theorem step_elsewhere (h : s.answers l = false) : s.step l = s ∨
    s.step l = { s with keepRunning := false } ∨
      ∃ l' : PoolLabel n 1, l'.aside = true ∧ s.step l = s.thread l' := by
  by_cases hended : ended s.main = true
  · exact .inl (step_of_ended hended l)
  have hstay : ∀ {s' : Server n}, s' = s → s' = s ∨ s' = { s with keepRunning := false } ∨
      ∃ l' : PoolLabel n 1, l'.aside = true ∧ s' = s.thread l' := fun h => .inl h
  unfold Server.step
  rw [if_neg hended]
  cases l with
  | sigint => exact .inr (.inl rfl)
  | wakeMain => exact .inr (.inr ⟨.wakeClient 0, rfl, rfl⟩)
  | worker i woken => exact .inr (.inr ⟨.worker i woken, rfl, rfl⟩)
  | wakeWorker i => exact .inr (.inr ⟨.wakeWorker i, rfl, rfl⟩)
  | create ok =>
    refine hstay ?_
    cases hmain : s.main <;> simp [create, answers, hmain] at h ⊢
  | createSockets ok =>
    refine hstay ?_
    cases hmain : s.main <;> simp [answers, hmain] at h ⊢
  | poll revents =>
    refine hstay ?_
    cases hmain : s.main <;> simp [Server.poll, answers, hmain] at h ⊢
  | accept ok client =>
    refine hstay ?_
    simp only [accept]
    split
    case h_1 revents hmain => simp [answers, hmain] at h
    case h_2 => rfl
  | submit work =>
    refine hstay ?_
    simp only [submit]
    split
    case h_1 hmain => simp [answers, hmain] at h
    case h_2 hmain =>
      split_ifs with ha
      · simp [answers, hmain, ha] at h
      · rfl
    case h_3 => rfl
  | main =>
    refine hstay ?_
    simp only [proceed]
    split
    case h_8 => rfl
    all_goals
      rename_i hmain
      simp [answers, hmain] at h

/-! ### What the server keeps -/

structure Grows (s s' : Server n) : Prop where
  connections : s.connections ≤ s'.connections
  jobs : s.jobs <+: s'.jobs
  closed : s.closed <+: s'.closed
  pool : s.launch.pool.Grows s'.launch.pool

/-- What a step of the server does to the pool: one step of the pool, or only `thread_cnt` changes. -/
theorem Move.pool (hm : Move s l s') :
    (∃ threads, s'.launch.pool = { s.launch.pool with threadCnt := threads }) ∨
      ∃ l' : PoolLabel n 1, (∀ i woken, l' = .worker i woken → l = .worker i woken) ∧
        s'.launch.pool = s.launch.pool.step l' := by
  have hthread : ∀ l' : PoolLabel n 1, (∀ i woken, l' = .worker i woken → l = .worker i woken) →
      (∃ threads, (s.thread l').launch.pool = { s.launch.pool with threadCnt := threads }) ∨
        ∃ l'' : PoolLabel n 1, (∀ i woken, l'' = .worker i woken → l = .worker i woken) ∧
          (s.thread l').launch.pool = s.launch.pool.step l'' := by
    intro l' hown
    rcases s.thread_pool l' with heq | heq
    · exact .inr ⟨l', hown, heq⟩
    · exact .inl ⟨s.launch.pool.threadCnt, heq⟩
  cases hm with
  | stay | sigint | goOn _ _ | accepted _ | refused _ | crash _ | release _ _ =>
    exact .inl ⟨s.launch.pool.threadCnt, rfl⟩
  | create _ _ => exact .inl (s.launch.pool_create _)
  | submitted _ _ => exact hthread (.add 0 _) (by simp)
  | added _ | drain _ _ | destroyed _ _ _ => exact hthread (.client 0) (by simp)
  | stop _ => exact hthread (.destroy 0) (by simp)
  | wakeMain => exact hthread (.wakeClient 0) (by simp)
  | wakeWorker => exact hthread (.wakeWorker _) (by simp)
  | worker =>
    refine hthread (.worker _ _) ?_
    rintro i woken heq
    cases heq
    rfl

theorem Move.grows (hm : Move s l s') : s.Grows s' := by
  have hpool : s.launch.pool.Grows s'.launch.pool := by
    rcases hm.pool with ⟨threads, heq⟩ | ⟨l', -, heq⟩
    · rw [heq]
      exact .same rfl rfl rfl rfl
    · rw [heq]
      exact s.launch.pool.step_grows l'
  cases hm with
  | submitted _ _ => exact ⟨le_rfl, List.prefix_append _ _, List.prefix_refl _, hpool⟩
  | accepted _ => exact ⟨Nat.le_succ _, List.prefix_refl _, List.prefix_refl _, hpool⟩
  | refused _ => exact ⟨Nat.le_succ _, List.prefix_refl _, List.prefix_append _ _, hpool⟩
  | _ => exact ⟨le_rfl, List.prefix_refl _, List.prefix_refl _, hpool⟩

theorem step_grows (s : Server n) (l : ServerLabel n) : s.Grows (s.step l) := (s.step_move l).grows

/-! ### From `accept` to the list -/

/-- The connection was accepted but its job has not been added yet. -/
def Pending (s : Server n) (c : ℕ) : Prop :=
  (∃ r, s.main = .submitting r ∧ c + 1 = s.connections) ∨
    ∃ r i a k, s.main = .adding r ∧ s.launch.pool.clients i = .adding a k ∧ s.jobs[k]? = some c

theorem Ledger.pending (h : s.Ledger) (hmain : s.main ≠ .crashed) (hc : c < s.connections) :
    s.Filed c ∨ s.Pending c := by
  by_cases hsubmitting : ∃ r, s.main = .submitting r
  · obtain ⟨r, hr⟩ := hsubmitting
    have hidle : s.launch.pool.clients 0 = .idle := h.fits hr
    have howned := h.owned hmain
    simp only [pendingConnection, hr] at howned
    have hmem := howned.mem_iff.2 (List.mem_range.2 hc)
    rw [List.mem_append, List.mem_append, List.mem_singleton] at hmem
    rcases hmem with (hjob | hclosed) | hlast
    · obtain ⟨k, hk, hkc⟩ := List.mem_iff_getElem.1 hjob
      have haccepted := h.ordered
      rw [hidle, h.numbered] at haccepted
      have hrange : s.launch.pool.accepted = List.range s.jobs.length := by
        simpa [Pool.pendingJob, Pool.clientHolds] using haccepted
      refine .inl (.inr ⟨k, by rw [List.getElem?_eq_getElem hk, hkc], ?_⟩)
      rw [hrange]
      exact List.mem_range.2 hk
    · exact .inl (.inl hclosed)
    · exact .inr (.inl ⟨r, hr, by omega⟩)
  · rcases h.filed ⟨hmain, fun r hr => hsubmitting ⟨r, hr⟩⟩ hc with hfiled | ⟨k, hget, hk⟩
    · exact .inl hfiled
    · have hclient := h.client
      cases hs : s.main with
      | adding r =>
        rw [hs] at hclient
        obtain ⟨a, k', hadding⟩ := hclient
        rw [hadding] at hk
        obtain rfl : k = k' := by simpa [Pool.pendingJob, Pool.clientHolds] using hk
        exact .inr (.inr ⟨r, 0, a, k, hs, hadding, hget⟩)
      | draining =>
        rw [hs] at hclient
        rcases hclient with hc | hc <;> rw [hc] at hk <;> cases hk
      | _ =>
        rw [hs] at hclient
        rw [show s.launch.pool.clients 0 = .idle from hclient] at hk
        cases hk

theorem Sound.pending (h : s.Sound) (hc : c < s.connections) :
    (s.Filed c ∨ s.main = .crashed) ∨ s.Pending c := by
  cases h.stage with
  | before hmain ledger _ =>
    rcases ledger.pending (fun hcrash => by rw [hcrash] at hmain; cases hmain) hc with hf | hp
    · exact .inl (.inl hf)
    · exact .inr hp
  | after _ _ _ _ filed => exact .inl (.inl (filed c hc))
  | crashed hmain => exact .inl (.inr hmain)
  | returned hmain =>
    rw [h.early (.inr (.inr (.inl hmain)))] at hc
    cases hc

/-- The calls that `main` makes until the job is added. -/
def callsPending (s : Server n) : ℕ :=
  match s.main with
  | .submitting _ => 1
  | _ => 0

theorem Pending.elsewhere (h : s.Pending c) (hl : s.answers l = false) :
    (s.step l).Pending c ∧ (s.step l).callsPending ≤ s.callsPending := by
  rcases step_elsewhere hl with heq | heq | ⟨l', haside, heq⟩
  · rw [heq]
    exact ⟨h, le_rfl⟩
  · rw [heq]
    exact ⟨h, le_rfl⟩
  · rw [heq]
    refine ⟨?_, le_rfl⟩
    rcases h with ⟨r, hmain, hc⟩ | ⟨r, i, a, k, hmain, hadding, hk⟩
    · exact .inl ⟨r, hmain, hc⟩
    · obtain rfl : i = 0 := Subsingleton.elim i 0
      refine .inr ⟨r, 0, a, k, hmain, ?_, hk⟩
      rcases (s.thread_aside haside).client with hclient | hclient
      · rw [hclient, hadding]
      · rw [hclient, hadding]
        rfl

theorem Sound.pending_answer (h : s.Sound) (hp : s.Pending c) (hl : s.answers l = true) :
    ((s.step l).Filed c ∨ (s.step l).main = .crashed) ∨
      (s.step l).Pending c ∧ (s.step l).callsPending < s.callsPending := by
  have hstage : s.Ledger ∧ ¬ ended s.main = true := by
    cases h.stage with
    | before hmain ledger _ =>
      refine ⟨ledger, ?_⟩
      rcases hp with ⟨r, hr, -⟩ | ⟨r, _, _, _, hr, -, -⟩ <;> rw [hr] <;> simp [ended]
    | after hmain _ _ _ _ =>
      rcases hp with ⟨r, hr, -⟩ | ⟨r, _, _, _, hr, -, -⟩ <;> rw [hr] at hmain <;> cases hmain
    | crashed hmain | returned hmain =>
      rcases hp with ⟨r, hr, -⟩ | ⟨r, _, _, _, hr, -, -⟩ <;> rw [hr] at hmain <;> cases hmain
  obtain ⟨ledger, hended⟩ := hstage
  rcases hp with ⟨r, hmain, hc⟩ | ⟨r, i, a, k, hmain, hadding, hk⟩
  · have hphase := ledger.created (by rw [hmain]; rfl)
    have hfreed := ledger.unfreed hmain rfl
    have hidle : s.launch.pool.clients 0 = .idle := ledger.fits hmain
    cases l with
    | submit work =>
      cases work with
      | none =>
        refine .inl (.inr ?_)
        simp [Server.step, ended, submit, hmain]
      | some a =>
        have ha : s.launch.pool.heap.get a = none := by simpa [answers, hmain] using hl
        have henabled : s.launch.enabled (.add 0 a) = true := by simp [Launch.enabled, hphase]
        have hlaunch : (s.thread (.add 0 a)).launch =
            { s.launch with pool := s.launch.pool.tpoolWorkCreate 0 a } := by
          rw [Server.thread, Launch.step_enabled henabled, Pool.step_add hfreed ledger.alive hidle ha]
        have hstep : s.step (.submit (some a)) = { s.thread (.add 0 a) with
            main := .adding r
            jobs := s.jobs ++ [s.connections - 1] } := by
          simp [Server.step, ended, submit, hmain, ha]
        refine .inr ⟨?_, ?_⟩
        · rw [hstep]
          refine .inr ⟨r, 0, a, s.launch.pool.created, rfl, ?_, ?_⟩
          · simp [hlaunch, Pool.tpoolWorkCreate, Pool.setClient]
          · rw [ledger.numbered]
            simp
            omega
        · rw [hstep]
          simp [callsPending, hmain]
    | _ => simp [answers, hmain, ended] at hl
  · obtain rfl : i = 0 := Subsingleton.elim i 0
    have hfreed := ledger.unfreed hmain rfl
    cases l with
    | main =>
      obtain ⟨q, hq⟩ := Launch.consistent_thread h.launch.consistent (.client 0)
      obtain ⟨heap, first, last, hpool⟩ := Pool.step_link hfreed ledger.alive hadding hq.alive
      have hstep : s.step .main = { s.thread (.client 0) with main := .serving r } := by
        simp [Server.step, ended, proceed, hmain]
      refine .inl (.inl (.inr ⟨k, ?_, ?_⟩))
      · rw [hstep]
        exact hk
      · rw [hstep]
        change k ∈ (s.launch.pool.step (.client 0)).accepted
        rw [hpool]
        simp [Pool.broadcastWork, Pool.setClient]
    | _ => simp [answers, hmain, ended] at hl

/-! ### From the list to `handle_client` -/

/-- The connections whose jobs `tpool_destroy` freed. -/
def abandoned (s : Server n) : List ℕ := s.launch.pool.discarded.filterMap fun k => s.jobs[k]?

def Dealt (s : Server n) (c : ℕ) : Prop :=
  c ∈ s.handled ∨ c ∈ s.closed ∨ c ∈ s.abandoned ∨ s.main = .crashed

theorem Move.worker_phase {i : Fin n} (hm : Move s l s') (hl : ∀ woken, l ≠ .worker i woken)
    (hi : s.launch.pool.workers i ≠ .blocked) :
    s'.launch.pool.workers i = s.launch.pool.workers i := by
  rcases hm.pool with ⟨threads, hpool⟩ | ⟨l', hown, hpool⟩
  · rw [hpool]
  · rw [hpool]
    exact (s.launch.pool.step_move l').phase (fun woken heq => hl woken (hown i woken heq)) hi

theorem Move.keeps_running {i : Fin n} {k : Job} (hm : Move s l s') (h : s.launch.Sound)
    (hl : ∀ woken, l ≠ .worker i woken)
    (hi : Pool.jobIn s.launch.pool.heap (s.launch.pool.workers i) = some k) :
    Pool.jobIn s'.launch.pool.heap (s'.launch.pool.workers i) = some k := by
  obtain ⟨q, hq⟩ := h.consistent
  rcases hm.pool with ⟨threads, hpool⟩ | ⟨l', hown, hpool⟩
  · rw [hpool]
    exact hi
  · rw [hpool]
    exact hq.keeps_running hi fun woken heq => hl woken (hown i woken heq)

/-- The worker was started and has not left its loop, and the server goes on. -/
structure AtWork (s : Server n) (i : Fin n) : Prop where
  running : ended s.main = false
  started : i.val < s.launch.threads
  freed : s.launch.pool.freed = false

theorem AtWork.step {i : Fin n} (h : s.AtWork i) (woken : Fin 1 → Bool) :
    (s.step (.worker i woken)).launch.pool = s.launch.pool.step (.worker i woken) := by
  have henabled : s.launch.enabled (.worker i woken) = true := by
    simpa only [Launch.enabled, decide_eq_true_eq] using h.started
  have hstep : s.step (.worker i woken) = s.thread (.worker i woken) := by
    simp [Server.step, h.running]
  rw [hstep, Server.thread, Launch.step_enabled henabled]

/-- While a job is in the list every worker is started and awake. -/
theorem Sound.listed (h : s.Sound) (hpos : 0 < s.connections) (hmain : s.main ≠ .crashed) {k : Job}
    (hk : s.launch.pool.Listed k) (i : Fin n) : s.AtWork i ∧
      s.launch.pool.workers i ≠ .blocked ∧ s.launch.pool.workers i ≠ .exited := by
  obtain ⟨q, hq⟩ := h.launch.consistent
  have hfirst : s.launch.pool.workFirst ≠ none := by
    intro hnone
    have hlisted := hq.listed
    rw [hnone] at hlisted
    exact hk.nonempty hq hlisted.eq_nil
  cases h.stage with
  | crashed hcrash => exact absurd hcrash hmain
  | returned hreturned =>
    rw [h.early (.inr (.inr (.inl hreturned)))] at hpos
    cases hpos
  | after _ _ empty _ _ => exact absurd empty hfirst
  | before hbefore ledger running =>
    have hphase : s.launch.phase = .created := by
      cases hp : s.launch.phase with
      | created => rfl
      | failed =>
        rw [h.early (.inr (.inr (.inr hp)))] at hpos
        cases hpos
      | creating =>
        have hcreating : s.main = .creating := by
          by_contra hne
          exact ledger.launched hne hp
        rw [h.early (.inl hcreating)] at hpos
        cases hpos
    have hplace : ended s.main = false ∧ beforeFreed s.main = true := by
      cases hs : s.main <;> rw [hs] at hbefore <;> first | exact ⟨rfl, rfl⟩ | cases hbefore
    refine ⟨⟨hplace.1, ?_, ledger.kept hplace.2⟩, ?_, ?_⟩
    · rw [h.launch.full hphase]
      exact i.isLt
    · intro hblocked
      exact hfirst (h.launch.wakeful.workers i hblocked).1
    · intro hexited
      rw [h.launch.exits i hexited] at running
      cases running

/-- A worker that runs a job is at work, and the server has not ended. -/
theorem Sound.running (h : s.Sound) (hpos : 0 < s.connections) (hmain : s.main ≠ .crashed)
    {i : Fin n} {k : Job}
    (hi : Pool.jobIn s.launch.pool.heap (s.launch.pool.workers i) = some k) : s.AtWork i := by
  obtain ⟨a, next, hphase, -⟩ := Pool.jobIn_running hi
  have hstarted : i.val < s.launch.threads := by
    by_contra hnot
    rw [h.launch.accounted.dormant i (Nat.le_of_not_lt hnot)] at hphase
    cases hphase
  have hfreed : s.launch.pool.freed = false := by
    cases hf : s.launch.pool.freed with
    | false => rfl
    | true =>
      rw [h.launch.accounted.exited hf hstarted] at hphase
      cases hphase
  refine ⟨?_, hstarted, hfreed⟩
  cases hs : s.main with
  | crashed => exact absurd hs hmain
  | returned =>
    rw [h.early (.inr (.inr (.inl hs)))] at hpos
    cases hpos
  | dbClosed =>
    rw [h.stopped.freed (by rw [hs]; rfl)] at hfreed
    cases hfreed
  | _ => rfl

section Schedule

variable {σ : ℕ → ServerLabel n} {t : ℕ} {k : Job}

theorem stateAt_sound (σ : ℕ → ServerLabel n) (t : ℕ) :
    (stateAt Server.step (init n) σ t).Sound := sound_run n _

/-- `main` adds the job of a connection that it keeps. -/
theorem Fair.filed (h : Fair σ) (hc : c < (stateAt Server.step (init n) σ t).connections) :
    Reaches Server.step (init n) σ (fun s => s.Filed c ∨ s.main = .crashed) t := by
  rcases (stateAt_sound σ t).pending hc with hdone | hpending
  · exact .now hdone
  refine reaches_of_rank (I := fun s => s.Sound ∧ s.Pending c) callsPending ?_ ?_ h.main
    ⟨stateAt_sound σ t, hpending⟩
  · rintro s l ⟨hs, hp⟩ -
    cases hl : s.answers l with
    | true =>
      exact (hs.pending_answer hp hl).imp_right fun hnext => ⟨⟨hs.step l, hnext.1⟩, hnext.2.le⟩
    | false =>
      obtain ⟨hp', hle⟩ := hp.elsewhere hl
      exact .inr ⟨⟨hs.step l, hp'⟩, hle⟩
  · rintro s l ⟨hs, hp⟩ - hl
    exact (hs.pending_answer hp hl).imp_right And.right

/-- Whichever worker is looked at, the jobs before a listed one are taken, and then it is. -/
theorem Fair.taken (h : Fair σ) (i : Fin n) (hpos : 0 < (stateAt Server.step (init n) σ t).connections)
    (hk : k ∈ (stateAt Server.step (init n) σ t).launch.pool.accepted) :
    Reaches Server.step (init n) σ (fun s => k ∈ s.launch.pool.taken ∨ k ∈ s.launch.pool.discarded ∨
      s.main = .crashed) t := by
  have hlisted : ∀ s : Server n, k ∈ s.launch.pool.accepted →
      ¬ (k ∈ s.launch.pool.taken ∨ k ∈ s.launch.pool.discarded ∨ s.main = .crashed) →
      s.launch.pool.Listed k ∧ s.main ≠ .crashed := by
    intro s haccepted hnot
    rw [not_or, not_or] at hnot
    exact ⟨⟨haccepted, hnot.1, hnot.2.1⟩, hnot.2.2⟩
  have hown : ∀ (s : Server n) woken, s.Sound → 0 < s.connections → s.launch.pool.Listed k →
      s.main ≠ .crashed →
      (s.step (.worker i woken)).launch.pool.turnsLeft i k < s.launch.pool.turnsLeft i k := by
    intro s woken hs hpos hk hmain
    obtain ⟨hwork, hblocked, hexited⟩ := hs.listed hpos hmain hk i
    obtain ⟨q, hq⟩ := hs.launch.consistent
    rw [hwork.step]
    exact hk.turnsLeft_lt hq hwork.freed hblocked hexited woken
  refine reaches_of_rank (I := fun s => s.Sound ∧ 0 < s.connections ∧ k ∈ s.launch.pool.accepted)
    (fun s => s.launch.pool.turnsLeft i k) ?_ ?_ (h.worker i) ⟨stateAt_sound σ t, hpos, hk⟩
  · rintro s l ⟨hs, hpos, haccepted⟩ hnot
    obtain ⟨hk, hmain⟩ := hlisted s haccepted hnot
    have hgrows := s.step_grows l
    refine .inr ⟨⟨hs.step l, hpos.trans_le hgrows.connections,
      hgrows.pool.accepted.subset haccepted⟩, ?_⟩
    by_cases hl : ∃ woken, l = .worker i woken
    · obtain ⟨woken, rfl⟩ := hl
      exact (hown s woken hs hpos hk hmain).le
    · obtain ⟨-, hblocked, -⟩ := hs.listed hpos hmain hk i
      exact Pool.turnsLeft_le hgrows.pool haccepted
        ((s.step_move l).worker_phase (fun woken heq => hl ⟨woken, heq⟩) hblocked)
  · rintro s _ ⟨hs, hpos, haccepted⟩ hnot ⟨woken, rfl⟩
    obtain ⟨hk, hmain⟩ := hlisted s haccepted hnot
    exact .inr (hown s woken hs hpos hk hmain)

theorem Fair.finished (h : Fair σ) (hpos : 0 < (stateAt Server.step (init n) σ t).connections)
    (hk : k ∈ (stateAt Server.step (init n) σ t).launch.pool.taken) :
    Reaches Server.step (init n) σ
      (fun s => k ∈ s.launch.pool.finished ∨ s.main = .crashed) t := by
  obtain ⟨q, hq⟩ := (stateAt_sound σ t).launch.consistent
  rcases List.mem_append.1 (hq.served.mem_iff.1 hk) with hrunning | hfinished
  · obtain ⟨i, hi⟩ := Pool.mem_runningJobs hrunning
    refine reaches_of_next (I := fun s => s.Sound ∧ 0 < s.connections ∧
      Pool.jobIn s.launch.pool.heap (s.launch.pool.workers i) = some k) ?_ ?_ (h.worker i)
      ⟨stateAt_sound σ t, hpos, hi⟩
    · rintro s l ⟨hs, hpos, hi⟩ hnot
      rw [not_or] at hnot
      by_cases hl : ∃ woken, l = .worker i woken
      · obtain ⟨woken, rfl⟩ := hl
        have hwork := hs.running hpos hnot.2 hi
        obtain ⟨q, hq⟩ := hs.launch.consistent
        refine .inl (.inl ?_)
        rw [hwork.step]
        exact hq.finishes hwork.freed hi woken
      · exact .inr ⟨hs.step l, hpos.trans_le (s.step_grows l).connections,
          (s.step_move l).keeps_running hs.launch (fun woken heq => hl ⟨woken, heq⟩) hi⟩
    · rintro s _ ⟨hs, hpos, hi⟩ hnot ⟨woken, rfl⟩
      rw [not_or] at hnot
      have hwork := hs.running hpos hnot.2 hi
      obtain ⟨q, hq⟩ := hs.launch.consistent
      refine .inl ?_
      rw [hwork.step]
      exact hq.finishes hwork.freed hi woken
  · exact .now (.inl hfinished)

theorem jobs_stay {t' : ℕ} (ht : t ≤ t')
    (hk : (stateAt Server.step (init n) σ t).jobs[k]? = some c) :
    (stateAt Server.step (init n) σ t').jobs[k]? = some c := by
  refine stateAt_stable (P := fun s : Server n => s.jobs[k]? = some c) ?_ ht hk
  intro s l h
  obtain ⟨more, hmore⟩ := (s.step_grows l).jobs
  rw [← hmore, List.getElem?_append_left (List.getElem?_eq_some_iff.1 h).1, h]

end Schedule

/-- Under a fair schedule every accepted connection is handled, closed or abandoned at the stop, unless
the process dies for want of memory. -/
theorem connections_dealt (n : ℕ) (hn : 0 < n) (σ : ℕ → ServerLabel n) (hfair : Fair σ) (t c : ℕ)
    (hc : c < (stateAt Server.step (init n) σ t).connections) :
    Reaches Server.step (init n) σ (fun s => s.Dealt c) t := by
  refine (hfair.filed hc).trans ?_
  rintro t₁ ht₁ ((hclosed | ⟨k, hk, haccepted⟩) | hcrashed)
  · exact .now (.inr (.inl hclosed))
  · have hpos : ∀ t' ≥ t₁, 0 < (stateAt Server.step (init n) σ t').connections := by
      intro t' ht'
      refine stateAt_stable (P := fun s : Server n => 0 < s.connections)
        (fun s l h => h.trans_le (s.step_grows l).connections) (ht₁.le.trans ht') ?_
      exact Nat.zero_lt_of_lt hc
    refine (hfair.taken ⟨0, hn⟩ (hpos t₁ le_rfl) haccepted).trans ?_
    rintro t₂ ht₂ (htaken | hdiscarded | hcrashed)
    · refine (hfair.finished (hpos t₂ ht₂) htaken).trans ?_
      rintro t₃ ht₃ (hfinished | hcrashed)
      · exact .now (.inl (List.mem_filterMap.2 ⟨k, hfinished, jobs_stay (ht₂.le.trans ht₃) hk⟩))
      · exact .now (.inr (.inr (.inr hcrashed)))
    · exact .now (.inr (.inr (.inl (List.mem_filterMap.2 ⟨k, hdiscarded, jobs_stay ht₂ hk⟩))))
    · exact .now (.inr (.inr (.inr hcrashed)))
  · exact .now (.inr (.inr (.inr hcrashed)))

theorem answers_of_ended (h : ended s.main = true) (l : ServerLabel n) : s.answers l = true := by
  cases hmain : s.main <;> rw [hmain] at h <;> cases h <;> cases l <;> simp [answers, hmain, ended]

/-- `servedRun` to the end of `main`; the worker goes on for ever. -/
def servedSchedule (t : ℕ) : ServerLabel 1 :=
  (servedRun ++ [.main, .main])[t]?.getD (.worker ⟨0, Nat.one_pos⟩ fun _ => false)

theorem fair_servedSchedule : Fair servedSchedule where
  worker i t := by
    refine ⟨max t 20, le_max_left t 20, fun _ => false, ?_⟩
    rw [servedSchedule, List.getElem?_eq_none (le_max_right t 20), Subsingleton.elim i ⟨0, Nat.one_pos⟩]
    rfl
  main t := by
    refine ⟨max t 20, le_max_left t 20, answers_of_ended ?_ _⟩
    refine stateAt_stable (P := fun s : Server 1 => ended s.main = true) ?_ (le_max_right t 20) ?_
    · intro s l h
      rwa [step_of_ended h]
    · decide

theorem connections_dealt_servedSchedule :
    0 < (stateAt Server.step (init 1) servedSchedule 5).connections ∧
      Reaches Server.step (init 1) servedSchedule (fun s => s.Dealt 0) 5 :=
  ⟨by decide, connections_dealt 1 Nat.one_pos servedSchedule fair_servedSchedule 5 0 (by decide)⟩

end Server
end Sshnack
