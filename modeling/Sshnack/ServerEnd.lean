import Sshnack.ServerProgress

/-!
# The server ends

After `SIGINT` the accept loop comes to its end, every worker finishes what it is doing and leaves, and
`tpool_destroy` returns: none of its waits lasts for ever. The calls of `main` before `tpool_destroy`
are counted by `callsLeft`, the steps of a worker by `stepsLeft` and what `main` does afterwards by
`closingLeft`.
-/

namespace Sshnack

open Linked Machine

variable {n : ℕ}

namespace Server

variable {s s' : Server n} {l : ServerLabel n} {i : Fin n}

/-! ### To the end of the accept loop -/

/-- A bound on the calls of `main` until it calls `tpool_destroy`, once `keep_running` is 0. -/
def callsLeft (s : Server n) : ℕ :=
  match s.main with
  | .creating => 5 + (n - s.launch.threads)
  | .listening => 4
  | .polling => 3
  | .serving revents => 3 * revents.length + 4
  | .submitting revents => 3 * revents.length + 6
  | .adding revents => 3 * revents.length + 5
  | .stopping => 2
  | _ => 0

theorem keepRunning_step (h : s.keepRunning = false) (l : ServerLabel n) :
    (s.step l).keepRunning = false := by
  have hm := s.step_move l
  generalize s.step l = s' at hm
  cases hm with
  | sigint => rfl
  | _ => exact h

theorem callsLeft_elsewhere (h : s.answers l = false) : (s.step l).main = s.main ∧
    (s.step l).launch.threads = s.launch.threads ∧ (s.step l).callsLeft = s.callsLeft := by
  rcases step_elsewhere h with heq | heq | ⟨l', -, heq⟩
  · rw [heq]
    exact ⟨rfl, rfl, rfl⟩
  · rw [heq]
    exact ⟨rfl, rfl, rfl⟩
  · rw [heq]
    exact ⟨rfl, (s.thread_phase l').2, by simp only [callsLeft, (s.thread_phase l').2]; rfl⟩

/-- One more call of `tpool_create` to `pthread_create`, or the end of its loop. -/
theorem callsLeft_create (ok : Bool) (hmain : s.main = .creating) :
    beforeStop (s.create ok).main = false ∨ (s.create ok).callsLeft < s.callsLeft := by
  refine .inr ?_
  simp only [create, callsLeft, hmain]
  cases hphase : (s.launch.step (.create ok)).phase with
  | created => exact Nat.lt_of_lt_of_le (by decide : 4 < 5) (Nat.le_add_right _ _)
  | failed => exact Nat.lt_of_lt_of_le (by decide : 2 < 5) (Nat.le_add_right _ _)
  | creating =>
    have hold : s.launch.phase = .creating := by
      by_contra hne
      rw [Launch.step, if_neg hne] at hphase
      exact hne hphase
    have hmore : s.launch.threads < n ∧ ok = true := by
      rw [Launch.step, if_pos hold, Launch.tpoolCreate] at hphase
      split_ifs at hphase with hlt hok
      exact ⟨hlt, hok⟩
    simp only [Launch.step, if_pos hold, Launch.tpoolCreate, if_pos hmore.1, hmore.2, if_true]
    omega

theorem callsLeft_answer (hkeep : s.keepRunning = false) (hbefore : beforeStop s.main = true)
    (h : s.answers l = true) :
    beforeStop (s.step l).main = false ∨ (s.step l).callsLeft < s.callsLeft := by
  have hended : ended s.main = false := by
    cases hs : s.main <;> rw [hs] at hbefore <;> first | rfl | cases hbefore
  cases hmain : s.main with
  | creating =>
    cases l with
    | create ok =>
      have hstep : s.step (.create ok) = s.create ok := by simp [Server.step, hended]
      rw [hstep]
      exact callsLeft_create ok hmain
    | _ => simp [answers, hmain, ended] at h
  | listening =>
    cases l with
    | createSockets ok =>
      cases ok <;> simp [Server.step, ended, hmain, callsLeft, beforeStop, inLoop]
    | _ => simp [answers, hmain, ended] at h
  | polling =>
    cases l with
    | poll revents =>
      simp [Server.step, ended, Server.poll, hmain, callsLeft, hkeep]
    | _ => simp [answers, hmain, ended] at h
  | serving revents =>
    cases revents with
    | nil =>
      cases l with
      | main => simp [Server.step, ended, proceed, hmain, callsLeft]
      | _ => simp [answers, hmain, ended] at h
    | cons b revents =>
      cases b with
      | false =>
        cases l with
        | main => simp [Server.step, ended, proceed, hmain, callsLeft]
        | _ => simp [answers, hmain, ended] at h
      | true =>
        cases l with
        | accept ok client =>
          refine .inr ?_
          cases ok <;> cases client <;> simp [Server.step, ended, accept, hmain, callsLeft]
          all_goals omega
        | _ => simp [answers, hmain] at h
  | submitting revents =>
    cases l with
    | submit work =>
      cases work with
      | none => simp [Server.step, ended, submit, hmain, beforeStop, inLoop]
      | some a =>
        have ha : s.launch.pool.heap.get a = none := by simpa [answers, hmain] using h
        simp [Server.step, ended, submit, hmain, ha, callsLeft]
    | _ => simp [answers, hmain, ended] at h
  | adding revents =>
    cases l with
    | main => simp [Server.step, ended, proceed, hmain, callsLeft]
    | _ => simp [answers, hmain, ended] at h
  | stopping =>
    cases l with
    | main => simp [Server.step, ended, proceed, hmain, beforeStop, inLoop]
    | _ => simp [answers, hmain, ended] at h
  | _ =>
    rw [hmain] at hbefore
    cases hbefore

/-! ### The workers leave -/

/-- The worker has left its loop, if it was started, and `main` is in `tpool_destroy` or behind it. -/
def Retired (s : Server n) (i : Fin n) : Prop :=
  ended s.main = true ∨
    afterStop s.main = true ∧ (i.val < s.launch.threads → s.launch.pool.workers i = .exited)

theorem afterStop_step (hafter : afterStop s.main = true) (l : ServerLabel n) :
    (afterStop (s.step l).main = true ∨ ended (s.step l).main = true) ∧
      (s.step l).launch.threads = s.launch.threads := by
  have hm := s.step_move l
  generalize s.step l = s' at hm
  cases hm with
  | stay | sigint => exact ⟨.inl hafter, rfl⟩
  | create hmain _ | accepted hmain | refused hmain | crash hmain | submitted hmain _ | added hmain
  | stop hmain =>
    rw [hmain] at hafter
    cases hafter
  | goOn hmain _ => rcases hmain with hmain | hmain | ⟨r, hmain⟩ <;> rw [hmain] at hafter <;> cases hafter
  | release hmain hnext => rcases hnext with rfl | rfl <;> exact ⟨.inl rfl, rfl⟩
  | drain hmain _ => exact ⟨.inl hafter, (s.thread_phase _).2⟩
  | destroyed hmain _ hnext =>
    refine ⟨?_, (s.thread_phase (.client 0)).2⟩
    rcases hnext with rfl | rfl
    · exact .inr rfl
    · exact .inl rfl
  | wakeMain | worker | wakeWorker => exact ⟨.inl hafter, (s.thread_phase _).2⟩

theorem Retired.step (hr : s.Retired i) (l : ServerLabel n) :
    (s.step l).Retired i := by
  rcases hr with hended | ⟨hafter, hexited⟩
  · rw [step_of_ended hended]
    exact .inl hended
  · obtain ⟨hplace, hthreads⟩ := afterStop_step hafter l
    rcases hplace with hplace | hplace
    · refine .inr ⟨hplace, ?_⟩
      intro hi
      have hold := hexited (hthreads ▸ hi)
      rcases (s.step_move l).pool with ⟨threads, hpool⟩ | ⟨l', -, hpool⟩
      · rw [hpool]
        exact hold
      · rw [hpool]
        exact (s.launch.pool.step_move l').exited hold
    · exact .inl hplace

/-- In `tpool_destroy` a worker that has not left is at work and awake. -/
theorem Sound.leaving (h : s.Sound) (hafter : afterStop s.main = true) (hnot : ¬ s.Retired i) :
    s.AtWork i ∧ s.launch.pool.stop = true ∧ s.launch.pool.workers i ≠ .blocked ∧
      s.launch.pool.workers i ≠ .exited := by
  have hrunning : ended s.main = false := by
    cases he : ended s.main with
    | false => rfl
    | true => exact absurd (.inl he) hnot
  have hstay : i.val < s.launch.threads ∧ s.launch.pool.workers i ≠ .exited := by
    by_contra hgone
    refine hnot (.inr ⟨hafter, ?_⟩)
    intro hi
    by_contra hexited
    exact hgone ⟨hi, hexited⟩
  have hstop : s.launch.pool.stop = true := by
    cases h.stage with
    | after _ stopped _ _ _ => exact stopped
    | before hmain _ _ => cases hs : s.main <;> rw [hs] at hmain hafter <;> cases hmain <;> cases hafter
    | crashed hmain | returned hmain =>
      rw [hmain] at hrunning
      cases hrunning
  have hfreed : s.launch.pool.freed = false := by
    cases hf : s.launch.pool.freed with
    | false => rfl
    | true => exact absurd (h.launch.accounted.exited hf hstay.1) hstay.2
  refine ⟨⟨hrunning, hstay.1, hfreed⟩, hstop, ?_, hstay.2⟩
  intro hblocked
  rw [(h.launch.wakeful.workers i hblocked).2] at hstop
  cases hstop

/-! ### `main` comes to its end -/

def closingLeft (s : Server n) : ℕ :=
  match s.main with
  | .draining => 3
  | .destroyed => 2
  | .apiDestroyed => 1
  | _ => 0

/-- With every worker gone `tpool_destroy` sees that it need not wait. -/
theorem Sound.destroyed (h : s.Sound) (hmain : s.main = .draining) (hretired : ∀ i, s.Retired i) :
    ended (s.step .main).main = true ∨ (s.step .main).main = .destroyed := by
  cases h.stage with
  | before hbefore _ _ =>
    rw [hmain] at hbefore
    cases hbefore
  | crashed hcrash =>
    rw [hmain] at hcrash
    cases hcrash
  | returned hreturned =>
    rw [hmain] at hreturned
    cases hreturned
  | after _ stopped empty waiting _ =>
    obtain ⟨hfreed, hclient⟩ := waiting hmain
    obtain ⟨q, hq⟩ := h.launch.consistent
    have hphase : s.launch.phase ≠ .creating := by
      intro hcreating
      rw [(h.launch.accounted.creating hcreating).running] at stopped
      cases stopped
    have hthreads : s.launch.pool.threadCnt = 0 := by
      rw [(h.launch.accounted.counted hphase).threads, Pool.liveCount, Finset.card_eq_zero,
        Finset.filter_eq_empty_iff]
      rintro i - ⟨hi, hlive⟩
      rcases hretired i with hended | ⟨-, hexited⟩
      · rw [hmain] at hended
        cases hended
      · exact hlive (hexited hi)
    have hgo : ¬ s.launch.pool.mustWait := by
      simp [Pool.mustWait, empty, stopped, hthreads]
    have hwaiting : s.launch.pool.clients 0 = .waiting true :=
      hclient.resolve_right fun hblocked => hgo (h.launch.wakeful.producer true hblocked)
    have hpool : (s.thread (.client 0)).launch.pool.freed = true := by
      change (s.launch.pool.step (.client 0)).freed = true
      simp only [Pool.step, hfreed, hq.alive, Pool.clientStep, hwaiting, Bool.false_eq_true, or_self,
        if_false]
      simp [Pool.tpoolWait, empty, stopped, hthreads, Pool.setClient]
    have hstep : s.step .main = { s.thread (.client 0) with
        main := if s.launch.phase = .failed then .returned else .destroyed } := by
      simp [Server.step, ended, hmain, proceed, hpool]
    rw [hstep]
    by_cases hfailed : s.launch.phase = .failed
    · exact .inl (by simp [hfailed, ended])
    · exact .inr (by simp [hfailed])

theorem closingLeft_answer (h : s.Sound) (hafter : afterStop s.main = true)
    (hretired : ∀ i, s.Retired i) (hl : s.answers l = true) :
    ended (s.step l).main = true ∨ (s.step l).closingLeft < s.closingLeft := by
  cases hmain : s.main with
  | draining =>
    cases l with
    | main =>
      rcases h.destroyed hmain hretired with hended | hdestroyed
      · exact .inl hended
      · refine .inr ?_
        simp [closingLeft, hmain, hdestroyed]
    | _ => simp [answers, hmain, ended] at hl
  | destroyed =>
    cases l with
    | main => simp [Server.step, ended, proceed, hmain, closingLeft]
    | _ => simp [answers, hmain, ended] at hl
  | apiDestroyed =>
    cases l with
    | main => simp [Server.step, ended, proceed, hmain]
    | _ => simp [answers, hmain, ended] at hl
  | dbClosed => exact .inl (by rw [step_of_ended (by rw [hmain]; rfl), hmain]; rfl)
  | _ =>
    rw [hmain] at hafter
    cases hafter

section Schedule

variable {σ : ℕ → ServerLabel n} {t : ℕ}

theorem Fair.stops (h : Fair σ) (hkeep : (stateAt Server.step (init n) σ t).keepRunning = false) :
    Reaches Server.step (init n) σ (fun s => beforeStop s.main = false) t := by
  refine reaches_of_rank (I := fun s => s.keepRunning = false) callsLeft ?_ ?_ h.main hkeep
  · intro s l hkeep hbefore
    rw [Bool.not_eq_false] at hbefore
    cases hl : s.answers l with
    | true =>
      exact (callsLeft_answer hkeep hbefore hl).imp_right fun hlt =>
        ⟨keepRunning_step hkeep l, hlt.le⟩
    | false => exact .inr ⟨keepRunning_step hkeep l, (callsLeft_elsewhere hl).2.2.le⟩
  · intro s l hkeep hbefore hl
    rw [Bool.not_eq_false] at hbefore
    exact callsLeft_answer hkeep hbefore hl

theorem Fair.retires (h : Fair σ) (i : Fin n)
    (hafter : afterStop (stateAt Server.step (init n) σ t).main = true) :
    Reaches Server.step (init n) σ (fun s => s.Retired i) t := by
  have hown : ∀ (s : Server n) woken, s.Sound → afterStop s.main = true → ¬ s.Retired i →
      Pool.stepsLeft ((s.step (.worker i woken)).launch.pool.workers i) <
        Pool.stepsLeft (s.launch.pool.workers i) := by
    intro s woken hs hafter hnot
    obtain ⟨hwork, hstop, hblocked, hexited⟩ := hs.leaving hafter hnot
    obtain ⟨q, hq⟩ := hs.launch.consistent
    rw [hwork.step]
    refine (hq.advance hwork.freed (.inl hstop) hblocked hexited woken).resolve_left ?_
    rintro ⟨hgo, -⟩
    rw [hgo] at hstop
    cases hstop
  refine reaches_of_rank (I := fun s => s.Sound ∧ afterStop s.main = true)
    (fun s => Pool.stepsLeft (s.launch.pool.workers i)) ?_ ?_ (h.worker i)
    ⟨stateAt_sound σ t, hafter⟩
  · rintro s l ⟨hs, hafter⟩ hnot
    rcases (afterStop_step hafter l).1 with hplace | hended
    · refine .inr ⟨⟨hs.step l, hplace⟩, ?_⟩
      by_cases hl : ∃ woken, l = .worker i woken
      · obtain ⟨woken, rfl⟩ := hl
        exact (hown s woken hs hafter hnot).le
      · obtain ⟨-, -, hblocked, -⟩ := hs.leaving hafter hnot
        rw [(s.step_move l).worker_phase (fun woken heq => hl ⟨woken, heq⟩) hblocked]
    · exact .inl (.inl hended)
  · rintro s _ ⟨hs, hafter⟩ hnot ⟨woken, rfl⟩
    exact .inr (hown s woken hs hafter hnot)

theorem Fair.ends (h : Fair σ) (hretired : ∀ i, (stateAt Server.step (init n) σ t).Retired i)
    (hafter : afterStop (stateAt Server.step (init n) σ t).main = true) :
    Reaches Server.step (init n) σ (fun s => ended s.main = true) t := by
  refine reaches_of_rank
    (I := fun s => s.Sound ∧ afterStop s.main = true ∧ ∀ i, s.Retired i) closingLeft ?_ ?_ h.main
    ⟨stateAt_sound σ t, hafter, hretired⟩
  · rintro s l ⟨hs, hafter, hretired⟩ -
    have hnext : ∀ i, (s.step l).Retired i := fun i => (hretired i).step l
    rcases (afterStop_step hafter l).1 with hplace | hended
    · cases hl : s.answers l with
      | true =>
        exact (closingLeft_answer hs hafter hretired hl).imp_right fun hlt =>
          ⟨⟨hs.step l, hplace, hnext⟩, hlt.le⟩
      | false =>
        refine .inr ⟨⟨hs.step l, hplace, hnext⟩, ?_⟩
        rw [closingLeft, closingLeft, (callsLeft_elsewhere hl).1]
    · exact .inl hended
  · rintro s l ⟨hs, hafter, hretired⟩ - hl
    exact closingLeft_answer hs hafter hretired hl

end Schedule

/-- Under a fair schedule the server ends after `SIGINT`, whatever it was doing. -/
theorem server_ends (n : ℕ) (σ : ℕ → ServerLabel n) (hfair : Fair σ) (t : ℕ) (hsignal : σ t = .sigint) :
    Reaches Server.step (init n) σ (fun s => ended s.main = true) t := by
  have hsignalled : Reaches Server.step (init n) σ
      (fun s => ended s.main = true ∨ s.keepRunning = false) t := by
    refine ⟨t + 1, Nat.le_succ t, ?_⟩
    rw [stateAt_succ, hsignal]
    by_cases hended : ended (stateAt Server.step (init n) σ t).main = true
    · rw [step_of_ended hended]
      exact .inl hended
    · refine .inr ?_
      simp [Server.step, hended]
  refine hsignalled.trans ?_
  rintro t₁ - (hended | hkeep)
  · exact .now hended
  refine (hfair.stops hkeep).trans ?_
  rintro t₂ - hbefore
  have hplace : ended (stateAt Server.step (init n) σ t₂).main = true ∨
      afterStop (stateAt Server.step (init n) σ t₂).main = true := by
    cases hs : (stateAt Server.step (init n) σ t₂).main <;> rw [hs] at hbefore <;>
      first | exact .inl rfl | exact .inr rfl | cases hbefore
  rcases hplace with hended | hafter
  · exact .now hended
  have hall : Reaches Server.step (init n) σ (fun s => ∀ i, s.Retired i) t₂ := by
    refine reaches_all ?_ fun i => hfair.retires i hafter
    intro i u _ hretired
    rw [stateAt_succ]
    exact hretired.step _
  refine hall.trans ?_
  intro t₃ ht₃ hretired
  by_cases hended : ended (stateAt Server.step (init n) σ t₃).main = true
  · exact .now hended
  refine hfair.ends hretired ?_
  have hstays : (stateAt Server.step (init n) σ t₃).Sound ∧
      (afterStop (stateAt Server.step (init n) σ t₃).main = true ∨
        ended (stateAt Server.step (init n) σ t₃).main = true) := by
    refine stateAt_stable (P := fun s : Server n => s.Sound ∧
      (afterStop s.main = true ∨ ended s.main = true)) ?_ ht₃ ⟨stateAt_sound σ t₂, .inl hafter⟩
    rintro s l ⟨hs, hafter | hended⟩
    · exact ⟨hs.step l, (afterStop_step hafter l).1⟩
    · refine ⟨hs.step l, .inr ?_⟩
      rw [step_of_ended hended]
      exact hended
  exact hstays.2.resolve_right hended

theorem server_ends_servedSchedule :
    Reaches Server.step (init 1) servedSchedule (fun s => ended s.main = true) 11 :=
  server_ends 1 servedSchedule fair_servedSchedule 11 rfl

end Server
end Sshnack
