import Sshnack.PoolCounters

/-!
# No lost wake-up

A worker blocked on `work_cond` has nothing to do, and a caller of `tpool_wait` blocked on
`working_cond` still has to wait. A worker that leaves its loop always signals `working_cond`; one
that reports a finished job signals only when the pool has become idle, which is enough because the
single caller waits for nothing else.
-/

namespace Sshnack

open Linked Machine

namespace Pool

variable {n : ℕ}

/-- The condition on which `tpool_wait` goes on waiting. -/
def mustWait (s : Pool n 1) : Prop :=
  s.workFirst ≠ none ∨ (s.stop = false ∧ s.workingCnt ≠ 0) ∨ (s.stop = true ∧ s.threadCnt ≠ 0)

/-- Whoever is blocked without a pending wake-up would block again. -/
structure Wakeful (s : Pool n 1) : Prop where
  workers : ∀ i, s.workers i = .blocked → s.workFirst = none ∧ s.stop = false
  producer : ∀ d, s.clients 0 = .blocked d → s.mustWait

theorem unblocked_ne_blocked (phase : ClientPhase) (d : Bool) : unblocked phase ≠ .blocked d := by
  cases phase <;> simp [unblocked]

/-- With one client, a signal wakes it up. -/
theorem signalWorking_wakes (s : Pool n 1) (woken : Fin 1 → Bool) (d : Bool) :
    (s.signalWorking woken).clients 0 ≠ .blocked d := by
  have hwakes : woken 0 = true ∨ ¬ ∃ j, isBlocked (s.clients j) = true ∧ woken j = true := by
    by_cases hw : woken 0 = true
    · exact .inl hw
    · apply Or.inr
      rintro ⟨j, -, hj⟩
      rw [Subsingleton.elim j 0] at hj
      exact hw hj
  simp only [signalWorking, if_pos hwakes]
  exact unblocked_ne_blocked (s.clients 0) d

theorem broadcastWork_wakes (s : Pool n 1) (i : Fin n) : s.broadcastWork.workers i ≠ .blocked := by
  simp only [broadcastWork]
  split_ifs with hi
  · simp
  · exact hi

/-- A blocked worker is not the one that just changed its phase. -/
theorem blocked_of_update {workers : Fin n → WorkerPhase} {i i' : Fin n} {phase : WorkerPhase}
    (hphase : phase ≠ .blocked) (h : Function.update workers i phase i' = .blocked) :
    workers i' = .blocked := by
  by_cases hi : i' = i
  · subst hi
    rw [Function.update_self] at h
    exact absurd h hphase
  · rwa [Function.update_of_ne hi] at h

theorem Wakeful.workers_update {s : Pool n 1} (h : s.Wakeful) {i : Fin n} {phase : WorkerPhase}
    (hphase : phase ≠ .blocked) (i' : Fin n)
    (hi' : Function.update s.workers i phase i' = .blocked) : s.workFirst = none ∧ s.stop = false :=
  h.workers i' (blocked_of_update hphase hi')

/-- The single client is not blocked after it changed to another phase. -/
theorem setClient_not_blocked (s : Pool n 1) (j : Fin 1) {phase : ClientPhase} {d : Bool}
    (hphase : phase ≠ .blocked d) : (s.setClient j phase).clients 0 ≠ .blocked d := by
  rw [Subsingleton.elim j 0]
  simpa only [Pool.setClient, Function.update_self] using hphase

theorem Wakeful.move {k : ℕ} {s s' : Pool n 1} (h : s.Wakeful) (hk : s.Counted k)
    {l : PoolLabel n 1} (hl : l.within k) (hm : Move s l s') : s'.Wakeful := by
  cases hm with
  | stay => exact h
  | crash => exact ⟨h.workers, h.producer⟩
  | @block i woken hi hempty hstop => exact ⟨fun _ _ => ⟨hempty, hstop⟩, h.producer⟩
  | @exit i woken hi hstop =>
    exact ⟨h.workers_update (by simp), fun d hd => absurd hd (signalWorking_wakes _ woken d)⟩
  | @take i woken work first last taken hi hfirst hstop =>
    refine ⟨?_, fun _ _ => .inr (.inl ⟨hstop, Nat.succ_ne_zero _⟩)⟩
    intro i' hi'
    exact absurd (h.workers_update (by simp) i' hi').1 hfirst
  | @run i woken work heap finished hi => exact ⟨h.workers_update (by simp), h.producer⟩
  | @report i woken hi hstop hlast hempty =>
    exact ⟨h.workers_update (by simp), fun d hd => absurd hd (signalWorking_wakes _ woken d)⟩
  | @reportQuietly i woken hi hquiet =>
    refine ⟨h.workers_update (by simp), ?_⟩
    -- The worker has not left its loop, so after a stop there still is a thread to wait for.
    intro d hd
    have hworker : s.workers i ≠ .exited := by simp [hi]
    have hlive := liveCount_pos hl hworker
    rw [← hk.threads] at hlive
    change s.workFirst ≠ none ∨ (s.stop = false ∧ s.workingCnt - 1 ≠ 0) ∨
      (s.stop = true ∧ s.threadCnt ≠ 0)
    by_cases hfirst : s.workFirst = none
    · cases hstop : s.stop with
      | false =>
        refine .inr (.inl ⟨rfl, ?_⟩)
        intro hlast
        exact hquiet ⟨hstop, hlast, hfirst⟩
      | true => exact .inr (.inr ⟨rfl, by omega⟩)
    · exact .inl hfirst
  | @wakeWorker i hi => exact ⟨h.workers_update (by simp), h.producer⟩
  | @wakeClient j =>
    refine ⟨h.workers, ?_⟩
    intro d hd
    exact absurd hd (setClient_not_blocked s j (unblocked_ne_blocked _ d))
  | @create j a hj =>
    refine ⟨h.workers, ?_⟩
    intro d hd
    exact absurd hd (setClient_not_blocked _ j (by simp))
  | @link j a job heap first last hj hfirst =>
    exact ⟨fun i hi => absurd hi (broadcastWork_wakes _ i), fun _ _ => .inl hfirst⟩
  | @callWait j hj =>
    refine ⟨h.workers, ?_⟩
    intro d hd
    exact absurd hd (setClient_not_blocked s j (by simp))
  | @sleep j d hj hwait => exact ⟨h.workers, fun _ _ => hwait⟩
  | @waited j d hj hdone =>
    refine ⟨h.workers, ?_⟩
    intro d' hd
    exact absurd hd (setClient_not_blocked s j (by simp))
  | @destroy j heap jobs hj hdrain =>
    refine ⟨fun i hi => absurd hi (broadcastWork_wakes _ i), ?_⟩
    intro d hd
    exact absurd hd (setClient_not_blocked _ j (by simp))

theorem Idle.wakeful {s : Pool n 1} (h : s.Idle) : s.Wakeful := by
  refine ⟨fun _ _ => ⟨h.empty, h.running⟩, ?_⟩
  intro d hd
  rw [h.clients] at hd
  cases hd

end Pool

namespace Launch

variable {n : ℕ}

theorem wakeful_tpoolCreate {s : Launch n} (h : s.pool.Idle) (ok : Bool) :
    (s.tpoolCreate ok).pool.Wakeful := by
  have hproducer : ∀ d, s.pool.clients 0 ≠ .blocked d := by
    intro d
    simp [h.clients]
  unfold tpoolCreate
  split_ifs
  · exact h.wakeful
  · exact ⟨h.wakeful.workers, fun d hd => absurd hd (hproducer d)⟩
  · exact h.wakeful

theorem wakeful_step {s : Launch n} (h : s.Accounted) (hw : s.pool.Wakeful) (l : LaunchLabel n) :
    (s.step l).pool.Wakeful := by
  cases l with
  | create ok =>
    simp only [Launch.step]
    split_ifs with hphase
    · exact wakeful_tpoolCreate (h.creating hphase) ok
    · exact hw
  | thread l =>
    have haccounted := h.step (.thread l)
    simp only [Launch.step] at haccounted ⊢
    split_ifs at haccounted ⊢ with henabled
    · by_cases hphase : s.phase = .creating
      · exact (haccounted.creating hphase).wakeful
      · exact hw.move (h.counted hphase) (within_of_enabled henabled) (s.pool.step_move l)
    · exact hw

/-- In every reachable state a blocked worker finds no work and no stop, and the producer is blocked
in `tpool_wait` only while its waiting condition holds. -/
theorem no_lost_wakeup (n : ℕ) (ls : List (LaunchLabel n)) :
    (run Launch.step (init n) ls).pool.Wakeful := by
  have hrun : (run Launch.step (init n) ls).Accounted ∧ (run Launch.step (init n) ls).pool.Wakeful := by
    apply run_invariant_of_step (I := fun s : Launch n => s.Accounted ∧ s.pool.Wakeful)
    · rintro s l ⟨h, hw⟩
      exact ⟨h.step l, wakeful_step h hw l⟩
    · exact ⟨accounted_init, Pool.idle_start.wakeful⟩
  exact hrun.2

end Launch
end Sshnack
