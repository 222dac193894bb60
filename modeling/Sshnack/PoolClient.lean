import Sshnack.Shutdown

/-!
# What the client of the pool sees

The steps of the workers leave the client and its jobs alone (`Aside`); each function that the client
calls changes exactly the fields named here. A consistent pool never crashes, so the critical section
of `tpool_add_work` always links the new node.
-/

namespace Sshnack

open Linked Machine

variable {n : ℕ}

/-- Labels with which no client makes progress. -/
def PoolLabel.aside {n m : ℕ} : PoolLabel n m → Bool
  | .worker _ _ => true
  | .wakeWorker _ => true
  | .wakeClient _ => true
  | _ => false

namespace Pool

/-- The job that a client has created but not added yet. -/
def pendingJob (phase : ClientPhase) : List Job := ((clientHolds phase).map Prod.snd).toList

/-- What workers do leaves the client and its jobs alone. -/
structure Aside (s s' : Pool n 1) : Prop where
  freed : s'.freed = s.freed
  created : s'.created = s.created
  accepted : s'.accepted = s.accepted
  discarded : s'.discarded = s.discarded
  client : s'.clients 0 = s.clients 0 ∨ s'.clients 0 = unblocked (s.clients 0)
  empty : s.workFirst = none → s'.workFirst = none

theorem Aside.refl (s : Pool n 1) : s.Aside s := ⟨rfl, rfl, rfl, rfl, .inl rfl, id⟩

theorem client_signalWorking (s : Pool n 1) (woken : Fin 1 → Bool) :
    (s.signalWorking woken).clients 0 = s.clients 0 ∨
      (s.signalWorking woken).clients 0 = unblocked (s.clients 0) := by
  simp only [signalWorking]
  split_ifs
  · exact .inr rfl
  · exact .inl rfl

theorem Move.aside {s s' : Pool n 1} {l : PoolLabel n 1} (hm : Move s l s')
    (hl : l.aside = true) : s.Aside s' := by
  cases hm with
  | stay => exact .refl s
  | crash => exact ⟨rfl, rfl, rfl, rfl, .inl rfl, id⟩
  | block _ _ _ | run _ | reportQuietly _ _ | wakeWorker _ =>
    exact ⟨rfl, rfl, rfl, rfl, .inl rfl, id⟩
  | take _ hfirst _ => exact ⟨rfl, rfl, rfl, rfl, .inl rfl, fun hnone => absurd hnone hfirst⟩
  | exit _ _ => exact ⟨rfl, rfl, rfl, rfl, client_signalWorking _ _, id⟩
  | report _ _ _ _ => exact ⟨rfl, rfl, rfl, rfl, client_signalWorking _ _, id⟩
  | @wakeClient j =>
    refine ⟨rfl, rfl, rfl, rfl, .inr ?_, id⟩
    rw [Subsingleton.elim j 0]
    simp only [Pool.setClient, Function.update_self]
  | create _ | link _ _ | callWait _ | sleep _ _ | waited _ _ | destroy _ _ => cases hl

theorem pendingJob_aside {s s' : Pool n 1} (h : s.Aside s') :
    pendingJob (s'.clients 0) = pendingJob (s.clients 0) := by
  rcases h.client with heq | heq
  · rw [heq]
  · rw [heq, pendingJob, clientHolds_unblocked]
    rfl

theorem step_add {s : Pool n 1} (hfreed : s.freed = false) (hcrashed : s.crashed = false)
    (hidle : s.clients 0 = .idle) {a : ℕ} (ha : s.heap.get a = none) :
    s.step (.add 0 a) = s.tpoolWorkCreate 0 a := by
  simp only [step, hfreed, hcrashed, hidle, ha, and_self, if_true, Bool.false_eq_true, or_self,
    if_false]

/-- The critical section of `tpool_add_work`, which does not fail on a consistent pool. -/
theorem step_link {s : Pool n 1} (hfreed : s.freed = false) (hcrashed : s.crashed = false)
    {a : ℕ} {k : Job} (hadding : s.clients 0 = .adding a k)
    (halive : (s.step (.client 0)).crashed = false) :
    ∃ heap first last, s.step (.client 0) =
      ({ s with
          heap := heap
          workFirst := first
          workLast := last
          accepted := s.accepted ++ [k] }.setClient 0 .idle).broadcastWork := by
  have hstep : s.step (.client 0) = s.tpoolAddWork 0 a k := by
    simp only [step, hfreed, hcrashed, clientStep, hadding, Bool.false_eq_true, or_self, if_false]
  rw [hstep] at halive ⊢
  unfold tpoolAddWork at halive ⊢
  cases hfirst : s.workFirst with
  | none => exact ⟨_, _, _, rfl⟩
  | some first =>
    cases hlast : s.workLast with
    | none =>
      simp only [hfirst, hlast] at halive
      cases halive
    | some last =>
      cases hget : s.heap.get last with
      | none =>
        simp only [hfirst, hlast, hget] at halive
        cases halive
      | some work =>
        simp only [hget]
        exact ⟨_, _, _, rfl⟩

/-- The critical section of `tpool_destroy` on an empty list. -/
theorem step_destroy {s : Pool n 1} (hfreed : s.freed = false) (hcrashed : s.crashed = false)
    (hidle : s.clients 0 = .idle) (hempty : s.workFirst = none) :
    s.step (.destroy 0) = ({ s with
        workFirst := none
        stop := true
        discarded := s.discarded ++ [] }.setClient 0 (.waiting true)).broadcastWork := by
  simp only [step, hfreed, hcrashed, hidle, tpoolDestroy, hempty, drain, Bool.false_eq_true, or_self,
    if_false, if_true]

theorem step_wait {s : Pool n 1} (hfreed : s.freed = false) (hcrashed : s.crashed = false)
    (hwaiting : s.clients 0 = .waiting true ∨ s.clients 0 = .blocked true) :
    s.step (.client 0) = s ∨ s.step (.client 0) = s.setClient 0 (.blocked true) ∨
      s.workFirst = none ∧ s.step (.client 0) = { s with freed := true }.setClient 0 .idle := by
  rcases hwaiting with hwaiting | hblocked
  · simp only [step, hfreed, hcrashed, clientStep, hwaiting, tpoolWait, Bool.false_eq_true, or_self,
      if_false]
    split_ifs with hwait
    · exact .inr (.inl rfl)
    · refine .inr (.inr ⟨?_, rfl⟩)
      by_contra hfirst
      exact hwait (.inl hfirst)
  · simp only [step, hfreed, hcrashed, clientStep, hblocked, Bool.false_eq_true, or_self, if_false]
    exact .inl trivial

end Pool

namespace Launch

theorem step_enabled {s : Launch n} {l : PoolLabel n 1} (h : s.enabled l = true) :
    s.step (.thread l) = { s with pool := s.pool.step l } := if_pos h

/-- `tpool_create` changes nothing in the pool but `thread_cnt`. -/
theorem pool_create (s : Launch n) (ok : Bool) :
    ∃ threads, (s.step (.create ok)).pool = { s.pool with threadCnt := threads } := by
  simp only [step, tpoolCreate]
  split_ifs
  · exact ⟨_, rfl⟩
  · exact ⟨_, rfl⟩
  · exact ⟨_, rfl⟩
  · exact ⟨_, rfl⟩

theorem consistent_thread {s : Launch n} (h : ∃ q, s.pool.Consistent q) (l : PoolLabel n 1) :
    ∃ q, (s.step (.thread l)).pool.Consistent q := by
  obtain ⟨q, hq⟩ := h
  simp only [step]
  split_ifs
  · exact hq.step l
  · exact ⟨q, hq⟩

end Launch

end Sshnack
