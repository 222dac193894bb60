import Sshnack.ServerMain

/-!
# Quiescent shutdown

`tpool_destroy` frees the pool, and `main` goes on to `destroy_api` and `db_close`, only after every
started worker has left its loop: the counters are right, so `tpool_wait` sees a `thread_cnt` of zero
only then. This does not depend on how many threads `tpool_create` managed to start.
-/

namespace Sshnack

open Linked Machine

variable {n : ℕ}

namespace Launch

theorem accounted_run (n : ℕ) (ls : List (LaunchLabel n)) :
    (run Launch.step (init n) ls).Accounted :=
  run_invariant_of_step (I := Accounted) (fun _ l h => h.step l) accounted_init ls

/-- Once the pool is freed every started worker has left its loop. -/
theorem Accounted.exited {s : Launch n} (h : s.Accounted) (hfreed : s.pool.freed = true) {i : Fin n}
    (hi : i.val < s.threads) : s.pool.workers i = .exited := by
  have hphase : s.phase ≠ .creating := by
    intro hcreating
    have hkept := (h.creating hcreating).kept
    rw [hfreed] at hkept
    cases hkept
  exact Pool.exited_of_liveCount_eq_zero ((h.counted hphase).released hfreed) hi

theorem freed_step {s : Launch n} (h : s.pool.freed = true) (l : PoolLabel n 1) :
    (s.step (.thread l)).pool.freed = true := by
  simp only [Launch.step]
  split_ifs
  · simp only [Pool.step, h, true_or, if_true]
  · exact h

end Launch

namespace Server

/-- `main` goes past `tpool_destroy` only when the pool is freed. -/
structure Stopped (s : Server n) : Prop where
  accounted : s.launch.Accounted
  freed : afterDestroy s.main = true → s.launch.pool.freed = true

theorem stopped_init : (init n).Stopped := ⟨Launch.accounted_init, fun h => by cases h⟩

theorem Stopped.move {s s' : Server n} (h : s.Stopped) {l : ServerLabel n} (hm : Move s l s') :
    s'.Stopped := by
  have hthread : ∀ l, (s.thread l).Stopped := fun l =>
    ⟨h.accounted.step (.thread l), fun hafter => Launch.freed_step (h.freed hafter) l⟩
  cases hm with
  | stay => exact h
  | sigint => exact ⟨h.accounted, h.freed⟩
  | @create ok next hmain hnext =>
    refine ⟨h.accounted.step (.create ok), ?_⟩
    rcases hnext with rfl | ⟨rfl, -⟩ | ⟨rfl, -⟩ <;> simp [afterDestroy]
  | goOn hmain hnext =>
    refine ⟨h.accounted, ?_⟩
    rcases hnext with rfl | rfl | rfl | ⟨r, rfl⟩ <;> simp [afterDestroy]
  | accepted hmain => exact ⟨h.accounted, by simp [afterDestroy]⟩
  | refused hmain => exact ⟨h.accounted, by simp [afterDestroy]⟩
  | crash hmain => exact ⟨h.accounted, by simp [afterDestroy]⟩
  | @submitted l r a hmain ha => exact ⟨(hthread (.add 0 a)).accounted, by simp [afterDestroy]⟩
  | added hmain => exact ⟨(hthread (.client 0)).accounted, by simp [afterDestroy]⟩
  | stop hmain => exact ⟨(hthread (.destroy 0)).accounted, by simp [afterDestroy]⟩
  | drain hmain hfreed => exact hthread _
  | destroyed hmain hfreed hnext => exact ⟨(hthread (.client 0)).accounted, fun _ => hfreed⟩
  | release hmain hnext =>
    refine ⟨h.accounted, fun _ => h.freed ?_⟩
    rcases hmain with hmain | hmain <;> rw [hmain] <;> rfl
  | wakeMain => exact hthread _
  | worker => exact hthread _
  | wakeWorker => exact hthread _

theorem stopped_run (n : ℕ) (ls : List (ServerLabel n)) :
    (run Server.step (init n) ls).Stopped :=
  run_invariant_of_step (I := Stopped) (fun s l h => h.move (s.step_move l)) stopped_init ls

end Server

/-- After the loop of `tpool_create`, whether or not it started every thread, the counters are right
and no started worker is left in its loop once the pool is freed; nor is one left when `main` calls
`destroy_api` and `db_close`. -/
theorem shutdown_quiescent (n : ℕ) :
    (∀ ls : List (LaunchLabel n), (run Launch.step (Launch.init n) ls).phase ≠ .creating →
      let s := run Launch.step (Launch.init n) ls
      s.pool.workingCnt = Pool.busyCount s.pool.workers ∧
      s.pool.threadCnt = Pool.liveCount s.threads s.pool.workers ∧
      (s.pool.freed = true → ∀ i : Fin n, i.val < s.threads → s.pool.workers i = .exited)) ∧
    ∀ ls : List (ServerLabel n),
      let s := run Server.step (Server.init n) ls
      Server.afterDestroy s.main = true ∨ s.launch.pool.freed = true →
        ∀ i : Fin n, i.val < s.launch.threads → s.launch.pool.workers i = .exited := by
  constructor
  · intro ls hphase
    have haccounted := Launch.accounted_run n ls
    have hcounted := haccounted.counted hphase
    exact ⟨hcounted.working, hcounted.threads, fun hfreed i hi => haccounted.exited hfreed hi⟩
  · intro ls s hgone i hi
    have hstopped := Server.stopped_run n ls
    rcases hgone with hafter | hfreed
    · exact hstopped.accounted.exited (hstopped.freed hafter) hi
    · exact hstopped.accounted.exited hfreed hi

/-- The second of two threads cannot be started. -/
def failedLaunch : List (LaunchLabel 2) :=
  [.create true, .thread (.worker ⟨0, Nat.two_pos⟩ fun _ => false), .create false,
    .thread (.destroy ⟨0, Nat.one_pos⟩), .thread (.worker ⟨0, Nat.two_pos⟩ fun _ => false),
    .thread (.client ⟨0, Nat.one_pos⟩)]

/-- Both threads are started, and the first one finishes a job before the pool is stopped. -/
def servedLaunch : List (LaunchLabel 2) :=
  [.create true, .create true, .create true,
    .thread (.add ⟨0, Nat.one_pos⟩ 8), .thread (.client ⟨0, Nat.one_pos⟩),
    .thread (.worker ⟨0, Nat.two_pos⟩ fun _ => false),
    .thread (.worker ⟨0, Nat.two_pos⟩ fun _ => false),
    .thread (.worker ⟨0, Nat.two_pos⟩ fun _ => false),
    .thread (.destroy ⟨0, Nat.one_pos⟩),
    .thread (.worker ⟨1, Nat.one_lt_two⟩ fun _ => false),
    .thread (.worker ⟨0, Nat.two_pos⟩ fun _ => false), .thread (.client ⟨0, Nat.one_pos⟩)]

theorem shutdown_quiescent_launches :
    ((run Launch.step (Launch.init 2) failedLaunch).pool.freed = true ∧
      (run Launch.step (Launch.init 2) failedLaunch).pool.workers 0 = .exited) ∧
    (run Launch.step (Launch.init 2) servedLaunch).pool.finished = [0] ∧
      (run Launch.step (Launch.init 2) servedLaunch).pool.freed = true ∧
      ∀ i, i.val < 2 → (run Launch.step (Launch.init 2) servedLaunch).pool.workers i = .exited := by
  have hquiescent := (shutdown_quiescent 2).1
  exact ⟨⟨by decide, (hquiescent failedLaunch (by decide)).2.2 (by decide) 0 (by decide)⟩, by decide,
    by decide, (hquiescent servedLaunch (by decide)).2.2 (by decide)⟩

end Sshnack
