import Sshnack.PoolLaunch

/-!
# The counters of the thread pool

`working_cnt` counts the workers between taking a job and reporting it finished, `thread_cnt` the
started workers that have not left their loop. While `tpool_create` starts the threads nothing can
happen but a worker blocking (`Idle`); afterwards every step keeps both counts.
-/

namespace Sshnack

open Linked Machine Finset

/-- Changing `f` at one place changes the number of places where `p` holds by at most one. -/
theorem card_filter_update {α β : Type} [Fintype α] [DecidableEq α] (p : α → β → Prop)
    [∀ a b, Decidable (p a b)] (f : α → β) (i : α) (x : β) :
    #{a | p a (Function.update f i x a)} + (if p i (f i) then 1 else 0) =
      #{a | p a (f a)} + if p i x then 1 else 0 := by
  rw [card_filter, card_filter, ← add_sum_erase univ _ (mem_univ i),
    ← add_sum_erase univ (fun a => if p a (f a) then 1 else 0) (mem_univ i)]
  have hrest : ∑ a ∈ univ.erase i, (if p a (Function.update f i x a) then 1 else 0) =
      ∑ a ∈ univ.erase i, if p a (f a) then 1 else 0 := by
    apply sum_congr rfl
    intro a ha
    rw [Function.update_of_ne (ne_of_mem_erase ha)]
  rw [hrest, Function.update_self]
  omega

/-- A worker that the label moves is among the first `k`. -/
def PoolLabel.within {n m : ℕ} (k : ℕ) : PoolLabel n m → Prop
  | .worker i _ => i.val < k
  | .wakeWorker i => i.val < k
  | _ => True

namespace Pool

variable {n m : ℕ}

/-- Between taking a job and reporting it finished. -/
def busy : WorkerPhase → Bool
  | .running _ => true
  | .reporting => true
  | _ => false

def busyCount (workers : Fin n → WorkerPhase) : ℕ := #{i | busy (workers i) = true}

/-- Among the first `k` workers, those that have not left their loop. -/
def liveCount (k : ℕ) (workers : Fin n → WorkerPhase) : ℕ :=
  #{i : Fin n | i.val < k ∧ workers i ≠ .exited}

def destroying : ClientPhase → Bool
  | .waiting d => d
  | .blocked d => d
  | _ => false

/-- The counters are right for `k` started workers, and no worker is left when `tpool_destroy` has
freed the pool. -/
structure Counted (k : ℕ) (s : Pool n m) : Prop where
  working : s.workingCnt = busyCount s.workers
  threads : s.threadCnt = liveCount k s.workers
  stopping : ∀ j, destroying (s.clients j) = true → s.stop = true
  released : s.freed = true → liveCount k s.workers = 0

theorem busyCount_update (workers : Fin n → WorkerPhase) (i : Fin n) (phase : WorkerPhase) :
    busyCount (Function.update workers i phase) + (if busy (workers i) = true then 1 else 0) =
      busyCount workers + if busy phase = true then 1 else 0 :=
  card_filter_update (fun _ p => busy p = true) workers i phase

theorem liveCount_update {k : ℕ} (workers : Fin n → WorkerPhase) {i : Fin n} (hi : i.val < k)
    (phase : WorkerPhase) :
    liveCount k (Function.update workers i phase) + (if workers i ≠ .exited then 1 else 0) =
      liveCount k workers + if phase ≠ .exited then 1 else 0 := by
  have h := card_filter_update (fun (a : Fin n) p => a.val < k ∧ p ≠ WorkerPhase.exited) workers i phase
  simpa only [liveCount, hi, true_and] using h

theorem busyCount_congr {workers workers' : Fin n → WorkerPhase}
    (h : ∀ i, busy (workers' i) = busy (workers i)) : busyCount workers' = busyCount workers := by
  simp only [busyCount, h]

theorem liveCount_congr {k : ℕ} {workers workers' : Fin n → WorkerPhase}
    (h : ∀ i, workers' i = .exited ↔ workers i = .exited) :
    liveCount k workers' = liveCount k workers := by
  simp only [liveCount, ne_eq, h]

theorem liveCount_pos {k : ℕ} {workers : Fin n → WorkerPhase} {i : Fin n} (hi : i.val < k)
    (hlive : workers i ≠ .exited) : 0 < liveCount k workers :=
  card_pos.2 ⟨i, by simp [hi, hlive]⟩

theorem busyCount_pos {workers : Fin n → WorkerPhase} {i : Fin n} (hbusy : busy (workers i) = true) :
    0 < busyCount workers :=
  card_pos.2 ⟨i, by simp [hbusy]⟩

theorem exited_of_liveCount_eq_zero {k : ℕ} {workers : Fin n → WorkerPhase}
    (h : liveCount k workers = 0) {i : Fin n} (hi : i.val < k) : workers i = .exited := by
  by_contra hlive
  have hpos := liveCount_pos hi hlive
  omega

theorem destroying_unblocked (phase : ClientPhase) :
    destroying (unblocked phase) = destroying phase := by
  cases phase <;> rfl

/-- One worker changes its phase and the counters follow. -/
theorem Counted.moveWorker {k : ℕ} {s s' : Pool n m} (h : s.Counted k) {i : Fin n} (hi : i.val < k)
    {phase : WorkerPhase} (hlive : s.workers i ≠ .exited)
    (hworkers : s'.workers = Function.update s.workers i phase)
    (hworking : s'.workingCnt + (if busy (s.workers i) = true then 1 else 0) =
      s.workingCnt + if busy phase = true then 1 else 0)
    (hthreads : s'.threadCnt + 1 = s.threadCnt + if phase ≠ .exited then 1 else 0)
    (hclients : ∀ j, destroying (s'.clients j) = destroying (s.clients j))
    (hstop : s'.stop = s.stop) (hfreed : s'.freed = s.freed) : s'.Counted k := by
  have hbusy := busyCount_update s.workers i phase
  have hcount := liveCount_update s.workers hi phase
  rw [if_pos hlive] at hcount
  have hworkingOld := h.working
  have hthreadsOld := h.threads
  refine ⟨?_, ?_, ?_, ?_⟩
  · rw [hworkers]
    omega
  · rw [hworkers]
    omega
  · intro j hj
    rw [hclients] at hj
    rw [hstop]
    exact h.stopping j hj
  · intro hf
    rw [hfreed] at hf
    have hpos := liveCount_pos hi hlive
    have hzero := h.released hf
    omega

/-- Workers keep their phases, except that blocked ones may wake up; the counters stay. -/
theorem Counted.frame {k : ℕ} {s s' : Pool n m} (h : s.Counted k)
    (hworkers : ∀ i, s'.workers i = s.workers i ∨ s.workers i = .blocked ∧ s'.workers i = .ready)
    (hworking : s'.workingCnt = s.workingCnt) (hthreads : s'.threadCnt = s.threadCnt)
    (hclients : ∀ j, destroying (s'.clients j) = true →
      s'.stop = true ∨ destroying (s.clients j) = true ∧ s'.stop = s.stop)
    (hfreed : s'.freed = true → s.freed = true ∨ s.threadCnt = 0) : s'.Counted k := by
  have hbusy : busyCount s'.workers = busyCount s.workers := by
    apply busyCount_congr
    intro i
    rcases hworkers i with heq | ⟨hold, hnew⟩
    · rw [heq]
    · rw [hold, hnew]
      rfl
  have hlive : liveCount k s'.workers = liveCount k s.workers := by
    apply liveCount_congr
    intro i
    rcases hworkers i with heq | ⟨hold, hnew⟩
    · rw [heq]
    · simp [hold, hnew]
  refine ⟨?_, ?_, ?_, ?_⟩
  · rw [hbusy, hworking, h.working]
  · rw [hlive, hthreads, h.threads]
  · intro j hj
    rcases hclients j hj with hstop | ⟨hold, hstop⟩
    · exact hstop
    · rw [hstop]
      exact h.stopping j hold
  · intro hf
    rw [hlive]
    rcases hfreed hf with hold | hzero
    · exact h.released hold
    · rw [← h.threads, hzero]

theorem destroying_setClient {s : Pool n m} {j j' : Fin m} {phase : ClientPhase}
    (h : destroying ((s.setClient j phase).clients j') = true)
    (hphase : destroying phase = false ∨ destroying phase = destroying (s.clients j)) :
    destroying (s.clients j') = true := by
  by_cases hj : j' = j
  · subst hj
    simp only [Pool.setClient, Function.update_self] at h
    rcases hphase with hnot | hsame
    · rw [hnot] at h
      cases h
    · rwa [hsame] at h
  · simpa only [Pool.setClient, Function.update_of_ne hj] using h

theorem destroying_signalWorking (s : Pool n m) (woken : Fin m → Bool) (j : Fin m) :
    destroying ((s.signalWorking woken).clients j) = destroying (s.clients j) := by
  simp only [signalWorking]
  split_ifs
  · exact destroying_unblocked _
  · rfl

theorem workers_broadcastWork (s : Pool n m) (i : Fin n) :
    s.broadcastWork.workers i = s.workers i ∨
      s.workers i = .blocked ∧ s.broadcastWork.workers i = .ready := by
  simp only [broadcastWork]
  split_ifs with hi
  · exact .inr ⟨hi, rfl⟩
  · exact .inl rfl

theorem Counted.move {k : ℕ} {s s' : Pool n m} (h : s.Counted k) {l : PoolLabel n m}
    (hl : l.within k) (hm : Move s l s') : s'.Counted k := by
  cases hm with
  | stay => exact h
  | crash => exact ⟨h.working, h.threads, h.stopping, h.released⟩
  | @block i woken hi hempty hstop =>
    refine h.moveWorker hl (by simp [hi]) rfl ?_ ?_ (fun _ => rfl) rfl rfl
    · simp [hi, busy, Pool.setWorker]
    · simp [Pool.setWorker]
  | @exit i woken hi hstop =>
    have hlive : s.workers i ≠ .exited := by simp [hi]
    have hpos := liveCount_pos hl hlive
    rw [← h.threads] at hpos
    refine h.moveWorker hl (by simp [hi]) rfl ?_ ?_ (destroying_signalWorking _ woken) rfl rfl
    · simp [hi, busy, Pool.setWorker, signalWorking]
    · simp only [signalWorking, Pool.setWorker, ne_eq, not_true_eq_false, if_false]
      omega
  | @take i woken work first last taken hi hfirst hstop =>
    refine h.moveWorker hl (by simp [hi]) rfl ?_ ?_ (fun _ => rfl) rfl rfl
    · simp [hi, busy, Pool.setWorker]
    · simp [Pool.setWorker]
  | @run i woken work heap finished hi =>
    refine h.moveWorker hl (by simp [hi]) rfl ?_ ?_ (fun _ => rfl) rfl rfl
    · simp [hi, busy, Pool.setWorker]
    · simp [Pool.setWorker]
  | @report i woken hi hstop hlast hempty =>
    have hbusy : busy (s.workers i) = true := by rw [hi]; rfl
    have hpos := busyCount_pos hbusy
    rw [← h.working] at hpos
    refine h.moveWorker hl (by simp [hi]) rfl ?_ ?_ (destroying_signalWorking _ woken) rfl rfl
    · simp only [hi, busy, if_true, Pool.setWorker, signalWorking, Bool.false_eq_true, if_false]
      omega
    · simp [Pool.setWorker, signalWorking]
  | @reportQuietly i woken hi hquiet =>
    have hbusy : busy (s.workers i) = true := by rw [hi]; rfl
    have hpos := busyCount_pos hbusy
    rw [← h.working] at hpos
    refine h.moveWorker hl (by simp [hi]) rfl ?_ ?_ (fun _ => rfl) rfl rfl
    · simp only [hi, busy, if_true, Pool.setWorker, Bool.false_eq_true, if_false]
      omega
    · simp [Pool.setWorker]
  | @wakeWorker i hi =>
    refine h.moveWorker hl (by simp [hi]) rfl ?_ ?_ (fun _ => rfl) rfl rfl
    · simp [hi, busy, Pool.setWorker]
    · simp [Pool.setWorker]
  | @wakeClient j =>
    refine h.frame (fun _ => .inl rfl) rfl rfl ?_ .inl
    intro j' hj'
    exact .inr ⟨destroying_setClient hj' (.inr (destroying_unblocked _)), rfl⟩
  | @create j a hj =>
    refine h.frame (fun _ => .inl rfl) rfl rfl ?_ .inl
    intro j' hj'
    exact .inr ⟨destroying_setClient hj' (.inl rfl), rfl⟩
  | @link j a job heap first last hj hfirst =>
    refine h.frame (workers_broadcastWork _) rfl rfl ?_ .inl
    intro j' hj'
    exact .inr ⟨destroying_setClient hj' (.inl rfl), rfl⟩
  | @callWait j hj =>
    refine h.frame (fun _ => .inl rfl) rfl rfl ?_ .inl
    intro j' hj'
    exact .inr ⟨destroying_setClient hj' (.inl rfl), rfl⟩
  | @sleep j d hj hwait =>
    refine h.frame (fun _ => .inl rfl) rfl rfl ?_ .inl
    intro j' hj'
    exact .inr ⟨destroying_setClient hj' (.inr (by rw [hj]; rfl)), rfl⟩
  | @waited j d hj hdone =>
    refine h.frame (fun _ => .inl rfl) rfl rfl ?_ ?_
    · intro j' hj'
      exact .inr ⟨destroying_setClient hj' (.inl rfl), rfl⟩
    · intro hd
      have hstop : s.stop = true := h.stopping j (by rw [hj]; exact hd)
      by_contra hthreads
      exact hdone (.inr (.inr ⟨hstop, fun hzero => hthreads (.inr hzero)⟩))
  | @destroy j heap jobs hj hdrain =>
    exact h.frame (workers_broadcastWork _) rfl rfl (fun _ _ => .inl rfl) .inl

/-- Only the worker that a label names leaves its first phase. -/
theorem Move.dormant {k : ℕ} {s s' : Pool n m} {l : PoolLabel n m} (hm : Move s l s')
    (hl : l.within k) {i : Fin n} (hi : k ≤ i.val) (hready : s.workers i = .ready) :
    s'.workers i = .ready := by
  have hupdate : ∀ (i' : Fin n) (phase : WorkerPhase), i'.val < k →
      Function.update s.workers i' phase i = .ready := by
    intro i' phase hlt
    have hne : i ≠ i' := by
      rintro rfl
      omega
    rw [Function.update_of_ne hne, hready]
  have hbroadcast : (if s.workers i = .blocked then .ready else s.workers i) = .ready := by
    simp [hready]
  cases hm with
  | stay | crash | wakeClient | create _ | callWait _ | sleep _ _ | waited _ _ => exact hready
  | link _ _ | destroy _ _ => exact hbroadcast
  | block _ _ _ | exit _ _ | take _ _ _ | run _ | report _ _ _ _ | reportQuietly _ _
  | wakeWorker _ => exact hupdate _ _ hl

/-- The pool before any call of `tpool_add_work`, `tpool_wait` or `tpool_destroy`. -/
structure Idle (s : Pool n m) : Prop where
  empty : s.workFirst = none
  running : s.stop = false
  kept : s.freed = false
  working : s.workingCnt = 0
  threads : s.threadCnt = n
  workers : ∀ i, s.workers i = .ready ∨ s.workers i = .blocked
  clients : ∀ j, s.clients j = .idle

theorem idle_start : (start n m).Idle := ⟨rfl, rfl, rfl, rfl, rfl, fun _ => .inl rfl, fun _ => rfl⟩

theorem Idle.setWorker {s : Pool n m} (h : s.Idle) (i : Fin n) {phase : WorkerPhase}
    (hphase : phase = .ready ∨ phase = .blocked) : (s.setWorker i phase).Idle := by
  refine ⟨h.empty, h.running, h.kept, h.working, h.threads, ?_, h.clients⟩
  intro i'
  by_cases hi : i' = i
  · subst hi
    simpa only [Pool.setWorker, Function.update_self] using hphase
  · simpa only [Pool.setWorker, Function.update_of_ne hi] using h.workers i'

/-- As long as no function of the pool is called, workers only block and wake up. -/
theorem Idle.move {s s' : Pool n m} (h : s.Idle) {l : PoolLabel n m} (hm : Move s l s')
    (hcall : ∀ j, (∀ a, l ≠ .add j a) ∧ l ≠ .wait j ∧ l ≠ .destroy j) : s'.Idle := by
  have hworker : ∀ i phase, s.workers i = phase → phase = .ready ∨ phase = .blocked := by
    rintro i phase rfl
    exact h.workers i
  have hclient : ∀ j phase, s.clients j = phase → phase = .idle := by
    rintro j phase rfl
    exact h.clients j
  cases hm with
  | stay => exact h
  | crash => exact ⟨h.empty, h.running, h.kept, h.working, h.threads, h.workers, h.clients⟩
  | @block i woken hi hempty hstop => exact h.setWorker i (.inr rfl)
  | exit hi hstop =>
    rw [h.running] at hstop
    cases hstop
  | take hi hfirst hstop => exact absurd h.empty hfirst
  | run hi => rcases hworker _ _ hi with hphase | hphase <;> cases hphase
  | report hi hstop hlast hempty =>
    rcases hworker _ _ hi with hphase | hphase <;> cases hphase
  | reportQuietly hi hquiet => rcases hworker _ _ hi with hphase | hphase <;> cases hphase
  | @wakeWorker i hi => exact h.setWorker i (.inl rfl)
  | @wakeClient j =>
    refine ⟨h.empty, h.running, h.kept, h.working, h.threads, h.workers, ?_⟩
    intro j'
    by_cases hj : j' = j
    · subst hj
      simp only [Pool.setClient, Function.update_self, h.clients, unblocked]
    · simpa only [Pool.setClient, Function.update_of_ne hj] using h.clients j'
  | @create j a hj => exact absurd rfl ((hcall j).1 a)
  | link hj hfirst => cases hclient _ _ hj
  | @callWait j hj => exact absurd rfl (hcall j).2.1
  | sleep hj hwait => cases hclient _ _ hj
  | waited hj hdone => cases hclient _ _ hj
  | @destroy j heap jobs hj hdrain => exact absurd rfl (hcall j).2.2

theorem Idle.busyCount_eq {s : Pool n m} (h : s.Idle) : busyCount s.workers = 0 := by
  apply card_eq_zero.2
  apply filter_eq_empty_iff.2
  intro i _
  rcases h.workers i with hi | hi <;> simp [hi, busy]

theorem Idle.liveCount_eq {s : Pool n m} (h : s.Idle) {k : ℕ} (hk : k ≤ n) :
    liveCount k s.workers = k := by
  have hlive : ∀ i, s.workers i ≠ .exited := by
    intro i
    rcases h.workers i with hi | hi <;> simp [hi]
  simp only [liveCount, hlive, ne_eq, not_false_eq_true, and_true, Fin.card_filter_val_lt]
  omega

/-- With `thread_cnt` at the number of started workers the counters are right. -/
theorem Idle.counted {s : Pool n m} (h : s.Idle) {k : ℕ} (hk : k ≤ n) :
    ({ s with threadCnt := k } : Pool n m).Counted k where
  working := h.working.trans h.busyCount_eq.symm
  threads := (h.liveCount_eq hk).symm
  stopping j hj := by
    rw [show s.clients j = .idle from h.clients j] at hj
    cases hj
  released hf := by
    rw [show s.freed = false from h.kept] at hf
    cases hf

end Pool

namespace Launch

variable {n : ℕ}

/-- What `tpool_create` and the threads it started keep. -/
structure Accounted (s : Launch n) : Prop where
  started : s.threads ≤ n
  dormant : ∀ i, s.threads ≤ i.val → s.pool.workers i = .ready
  creating : s.phase = .creating → s.pool.Idle
  counted : s.phase ≠ .creating → s.pool.Counted s.threads

theorem accounted_init : (init n).Accounted :=
  ⟨Nat.zero_le n, fun _ _ => rfl, fun _ => Pool.idle_start, fun h => absurd rfl h⟩

theorem Accounted.tpoolCreate {s : Launch n} (h : s.Accounted) (hphase : s.phase = .creating)
    (ok : Bool) : (s.tpoolCreate ok).Accounted := by
  have hidle := h.creating hphase
  have hstarted := h.started
  unfold Launch.tpoolCreate
  split_ifs with hmore hok
  · refine ⟨hmore, ?_, fun _ => hidle, fun hne => absurd hphase hne⟩
    intro i hi
    exact h.dormant i (Nat.le_of_succ_le hi)
  · exact ⟨hstarted, h.dormant, fun hp => (by cases hp), fun _ => hidle.counted hstarted⟩
  · have hall : s.threads = n := by omega
    refine ⟨hstarted, h.dormant, fun hp => (by cases hp), fun _ => ?_⟩
    have hcounted := hidle.counted hstarted
    have hthreads : s.pool.threadCnt = s.threads := hidle.threads.trans hall.symm
    exact ⟨hcounted.working, hthreads.trans hcounted.threads, hcounted.stopping, hcounted.released⟩

theorem within_of_enabled {s : Launch n} {l : PoolLabel n 1} (h : s.enabled l = true) :
    l.within s.threads := by
  cases l with
  | worker i woken => simpa only [PoolLabel.within, enabled, decide_eq_true_eq] using h
  | wakeWorker i => simpa only [PoolLabel.within, enabled, decide_eq_true_eq] using h
  | _ => trivial

theorem Accounted.step {s : Launch n} (h : s.Accounted) (l : LaunchLabel n) :
    (s.step l).Accounted := by
  cases l with
  | create ok =>
    simp only [Launch.step]
    split_ifs with hphase
    · exact h.tpoolCreate hphase ok
    · exact h
  | thread l =>
    simp only [Launch.step]
    split_ifs with henabled
    · have hwithin := within_of_enabled henabled
      refine ⟨h.started, ?_, ?_, ?_⟩
      · intro i hi
        exact (s.pool.step_move l).dormant hwithin hi (h.dormant i hi)
      · intro hphase
        have hphase' : s.phase = .creating := hphase
        apply (h.creating hphase').move (s.pool.step_move l)
        intro j
        refine ⟨?_, ?_, ?_⟩
        · rintro a rfl
          simp [enabled, hphase'] at henabled
        · rintro rfl
          simp [enabled, hphase'] at henabled
        · rintro rfl
          simp [enabled, hphase'] at henabled
      · intro hphase
        exact (h.counted hphase).move hwithin (s.pool.step_move l)
    · exact h

end Launch
end Sshnack
