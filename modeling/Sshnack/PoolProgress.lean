import Sshnack.PoolWakeups

/-!
# What a worker does for a job

A worker runs its job, reports it and takes the next one, and it leaves its loop after a stop. Each of
its own steps brings it nearer to that (`advance`), and no step of another thread takes the job that it
is running away from it. The accounts of the jobs only ever grow.
-/

namespace Sshnack

open Linked Machine

namespace Pool

variable {n m : ℕ} {s s' : Pool n m} {l : PoolLabel n m} {i : Fin n} {q : List (ℕ × Job)} {k : Job}

/-! ### The other threads -/

/-- A worker that is not blocked changes its phase only by its own steps. -/
theorem Move.phase (hm : Move s l s') (hl : ∀ woken, l ≠ .worker i woken)
    (hi : s.workers i ≠ .blocked) : s'.workers i = s.workers i := by
  have hother : ∀ (i' : Fin n) (phase : WorkerPhase), i' ≠ i →
      Function.update s.workers i' phase i = s.workers i :=
    fun i' phase hne => Function.update_of_ne hne.symm phase s.workers
  have hawake : (if s.workers i = .blocked then .ready else s.workers i) = s.workers i := if_neg hi
  cases hm with
  | stay | crash | wakeClient | create _ | callWait _ | sleep _ _ | waited _ _ => rfl
  | link _ _ | destroy _ _ => exact hawake
  | @block i' woken | @exit i' woken | @take i' woken | @run i' woken | @report i' woken
  | @reportQuietly i' woken =>
    exact hother i' _ fun heq => hl woken (heq ▸ rfl)
  | @wakeWorker i' hblocked => exact hother i' _ fun heq => hi (heq ▸ hblocked)

theorem Move.exited (hm : Move s l s') (hi : s.workers i = .exited) : s'.workers i = .exited := by
  by_cases hl : ∃ woken, l = .worker i woken
  · obtain ⟨woken, rfl⟩ := hl
    cases hm with
    | stay | crash => exact hi
    | block hphase | exit hphase | take hphase | run hphase | report hphase | reportQuietly hphase =>
      rw [hi] at hphase
      cases hphase
  · rw [← hi]
    exact hm.phase (fun woken heq => hl ⟨woken, heq⟩) (by rw [hi]; exact fun heq => by cases heq)

theorem Move.stop (hm : Move s l s') (h : s.stop = true) : s'.stop = true := by
  cases hm with
  | destroy _ _ => rfl
  | _ => exact h

/-- A worker leaves its loop only after a stop. -/
theorem Move.exits (hm : Move s l s') (h : ∀ i, s.workers i = .exited → s.stop = true) (i : Fin n)
    (hi : s'.workers i = .exited) : s'.stop = true := by
  by_cases hold : s.workers i = .exited
  · exact hm.stop (h i hold)
  have hupdate : ∀ (i' : Fin n) (phase : WorkerPhase), phase ≠ .exited →
      Function.update s.workers i' phase i ≠ .exited := by
    intro i' phase hphase
    rw [Function.update_apply]
    split_ifs
    · exact hphase
    · exact hold
  cases hm with
  | stay | crash | wakeClient | create _ | callWait _ | sleep _ _ | waited _ _ =>
    exact absurd hi hold
  | exit _ hstop => exact hstop
  | destroy _ _ => rfl
  | link _ _ =>
    change (if s.workers i = .blocked then .ready else s.workers i) = .exited at hi
    split_ifs at hi
    exact absurd hi hold
  | block _ _ _ | take _ _ _ | run _ | report _ _ _ _ | reportQuietly _ _ | wakeWorker _ =>
    exact absurd hi (hupdate _ _ (by simp))

/-! ### The accounts -/

/-- The accounts of the jobs are continued. -/
structure Grows (s s' : Pool n m) : Prop where
  accepted : s.accepted <+: s'.accepted
  taken : s.taken <+: s'.taken
  finished : s.finished <+: s'.finished
  discarded : s.discarded <+: s'.discarded

theorem Grows.same (haccepted : s'.accepted = s.accepted) (htaken : s'.taken = s.taken)
    (hfinished : s'.finished = s.finished) (hdiscarded : s'.discarded = s.discarded) : s.Grows s' :=
  ⟨⟨[], by rw [List.append_nil, haccepted]⟩, ⟨[], by rw [List.append_nil, htaken]⟩,
    ⟨[], by rw [List.append_nil, hfinished]⟩, ⟨[], by rw [List.append_nil, hdiscarded]⟩⟩

theorem takeWork_grows (s : Pool n m) (i : Fin n) (woken : Fin m → Bool) :
    s.Grows (s.takeWork i woken) := by
  unfold takeWork
  split_ifs
  · exact .same rfl rfl rfl rfl
  · exact .same rfl rfl rfl rfl
  · cases s.tpoolWorkGet with
    | none => exact .same rfl rfl rfl rfl
    | some got =>
      exact ⟨List.prefix_refl _, List.prefix_append _ _, List.prefix_refl _, List.prefix_refl _⟩

theorem workerStep_grows (s : Pool n m) (i : Fin n) (woken : Fin m → Bool) :
    s.Grows (s.workerStep i woken) := by
  unfold workerStep
  cases s.workers i with
  | ready => exact s.takeWork_grows i woken
  | blocked | exited => exact .same rfl rfl rfl rfl
  | reporting =>
    simp only [reportWork]
    split_ifs
    · exact .same rfl rfl rfl rfl
    · exact .same rfl rfl rfl rfl
  | running work =>
    cases work with
    | none => exact .same rfl rfl rfl rfl
    | some a =>
      simp only [runWork]
      cases s.heap.get a with
      | none => exact .same rfl rfl rfl rfl
      | some work =>
        exact ⟨List.prefix_refl _, List.prefix_refl _, List.prefix_append _ _, List.prefix_refl _⟩

theorem clientStep_grows (s : Pool n m) (j : Fin m) : s.Grows (s.clientStep j) := by
  unfold clientStep
  cases s.clients j with
  | idle | blocked _ => exact .same rfl rfl rfl rfl
  | waiting destroying =>
    simp only [tpoolWait]
    split_ifs
    · exact .same rfl rfl rfl rfl
    · exact .same rfl rfl rfl rfl
  | adding a job =>
    have hlink : s.accepted <+: s.accepted ++ [job] := List.prefix_append _ _
    simp only [tpoolAddWork]
    cases s.workFirst with
    | none => exact ⟨hlink, List.prefix_refl _, List.prefix_refl _, List.prefix_refl _⟩
    | some first =>
      cases s.workLast with
      | none => exact .same rfl rfl rfl rfl
      | some last =>
        simp only
        cases s.heap.get last with
        | none => exact .same rfl rfl rfl rfl
        | some work => exact ⟨hlink, List.prefix_refl _, List.prefix_refl _, List.prefix_refl _⟩

theorem step_grows (s : Pool n m) (l : PoolLabel n m) : s.Grows (s.step l) := by
  unfold step
  by_cases hgone : s.freed ∨ s.crashed
  · rw [if_pos hgone]
    exact .same rfl rfl rfl rfl
  rw [if_neg hgone]
  cases l with
  | worker i woken => exact s.workerStep_grows i woken
  | client j => exact s.clientStep_grows j
  | wakeClient j => exact .same rfl rfl rfl rfl
  | wakeWorker i | add j a | wait j =>
    simp only
    split_ifs
    · exact .same rfl rfl rfl rfl
    · exact .same rfl rfl rfl rfl
  | destroy j =>
    simp only
    split_ifs
    · unfold tpoolDestroy
      cases drain s.heap.length s.heap s.workFirst with
      | none => exact .same rfl rfl rfl rfl
      | some drained =>
        exact ⟨List.prefix_refl _, List.prefix_refl _, List.prefix_refl _, List.prefix_append _ _⟩
    · exact .same rfl rfl rfl rfl

/-! ### A worker's own steps -/

/-- How many steps a worker makes before it is ready for the next job. -/
def stepsLeft : WorkerPhase → ℕ
  | .running _ => 3
  | .reporting => 2
  | .ready => 1
  | .blocked => 0
  | .exited => 0

theorem step_worker (hfreed : s.freed = false) (halive : s.crashed = false) (woken : Fin m → Bool) :
    s.step (.worker i woken) = s.workerStep i woken := by
  simp only [step, hfreed, halive, Bool.false_eq_true, or_self, if_false]

/-- The job that a worker runs gets finished by its next step. -/
theorem Consistent.finishes (h : s.Consistent q) (hfreed : s.freed = false)
    (hi : jobIn s.heap (s.workers i) = some k) (woken : Fin m → Bool) :
    k ∈ (s.step (.worker i woken)).finished := by
  rw [step_worker hfreed h.alive, Pool.workerStep]
  cases hphase : s.workers i with
  | running work =>
    rw [hphase] at hi
    cases work with
    | none => cases hi
    | some a =>
      cases hget : s.heap.get a with
      | none =>
        simp only [jobIn, workerHolds, Option.bind_some, hget] at hi
        cases hi
      | some work =>
        simp only [jobIn, workerHolds, Option.bind_some, hget, Option.map_some] at hi
        cases hi
        simp [runWork, hget, Pool.setWorker]
  | _ =>
    rw [hphase] at hi
    cases hi

/-- A worker that finds a job in the list takes it. -/
theorem Consistent.takes (h : s.Consistent q) (hq : q ≠ []) (hstop : s.stop = false)
    (woken : Fin m → Bool) : s.taken.length < (s.takeWork i woken).taken.length := by
  cases q with
  | nil => exact absurd rfl hq
  | cons b q =>
    obtain ⟨a, x⟩ := b
    obtain ⟨hfirst, next, hget, -⟩ := h.listed
    have hjob : jobAt s.heap (some a) = [x] := by simp [jobAt, hget]
    cases next <;> simp [Pool.takeWork, hfirst, hstop, tpoolWorkGet, hget, hjob, Pool.setWorker]

/-- As long as there is something to do, every step of a worker that is awake gets it further. -/
theorem Consistent.advance (h : s.Consistent q) (hfreed : s.freed = false)
    (htodo : s.stop = true ∨ q ≠ []) (hblocked : s.workers i ≠ .blocked)
    (hexited : s.workers i ≠ .exited) (woken : Fin m → Bool) :
    s.stop = false ∧ s.taken.length < (s.step (.worker i woken)).taken.length ∨
      stepsLeft ((s.step (.worker i woken)).workers i) < stepsLeft (s.workers i) := by
  rw [step_worker hfreed h.alive, Pool.workerStep]
  cases hphase : s.workers i with
  | blocked => exact absurd hphase hblocked
  | exited => exact absurd hphase hexited
  | ready =>
    cases hstop : s.stop with
    | false =>
      rw [hstop] at htodo
      exact .inl ⟨rfl, h.takes (htodo.resolve_left Bool.false_ne_true) hstop woken⟩
    | true => exact .inr (by simp [Pool.takeWork, hstop, Pool.signalWorking, Pool.setWorker, stepsLeft])
  | reporting =>
    simp only [reportWork]
    split_ifs <;> exact .inr (by simp [Pool.signalWorking, Pool.setWorker, stepsLeft])
  | running work =>
    cases work with
    | none => exact .inr (by simp [runWork, Pool.setWorker, stepsLeft])
    | some a =>
      obtain ⟨work, hget⟩ := Option.isSome_iff_exists.1
        (h.allocated (.inl i) a (by rw [holds, hphase]; rfl))
      exact .inr (by simp [runWork, hget, Pool.setWorker, stepsLeft])

/-! ### The job that a worker runs -/

theorem jobIn_running (hi : jobIn s.heap (s.workers i) = some k) :
    ∃ a next, s.workers i = .running (some a) ∧ s.heap.get a = some ⟨k, next⟩ := by
  cases hphase : s.workers i with
  | running work =>
    rw [hphase] at hi
    cases work with
    | none => cases hi
    | some a =>
      cases hget : s.heap.get a with
      | none =>
        simp only [jobIn, workerHolds, Option.bind_some, hget] at hi
        cases hi
      | some work =>
        simp only [jobIn, workerHolds, Option.bind_some, hget, Option.map_some] at hi
        cases hi
        exact ⟨a, work.next, rfl, hget⟩
  | _ =>
    rw [hphase] at hi
    cases hi

/-- The other threads leave the item of a node alone that a worker holds. -/
theorem Consistent.item_kept (h : s.Consistent q) {a : ℕ} {next : Option ℕ}
    (hi : s.holds (.inl i) = some a) (hget : s.heap.get a = some ⟨k, next⟩)
    (hl : ∀ woken, l ≠ .worker i woken) : ∃ next', (s.step l).heap.get a = some ⟨k, next'⟩ := by
  have hsame : ∃ next', s.heap.get a = some ⟨k, next'⟩ := ⟨next, hget⟩
  unfold Pool.step
  by_cases hgone : s.freed ∨ s.crashed
  · rw [if_pos hgone]
    exact hsame
  rw [if_neg hgone]
  cases l with
  | wakeClient j => exact hsame
  | wakeWorker i' | wait j =>
    simp only
    split_ifs
    · exact hsame
    · exact hsame
  | add j b =>
    simp only
    split_ifs with hadd
    · refine ⟨next, ?_⟩
      have hne : a ≠ b := by
        rintro rfl
        rw [hget] at hadd
        cases hadd.2
      simpa only [tpoolWorkCreate, Pool.setClient, Heap.get_set_of_ne _ _ hne] using hget
    · exact hsame
  | destroy j =>
    simp only
    split_ifs
    · obtain ⟨heap, hdrain, hkeep⟩ := h.listed.drain h.distinct (h.listed.length_le h.distinct)
      refine ⟨next, ?_⟩
      simp only [Pool.tpoolDestroy, hdrain]
      exact (hkeep a (h.apart _ a hi)).trans hget
    · exact hsame
  | client j =>
    simp only [Pool.clientStep]
    cases s.clients j with
    | idle | blocked _ => exact hsame
    | waiting destroying =>
      simp only [tpoolWait]
      split_ifs
      · exact hsame
      · exact hsame
    | adding b job =>
      simp only [Pool.tpoolAddWork]
      cases s.workFirst with
      | none => exact hsame
      | some first =>
        cases s.workLast with
        | none => exact hsame
        | some last =>
          simp only
          cases hlast : s.heap.get last with
          | none => exact hsame
          | some work =>
            by_cases hne : a = last
            · subst hne
              rw [hget] at hlast
              cases hlast
              exact ⟨some b, Heap.get_set_self s.heap a _⟩
            · exact ⟨next, (Heap.get_set_of_ne s.heap _ hne).trans hget⟩
  | worker i' woken =>
    have hne : i' ≠ i := fun heq => hl woken (heq ▸ rfl)
    simp only [Pool.workerStep]
    cases hphase : s.workers i' with
    | blocked | exited => exact hsame
    | reporting =>
      simp only [reportWork]
      split_ifs
      · exact hsame
      · exact hsame
    | ready =>
      simp only [Pool.takeWork]
      split_ifs
      · exact hsame
      · exact hsame
      · cases s.tpoolWorkGet with
        | none => exact hsame
        | some got => exact hsame
    | running work =>
      cases work with
      | none => exact hsame
      | some b =>
        simp only [runWork]
        cases s.heap.get b with
        | none => exact hsame
        | some work =>
          have hab : a ≠ b := by
            rintro rfl
            have hheld : s.holds (.inl i') = some a := by
              rw [holds, hphase]
              rfl
            exact hne (Sum.inl.inj (h.exclusive _ _ a hheld hi))
          exact ⟨next, (Heap.get_free_of_ne s.heap hab).trans hget⟩

theorem Consistent.keeps_running (h : s.Consistent q) (hi : jobIn s.heap (s.workers i) = some k)
    (hl : ∀ woken, l ≠ .worker i woken) :
    jobIn (s.step l).heap ((s.step l).workers i) = some k := by
  obtain ⟨a, next, hphase, hget⟩ := jobIn_running hi
  have hheld : s.holds (.inl i) = some a := by
    rw [holds, hphase]
    rfl
  obtain ⟨next', hget'⟩ := h.item_kept hheld hget hl
  have hphase' : (s.step l).workers i = .running (some a) :=
    ((s.step_move l).phase hl (by rw [hphase]; simp)).trans hphase
  rw [hphase']
  exact jobIn_of_some rfl hget'

theorem mem_runningJobs (h : k ∈ s.runningJobs) : ∃ i, jobIn s.heap (s.workers i) = some k := by
  obtain ⟨i, -, hi⟩ := List.mem_filterMap.1 h
  exact ⟨i, hi⟩

end Pool
end Sshnack
