import Sshnack.PoolMoves

/-!
# Job conservation in the thread pool

Every step of a worker or a client is a move of a node or changes only phases and counters, so every
reachable pool is consistent: each accepted job is in the list, with one worker, finished or discarded.
-/

namespace Sshnack

open Linked Machine

namespace Pool

variable {n m : ℕ}

theorem Consistent.takeWork {s : Pool n m} {q : List (ℕ × Job)} (h : s.Consistent q) {i : Fin n}
    (hi : s.workers i = .ready) (woken : Fin m → Bool) : ∃ q', (s.takeWork i woken).Consistent q' := by
  have hnone : workerHolds (s.workers i) = none := by
    rw [hi]
    rfl
  unfold Pool.takeWork
  split_ifs with hwait hstop
  · exact ⟨q, h.setWorker hnone rfl⟩
  · refine ⟨q, Consistent.signalWorking ?_ woken⟩
    exact h.rephase (workerHolds_update s.workers hnone rfl) (fun _ => rfl) _ _ _
  · have hgo : s.stop = false := by simpa using hstop
    cases q with
    | nil =>
      have hfirst : s.workFirst = none := h.listed
      exact absurd ⟨hfirst, hgo⟩ hwait
    | cons b q =>
      obtain ⟨a, x⟩ := b
      obtain ⟨hfirst, next, hget, hrest⟩ := h.listed
      have hjob : jobAt s.heap (some a) = [x] := by simp [jobAt, hget]
      refine ⟨q, ?_⟩
      cases next with
      | none =>
        have hwork : s.tpoolWorkGet = some (some a, none, none) := by
          simp only [tpoolWorkGet, hfirst, hget, Option.map_some]
        simp only [hwork, hjob]
        obtain rfl := hrest.eq_nil
        exact h.take hnone hgo hrest (fun b hb => (by cases hb)) _
      | some c =>
        have hwork : s.tpoolWorkGet = some (some a, some c, s.workLast) := by
          simp only [tpoolWorkGet, hfirst, hget, Option.map_some]
        simp only [hwork, hjob]
        apply h.take hnone hgo hrest
        intro b hb
        apply h.last b
        cases q with
        | nil => cases hb
        | cons d q => rwa [List.getLast?_cons_cons]

theorem Consistent.tpoolAddWork {s : Pool n m} {q : List (ℕ × Job)} (h : s.Consistent q) {j : Fin m}
    {a : ℕ} {k : Job} (hj : s.clients j = .adding a k) :
    ∃ q', (s.tpoolAddWork j a k).Consistent q' := by
  have hpending : clientHolds (s.clients j) = some (a, k) := by
    rw [hj]
    rfl
  have hnode := (h.fresh j a k hpending).1
  have hmine : s.holds (.inr j) = some a := congrArg (Option.map Prod.fst) hpending
  refine ⟨q ++ [(a, k)], ?_⟩
  unfold Pool.tpoolAddWork
  cases hfirst : s.workFirst with
  | none =>
    have hl := h.listed
    rw [hfirst] at hl
    obtain rfl := hl.eq_nil
    have hlisted : Listed s.heap (some a) ([] ++ [(a, k)]) := ⟨rfl, none, hnode, rfl⟩
    apply Consistent.broadcastWork
    exact h.link hpending hlisted fun _ _ _ => rfl
  | some f =>
    rcases List.eq_nil_or_concat q with rfl | ⟨q₀, ⟨l, x⟩, rfl⟩
    · have hl : s.workFirst = none := h.listed
      rw [hfirst] at hl
      cases hl
    · rw [List.concat_eq_append] at h ⊢
      have hlast : s.workLast = some l := h.last (l, x) (by simp)
      have hapart : ∀ t b, s.holds t = some b → b ≠ l := by
        rintro t b hb rfl
        exact h.apart t b hb (by simp)
      obtain ⟨hget, hlisted⟩ := h.listed.snoc h.distinct hnode (hapart _ a hmine)
      simp only [hlast, hget]
      apply Consistent.broadcastWork
      exact h.link hpending (by rw [← hfirst]; exact hlisted) fun t b hb =>
        Heap.get_set_of_ne s.heap _ (hapart t b hb)

theorem Consistent.tpoolDestroy {s : Pool n m} {q : List (ℕ × Job)} (h : s.Consistent q) {j : Fin m}
    (hj : s.clients j = .idle) : ∃ q', (s.tpoolDestroy j).Consistent q' := by
  obtain ⟨heap, hdrain, hkeep⟩ := h.listed.drain h.distinct (h.listed.length_le h.distinct)
  refine ⟨[], ?_⟩
  unfold Pool.tpoolDestroy
  simp only [hdrain]
  apply Consistent.broadcastWork
  apply (h.discard hkeep).setClient _ rfl
  change clientHolds (s.clients j) = none
  rw [hj]
  rfl

theorem Consistent.workerStep {s : Pool n m} {q : List (ℕ × Job)} (h : s.Consistent q) (i : Fin n)
    (woken : Fin m → Bool) : ∃ q', (s.workerStep i woken).Consistent q' := by
  unfold Pool.workerStep
  cases hi : s.workers i with
  | ready => exact h.takeWork hi woken
  | blocked => exact ⟨q, h⟩
  | exited => exact ⟨q, h⟩
  | running work =>
    refine ⟨q, ?_⟩
    cases work with
    | none => exact h.setWorker (by rw [hi]; rfl) rfl
    | some a =>
      have hheld : workerHolds (s.workers i) = some a := by
        rw [hi]
        rfl
      obtain ⟨work, hget⟩ := Option.isSome_iff_exists.1 (h.allocated (.inl i) a hheld)
      simp only [runWork, hget]
      exact h.run hheld hget
  | reporting =>
    have hnone : workerHolds (s.workers i) = none := by
      rw [hi]
      rfl
    have hsame : ∀ i', workerHolds (Function.update s.workers i .ready i') =
        workerHolds (s.workers i') := workerHolds_update s.workers hnone rfl
    have hready := h.rephase hsame (fun _ => rfl) (s.workingCnt - 1) s.threadCnt s.freed
    refine ⟨q, ?_⟩
    unfold reportWork
    split_ifs
    · exact hready.signalWorking woken
    · exact hready

theorem Consistent.clientStep {s : Pool n m} {q : List (ℕ × Job)} (h : s.Consistent q) (j : Fin m) :
    ∃ q', (s.clientStep j).Consistent q' := by
  unfold Pool.clientStep
  cases hj : s.clients j with
  | idle => exact ⟨q, h⟩
  | blocked destroying => exact ⟨q, h⟩
  | adding a k => exact h.tpoolAddWork hj
  | waiting destroying =>
    have hnone : clientHolds (s.clients j) = none := by
      rw [hj]
      rfl
    refine ⟨q, ?_⟩
    unfold tpoolWait
    split_ifs
    · exact h.setClient hnone rfl
    · exact h.rephase (fun _ => rfl) (clientHolds_update s.clients hnone rfl) _ _ _

theorem Consistent.step {s : Pool n m} {q : List (ℕ × Job)} (h : s.Consistent q)
    (l : PoolLabel n m) : ∃ q', (s.step l).Consistent q' := by
  unfold Pool.step
  by_cases hgone : s.freed ∨ s.crashed
  · rw [if_pos hgone]
    exact ⟨q, h⟩
  rw [if_neg hgone]
  cases l with
  | worker i woken => exact h.workerStep i woken
  | client j => exact h.clientStep j
  | wakeWorker i =>
    simp only
    split_ifs with hi
    · exact ⟨q, h.setWorker (by rw [hi]; rfl) rfl⟩
    · exact ⟨q, h⟩
  | wakeClient j =>
    refine ⟨q, ?_⟩
    apply h.rephase (fun _ => rfl) _ _ _ _
    intro j'
    by_cases hj : j' = j
    · subst hj
      rw [Function.update_self, clientHolds_unblocked]
    · rw [Function.update_of_ne hj]
  | add j a =>
    simp only
    split_ifs with hadd
    · exact ⟨q, h.create (by rw [hadd.1]; rfl) hadd.2⟩
    · exact ⟨q, h⟩
  | wait j =>
    simp only
    split_ifs with hj
    · exact ⟨q, h.setClient (by rw [hj]; rfl) rfl⟩
    · exact ⟨q, h⟩
  | destroy j =>
    simp only
    split_ifs with hj
    · exact h.tpoolDestroy hj
    · exact ⟨q, h⟩

/-- In every reachable state every job handed in is accepted as soon as its client has been in the
critical section, every accepted job is in exactly one place, jobs are taken in the order in which they
were added, and `work_last` is the last node of a non-empty list. -/
theorem jobs_conserved (n m : ℕ) (ls : List (PoolLabel n m)) :
    ∃ q, (run Pool.step (start n m) ls).JobsConserved q := by
  have hrun : ∃ q, (run Pool.step (start n m) ls).Consistent q := by
    apply run_invariant_of_step (I := fun s : Pool n m => ∃ q, s.Consistent q)
    · rintro s l ⟨q, hq⟩
      exact hq.step l
    · exact ⟨[], consistent_start⟩
  obtain ⟨q, hq⟩ := hrun
  exact ⟨q, hq.conserved⟩

end Pool
end Sshnack
