import Sshnack.PoolOwnership

/-!
# What happens to a node

A node is created by a client, linked to the end of the list, taken by a worker, and freed when its
job has run; or it is freed with the rest of the list by `tpool_destroy`. Each of these keeps the
accounts of `Consistent`.
-/

namespace Sshnack

open Linked Machine

namespace Pool

variable {n m : ℕ}

theorem Consistent.take {s : Pool n m} {a : ℕ} {x : Job} {q : List (ℕ × Job)}
    (h : s.Consistent ((a, x) :: q)) {i : Fin n} (hi : workerHolds (s.workers i) = none)
    (hstop : s.stop = false) {first last : Option ℕ} (hlisted : Listed s.heap first q)
    (hlast : ∀ b ∈ q.getLast?, last = some b.1) (working : ℕ) :
    ({ s with
        workFirst := first
        workLast := last
        workingCnt := working
        taken := s.taken ++ [x] }.setWorker i (.running (some a))).Consistent q := by
  have hdistinct : a ∉ q.map Prod.fst ∧ (q.map Prod.fst).Nodup := by
    simpa only [List.map_cons, List.nodup_cons] using h.distinct
  have hfirst : a ∈ ((a, x) :: q).map Prod.fst := by simp
  obtain ⟨next, hget⟩ := h.listed.get (List.mem_cons_self (a := (a, x)) (l := q))
  have hothers : ∀ t, s.holds t ≠ some a := fun t ht => h.apart t a ht hfirst
  refine ⟨h.alive, hlisted, hdistinct.2, hlast, ?_, ?_, ?_, h.fresh, h.separate, h.numbered, h.handed,
    h.once, ?_, ?_, h.running⟩
  · intro t b hb
    rw [holds_setWorker] at hb
    split_ifs at hb
    · cases hb
      exact Option.isSome_iff_exists.2 ⟨_, hget⟩
    · exact h.allocated t b hb
  · intro t b hb
    rw [holds_setWorker] at hb
    split_ifs at hb
    · cases hb
      exact hdistinct.1
    · intro hmem
      exact h.apart t b hb (List.mem_cons_of_mem a hmem)
  · intro t t' b hb hb'
    rw [holds_setWorker] at hb hb'
    split_ifs at hb hb' with ht ht' ht'
    · rw [ht, ht']
    · cases hb
      exact absurd hb' (hothers t')
    · cases hb'
      exact absurd hb (hothers t)
    · exact h.exclusive t t' b hb hb'
  · have horder := h.order
    rw [h.running hstop] at horder
    change s.accepted = s.taken ++ [x] ++ (s.discarded ++ q.map Prod.snd)
    rw [horder, h.running hstop]
    simp
  · have hperm : (jobsIn s.heap (Function.update s.workers i (.running (some a)))).Perm
        (x :: s.runningJobs) := by
      apply jobsIn_perm (i := i) (a := a) (w := ⟨x, next⟩) _ hget hi
      · intro i' hne
        rw [Function.update_of_ne hne]
      · intro _ _ _ _
        rfl
      · rw [Function.update_self]
        rfl
    change (s.taken ++ [x]).Perm (jobsIn s.heap (Function.update s.workers i (.running (some a))) ++
      s.finished)
    apply List.perm_iff_count.2
    intro k
    have hold := h.served.count_eq k
    have hnew := hperm.count_eq k
    simp only [List.count_append, List.count_cons, List.count_nil] at hold hnew ⊢
    omega

theorem Consistent.run {s : Pool n m} {q : List (ℕ × Job)} (h : s.Consistent q) {i : Fin n} {a : ℕ}
    {work : Node Job} (hi : workerHolds (s.workers i) = some a) (hget : s.heap.get a = some work) :
    ({ s with
        heap := s.heap.free a
        finished := s.finished ++ [work.item] }.setWorker i .reporting).Consistent q := by
  have hmine : s.holds (.inl i) = some a := hi
  have hothers : ∀ t b, t ≠ .inl i → s.holds t = some b → b ≠ a := by
    rintro t b ht hb rfl
    exact ht (h.exclusive t _ b hb hmine)
  have hkeep : ∀ t b, t ≠ .inl i → s.holds t = some b → (s.heap.free a).get b = s.heap.get b :=
    fun t b ht hb => Heap.get_free_of_ne s.heap (hothers t b ht hb)
  refine ⟨h.alive, ?_, h.distinct, h.last, ?_, ?_, ?_, ?_, h.separate, h.numbered, h.handed, h.once,
    h.order, ?_, h.running⟩
  · apply h.listed.frame
    intro b hb
    apply Heap.get_free_of_ne
    rintro rfl
    exact h.apart _ b hmine hb
  · intro t b hb
    rw [holds_setWorker] at hb
    split_ifs at hb with ht
    · cases hb
    · change ((s.heap.free a).get b).isSome = true
      rw [hkeep t b ht hb]
      exact h.allocated t b hb
  · intro t b hb
    rw [holds_setWorker] at hb
    split_ifs at hb with ht
    · cases hb
    · exact h.apart t b hb
  · intro t t' b hb hb'
    rw [holds_setWorker] at hb hb'
    split_ifs at hb hb'
    · cases hb
    · cases hb
    · cases hb'
    · exact h.exclusive t t' b hb hb'
  · intro j b k hj
    obtain ⟨hnode, hk, hlt⟩ := h.fresh j b k hj
    have hb : s.holds (.inr j) = some b := congrArg (Option.map Prod.fst) hj
    exact ⟨(hkeep _ b (by simp) hb).trans hnode, hk, hlt⟩
  · have hperm : s.runningJobs.Perm
        (work.item :: jobsIn (s.heap.free a) (Function.update s.workers i .reporting)) := by
      apply jobsIn_perm hi hget
      · rw [Function.update_self]
        rfl
      · intro i' hne
        rw [Function.update_of_ne hne]
      · intro i' b hne hb
        rw [Function.update_of_ne hne] at hb
        exact (hkeep (.inl i') b (by simpa using hne) hb).symm
    change s.taken.Perm (jobsIn (s.heap.free a) (Function.update s.workers i .reporting) ++
      (s.finished ++ [work.item]))
    apply List.perm_iff_count.2
    intro k
    have hold := h.served.count_eq k
    have hnew := hperm.count_eq k
    simp only [List.count_append, List.count_cons, List.count_nil] at hold hnew ⊢
    omega

theorem Consistent.create {s : Pool n m} {q : List (ℕ × Job)} (h : s.Consistent q) {j : Fin m}
    {a : ℕ} (hj : clientHolds (s.clients j) = none) (ha : s.heap.get a = none) :
    (s.tpoolWorkCreate j a).Consistent q := by
  have hused : ∀ b, (s.heap.get b).isSome = true → b ≠ a := by
    rintro b hb rfl
    rw [ha] at hb
    cases hb
  have hkeep : ∀ t b, s.holds t = some b →
      (s.heap.set a ⟨s.created, none⟩).get b = s.heap.get b :=
    fun t b hb => Heap.get_set_of_ne s.heap _ (hused b (h.allocated t b hb))
  have hlist : ∀ b ∈ q.map Prod.fst, b ≠ a := by
    intro b hb
    obtain ⟨⟨c, x⟩, hmem, rfl⟩ := List.mem_map.1 hb
    obtain ⟨next, hget⟩ := h.listed.get hmem
    exact hused c (Option.isSome_iff_exists.2 ⟨_, hget⟩)
  have hclient : ∀ j' b k, j' ≠ j →
      clientHolds ((s.tpoolWorkCreate j a).clients j') = some (b, k) →
      clientHolds (s.clients j') = some (b, k) := by
    intro j' b k hne hb
    simpa only [tpoolWorkCreate, Pool.setClient, Function.update_of_ne hne] using hb
  have hnew : clientHolds ((s.tpoolWorkCreate j a).clients j) = some (a, s.created) := by
    simp only [tpoolWorkCreate, Pool.setClient, Function.update_self]
    rfl
  refine ⟨h.alive, ?_, h.distinct, h.last, ?_, ?_, ?_, ?_, ?_, ?_, ?_, h.once, h.order, ?_,
    h.running⟩
  · apply h.listed.frame
    intro b hb
    exact Heap.get_set_of_ne s.heap _ (hlist b hb)
  · intro t b hb
    rw [tpoolWorkCreate, holds_setClient] at hb
    split_ifs at hb with ht
    · cases hb
      exact Option.isSome_iff_exists.2 ⟨_, Heap.get_set_self s.heap a _⟩
    · change ((s.heap.set a ⟨s.created, none⟩).get b).isSome = true
      rw [hkeep t b hb]
      exact h.allocated t b hb
  · intro t b hb
    rw [tpoolWorkCreate, holds_setClient] at hb
    split_ifs at hb with ht
    · cases hb
      intro hmem
      exact hlist a hmem rfl
    · exact h.apart t b hb
  · intro t t' b hb hb'
    rw [tpoolWorkCreate, holds_setClient] at hb hb'
    split_ifs at hb hb' with ht ht' ht'
    · rw [ht, ht']
    · cases hb
      exact absurd rfl (hused a (h.allocated t' a hb'))
    · cases hb'
      exact absurd rfl (hused a (h.allocated t a hb))
    · exact h.exclusive t t' b hb hb'
  · intro j' b k hb
    by_cases hne : j' = j
    · subst hne
      rw [hnew] at hb
      cases hb
      refine ⟨Heap.get_set_self s.heap a _, ?_, Nat.lt_succ_self _⟩
      intro hmem
      exact absurd (h.numbered _ hmem) (Nat.lt_irrefl _)
    · have hb' := hclient j' b k hne hb
      obtain ⟨hnode, hk, hlt⟩ := h.fresh j' b k hb'
      have hheld : s.holds (.inr j') = some b := congrArg (Option.map Prod.fst) hb'
      exact ⟨(hkeep _ b hheld).trans hnode, hk, Nat.lt_succ_of_lt hlt⟩
  · intro j₁ j₂ b₁ b₂ k h₁ h₂
    by_cases hne₁ : j₁ = j <;> by_cases hne₂ : j₂ = j
    · rw [hne₁, hne₂]
    · subst hne₁
      rw [hnew] at h₁
      cases h₁
      have hlt := (h.fresh j₂ b₂ _ (hclient j₂ b₂ _ hne₂ h₂)).2.2
      exact absurd hlt (Nat.lt_irrefl _)
    · subst hne₂
      rw [hnew] at h₂
      cases h₂
      have hlt := (h.fresh j₁ b₁ _ (hclient j₁ b₁ _ hne₁ h₁)).2.2
      exact absurd hlt (Nat.lt_irrefl _)
    · exact h.separate j₁ j₂ b₁ b₂ k (hclient _ _ _ hne₁ h₁) (hclient _ _ _ hne₂ h₂)
  · intro k hk
    exact Nat.lt_succ_of_lt (h.numbered k hk)
  · intro k hk
    rcases Nat.lt_succ_iff_lt_or_eq.1 hk with hlt | rfl
    · refine (h.handed k hlt).imp_left ?_
      rintro ⟨j', b, hb⟩
      have hne : j' ≠ j := by
        rintro rfl
        rw [hj] at hb
        cases hb
      refine ⟨j', b, ?_⟩
      simpa only [tpoolWorkCreate, Pool.setClient, Function.update_of_ne hne] using hb
    · exact .inl ⟨j, a, hnew⟩
  · have hjobs : (s.tpoolWorkCreate j a).runningJobs = s.runningJobs :=
      jobsIn_congr (fun _ => rfl) fun i b hb => hkeep (.inl i) b hb
    rw [hjobs]
    exact h.served

theorem Consistent.link {s : Pool n m} {q : List (ℕ × Job)} (h : s.Consistent q) {j : Fin m} {a : ℕ}
    {k : Job} (hj : clientHolds (s.clients j) = some (a, k)) {heap : Heap Job} {first : Option ℕ}
    (hlisted : Listed heap first (q ++ [(a, k)]))
    (hkeep : ∀ t b, s.holds t = some b → heap.get b = s.heap.get b) :
    ({ s with
        heap := heap
        workFirst := first
        workLast := some a
        accepted := s.accepted ++ [k] }.setClient j .idle).Consistent (q ++ [(a, k)]) := by
  have hmine : s.holds (.inr j) = some a := congrArg (Option.map Prod.fst) hj
  have hclient : ∀ j' b k', clientHolds (Function.update s.clients j .idle j') = some (b, k') →
      j' ≠ j ∧ clientHolds (s.clients j') = some (b, k') := by
    intro j' b k' hb
    by_cases hne : j' = j
    · subst hne
      rw [Function.update_self] at hb
      cases hb
    · rw [Function.update_of_ne hne] at hb
      exact ⟨hne, hb⟩
  obtain ⟨_, hfresh, hlt⟩ := h.fresh j a k hj
  refine ⟨h.alive, hlisted, ?_, ?_, ?_, ?_, ?_, ?_, ?_, ?_, ?_, ?_, ?_, ?_, h.running⟩
  · rw [List.map_append]
    apply h.distinct.append (List.nodup_singleton a)
    exact List.disjoint_singleton.2 (h.apart _ a hmine)
  · intro b hb
    rw [List.getLast?_append, List.getLast?_singleton, Option.some_or, Option.mem_some_iff] at hb
    rw [← hb]
    rfl
  · intro t b hb
    rw [holds_setClient] at hb
    split_ifs at hb
    · cases hb
    · change (heap.get b).isSome = true
      rw [hkeep t b hb]
      exact h.allocated t b hb
  · intro t b hb
    rw [holds_setClient] at hb
    split_ifs at hb with ht
    · cases hb
    · rw [List.map_append, List.mem_append, not_or]
      refine ⟨h.apart t b hb, ?_⟩
      intro hmem
      obtain rfl : b = a := List.mem_singleton.1 hmem
      exact ht (h.exclusive t _ b hb hmine)
  · intro t t' b hb hb'
    rw [holds_setClient] at hb hb'
    split_ifs at hb hb'
    · cases hb
    · cases hb
    · cases hb'
    · exact h.exclusive t t' b hb hb'
  · intro j' b k' hb
    obtain ⟨hne, hb'⟩ := hclient j' b k' hb
    obtain ⟨hnode, hk', hlt'⟩ := h.fresh j' b k' hb'
    have hheld : s.holds (.inr j') = some b := congrArg (Option.map Prod.fst) hb'
    refine ⟨(hkeep _ b hheld).trans hnode, ?_, hlt'⟩
    intro hmem
    rcases List.mem_append.1 hmem with hold | hnew
    · exact hk' hold
    · obtain rfl : k' = k := List.mem_singleton.1 hnew
      exact hne (h.separate j' j b a k' hb' hj)
  · intro j₁ j₂ b₁ b₂ k' h₁ h₂
    exact h.separate j₁ j₂ b₁ b₂ k' (hclient _ _ _ h₁).2 (hclient _ _ _ h₂).2
  · intro k' hk'
    rcases List.mem_append.1 hk' with hold | hnew
    · exact h.numbered k' hold
    · rw [List.mem_singleton.1 hnew]
      exact hlt
  · intro k' hk'
    rcases h.handed k' hk' with ⟨j', b, hb⟩ | hold
    · by_cases hne : j' = j
      · subst hne
        rw [hj] at hb
        cases hb
        exact .inr (List.mem_append_right _ (List.mem_singleton_self k))
      · refine .inl ⟨j', b, ?_⟩
        simpa only [Pool.setClient, Function.update_of_ne hne] using hb
    · exact .inr (List.mem_append_left _ hold)
  · exact h.once.append (List.nodup_singleton k) (List.disjoint_singleton.2 hfresh)
  · change s.accepted ++ [k] = s.taken ++ (s.discarded ++ (q ++ [(a, k)]).map Prod.snd)
    rw [h.order]
    simp
  · have hjobs : jobsIn heap s.workers = s.runningJobs :=
      jobsIn_congr (fun _ => rfl) fun i b hb => hkeep (.inl i) b hb
    change s.taken.Perm (jobsIn heap s.workers ++ s.finished)
    rw [hjobs]
    exact h.served

/-- `tpool_destroy` frees every node of the list. -/
theorem Consistent.discard {s : Pool n m} {q : List (ℕ × Job)} (h : s.Consistent q) {heap : Heap Job}
    (hkeep : ∀ a, a ∉ q.map Prod.fst → heap.get a = s.heap.get a) :
    ({ s with
        heap := heap
        workFirst := none
        stop := true
        discarded := s.discarded ++ q.map Prod.snd } : Pool n m).Consistent [] := by
  have hheld : ∀ t b, s.holds t = some b → heap.get b = s.heap.get b :=
    fun t b hb => hkeep b (h.apart t b hb)
  refine ⟨h.alive, rfl, List.nodup_nil, fun b hb => (by cases hb), ?_, ?_, h.exclusive, ?_, h.separate,
    h.numbered, h.handed, h.once, ?_, ?_, fun hstop => (by cases hstop)⟩
  · intro t b hb
    change (heap.get b).isSome = true
    rw [hheld t b hb]
    exact h.allocated t b hb
  · intro t b _ hmem
    cases hmem
  · intro j b k hj
    obtain ⟨hnode, hrest⟩ := h.fresh j b k hj
    have hb : s.holds (.inr j) = some b := congrArg (Option.map Prod.fst) hj
    exact ⟨(hheld _ b hb).trans hnode, hrest⟩
  · change s.accepted = s.taken ++ (s.discarded ++ q.map Prod.snd ++ [])
    rw [List.append_nil]
    exact h.order
  · have hjobs : jobsIn heap s.workers = s.runningJobs :=
      jobsIn_congr (fun _ => rfl) fun i b hb => hheld (.inl i) b hb
    change s.taken.Perm (jobsIn heap s.workers ++ s.finished)
    rw [hjobs]
    exact h.served

end Pool
end Sshnack
