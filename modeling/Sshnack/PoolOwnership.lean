import Sshnack.ThreadPool

/-!
# Who holds which node of the thread pool

A node belongs to the list of the pool or to one thread: the client that created it until it is
linked, the worker that took it until it is freed (`holds`). `Consistent s q` says this of a pool whose
list has the nodes `q`, and accounts for the accepted jobs in order: first the taken ones, then the
discarded ones, then those in the list.
-/

namespace Sshnack

open Linked Machine

theorem filterMap_perm_cons {ι β : Type} {l : List ι} (hl : l.Nodup) {i : ι} (hi : i ∈ l)
    {f g : ι → Option β} (hother : ∀ j, j ≠ i → f j = g j) {b : β} (hf : f i = some b)
    (hg : g i = none) : (l.filterMap f).Perm (b :: l.filterMap g) := by
  induction l with
  | nil => cases hi
  | cons x l ih =>
    rw [List.nodup_cons] at hl
    by_cases hx : x = i
    · subst hx
      have hrest : l.filterMap f = l.filterMap g := by
        apply List.filterMap_congr
        intro j hj
        apply hother
        rintro rfl
        exact hl.1 hj
      rw [List.filterMap_cons_some hf, List.filterMap_cons_none hg, hrest]
    · have hi' : i ∈ l := (List.mem_cons.1 hi).resolve_left fun he => hx he.symm
      have hih := ih hl.2 hi'
      have hfx := hother x hx
      cases hgx : g x with
      | none =>
        rw [List.filterMap_cons_none (hfx.trans hgx), List.filterMap_cons_none hgx]
        exact hih
      | some c =>
        rw [List.filterMap_cons_some (hfx.trans hgx), List.filterMap_cons_some hgx]
        exact (hih.cons c).trans (List.Perm.swap b c _)

namespace Pool

variable {n m : ℕ}

def workerHolds : WorkerPhase → Option ℕ
  | .running work => work
  | _ => none

def clientHolds : ClientPhase → Option (ℕ × Job)
  | .adding a job => some (a, job)
  | _ => none

/-- The node that a thread holds. -/
def holds (s : Pool n m) : Fin n ⊕ Fin m → Option ℕ
  | .inl i => workerHolds (s.workers i)
  | .inr j => (clientHolds (s.clients j)).map Prod.fst

/-- The job that a worker in this phase is running. -/
def jobIn (h : Heap Job) (phase : WorkerPhase) : Option Job :=
  ((workerHolds phase).bind h.get).map Node.item

def jobsIn (h : Heap Job) (workers : Fin n → WorkerPhase) : List Job :=
  (List.finRange n).filterMap fun i => jobIn h (workers i)

def runningJobs (s : Pool n m) : List Job := jobsIn s.heap s.workers

/-- The list reachable from `work_first` has the nodes `q` and `work_last` is its last node; every job
that was handed in is accepted, or its client is still before the critical section; every accepted job
is exactly once in the list, run by a worker, finished or discarded; and the taken jobs are the first
accepted ones, in order. -/
structure JobsConserved (s : Pool n m) (q : List (ℕ × Job)) : Prop where
  alive : s.crashed = false
  listed : Listed s.heap s.workFirst q
  last : s.workFirst ≠ none → s.workLast = q.getLast?.map Prod.fst
  handed : ∀ k, k < s.created ↔ (∃ j a, s.clients j = .adding a k) ∨ k ∈ s.accepted
  pending : ∀ j a k, s.clients j = .adding a k → k ∉ s.accepted
  once : s.accepted.Nodup
  placed : s.accepted.Perm (q.map Prod.snd ++ s.runningJobs ++ s.finished ++ s.discarded)
  served : s.taken.Perm (s.runningJobs ++ s.finished)
  order : s.taken <+: s.accepted

structure Consistent (s : Pool n m) (q : List (ℕ × Job)) : Prop where
  alive : s.crashed = false
  listed : Listed s.heap s.workFirst q
  distinct : (q.map Prod.fst).Nodup
  last : ∀ b ∈ q.getLast?, s.workLast = some b.1
  allocated : ∀ t a, s.holds t = some a → (s.heap.get a).isSome = true
  apart : ∀ t a, s.holds t = some a → a ∉ q.map Prod.fst
  exclusive : ∀ t t' a, s.holds t = some a → s.holds t' = some a → t = t'
  fresh : ∀ j a k, clientHolds (s.clients j) = some (a, k) →
    s.heap.get a = some ⟨k, none⟩ ∧ k ∉ s.accepted ∧ k < s.created
  separate : ∀ j j' a a' k, clientHolds (s.clients j) = some (a, k) →
    clientHolds (s.clients j') = some (a', k) → j = j'
  numbered : ∀ k ∈ s.accepted, k < s.created
  handed : ∀ k < s.created, (∃ j a, clientHolds (s.clients j) = some (a, k)) ∨ k ∈ s.accepted
  once : s.accepted.Nodup
  order : s.accepted = s.taken ++ (s.discarded ++ q.map Prod.snd)
  served : s.taken.Perm (s.runningJobs ++ s.finished)
  running : s.stop = false → s.discarded = []

theorem consistent_start : (start n m).Consistent [] where
  alive := rfl
  listed := rfl
  distinct := List.nodup_nil
  last b hb := by cases hb
  allocated t a ha := by cases t <;> cases ha
  apart t a ha := by cases t <;> cases ha
  exclusive t t' a ha := by cases t <;> cases ha
  fresh j a k hj := by cases hj
  separate j j' a a' k hj := by cases hj
  numbered k hk := by cases hk
  handed k hk := by cases hk
  once := List.nodup_nil
  order := rfl
  served := by
    have hnone : (start n m).runningJobs = [] := by
      apply List.filterMap_eq_nil_iff.2
      intro i _
      rfl
    rw [hnone]
    exact List.Perm.refl []
  running _ := rfl

theorem clientHolds_eq_some {phase : ClientPhase} {a : ℕ} {k : Job} :
    clientHolds phase = some (a, k) ↔ phase = .adding a k := by
  cases phase <;> simp [clientHolds]

theorem Consistent.conserved {s : Pool n m} {q : List (ℕ × Job)} (h : s.Consistent q) :
    s.JobsConserved q where
  alive := h.alive
  listed := h.listed
  last hne := by
    cases hq : q.getLast? with
    | none =>
      have hnil := List.getLast?_eq_none_iff.1 hq
      have hl := h.listed
      rw [hnil] at hl
      exact absurd hl hne
    | some b => exact h.last b hq
  handed k := by
    constructor
    · simpa only [clientHolds_eq_some] using h.handed k
    · rintro (⟨j, a, hj⟩ | hk)
      · exact (h.fresh j a k (clientHolds_eq_some.2 hj)).2.2
      · exact h.numbered k hk
  pending j a k hj := (h.fresh j a k (clientHolds_eq_some.2 hj)).2.1
  once := h.once
  placed := by
    apply List.perm_iff_count.2
    intro k
    have hserved := h.served.count_eq k
    rw [h.order]
    simp only [List.count_append] at hserved ⊢
    omega
  served := h.served
  order := ⟨_, h.order.symm⟩

theorem jobIn_of_none (h : Heap Job) {phase : WorkerPhase} (hphase : workerHolds phase = none) :
    jobIn h phase = none := by
  simp only [jobIn, hphase, Option.bind_none, Option.map_none]

theorem jobIn_of_some {h : Heap Job} {phase : WorkerPhase} {a : ℕ} {work : Node Job}
    (hphase : workerHolds phase = some a) (hget : h.get a = some work) :
    jobIn h phase = some work.item := by
  simp only [jobIn, hphase, Option.bind_some, hget, Option.map_some]

theorem jobIn_congr {h h' : Heap Job} {phase phase' : WorkerPhase}
    (hphase : workerHolds phase' = workerHolds phase)
    (hget : ∀ a, workerHolds phase = some a → h'.get a = h.get a) :
    jobIn h' phase' = jobIn h phase := by
  unfold jobIn
  rw [hphase]
  cases hp : workerHolds phase with
  | none => rfl
  | some a => simp only [Option.bind_some, hget a hp]

/-- The jobs being run are the same if no worker changed its node and no node of a worker changed. -/
theorem jobsIn_congr {h h' : Heap Job} {workers workers' : Fin n → WorkerPhase}
    (hworkers : ∀ i, workerHolds (workers' i) = workerHolds (workers i))
    (hget : ∀ i a, workerHolds (workers i) = some a → h'.get a = h.get a) :
    jobsIn h' workers' = jobsIn h workers := by
  apply List.filterMap_congr
  intro i _
  exact jobIn_congr (hworkers i) (hget i)

/-- One worker goes from holding no node to holding one, or back; the others keep theirs. -/
theorem jobsIn_perm {h h' : Heap Job} {workers workers' : Fin n → WorkerPhase} {i : Fin n} {a : ℕ}
    {w : Node Job} (hi : workerHolds (workers i) = some a) (hwork : h.get a = some w)
    (hi' : workerHolds (workers' i) = none)
    (hworkers : ∀ i', i' ≠ i → workerHolds (workers i') = workerHolds (workers' i'))
    (hget : ∀ i' b, i' ≠ i → workerHolds (workers' i') = some b → h.get b = h'.get b) :
    (jobsIn h workers).Perm (w.item :: jobsIn h' workers') := by
  apply filterMap_perm_cons (List.nodup_finRange n) (List.mem_finRange i)
  · intro i' hne
    exact jobIn_congr (hworkers i' hne) fun b hb => hget i' b hne hb
  · exact jobIn_of_some hi hwork
  · exact jobIn_of_none h' hi'

theorem holds_setWorker (s : Pool n m) (i : Fin n) (phase : WorkerPhase) (t : Fin n ⊕ Fin m) :
    (s.setWorker i phase).holds t = if t = .inl i then workerHolds phase else s.holds t := by
  cases t with
  | inl i' =>
    by_cases hi : i' = i
    · subst hi
      simp [holds, setWorker]
    · simp [holds, setWorker, hi]
  | inr j => rfl

theorem holds_setClient (s : Pool n m) (j : Fin m) (phase : ClientPhase) (t : Fin n ⊕ Fin m) :
    (s.setClient j phase).holds t =
      if t = .inr j then (clientHolds phase).map Prod.fst else s.holds t := by
  cases t with
  | inl i => rfl
  | inr j' =>
    by_cases hj : j' = j
    · subst hj
      simp [holds, setClient]
    · simp [holds, setClient, hj]

def rephase (s : Pool n m) (workers : Fin n → WorkerPhase) (clients : Fin m → ClientPhase)
    (working threads : ℕ) (freed : Bool) : Pool n m :=
  { s with
    workers := workers
    clients := clients
    workingCnt := working
    threadCnt := threads
    freed := freed }

/-- Only phases in which no node is held change, and counters. -/
theorem Consistent.rephase {s : Pool n m} {q : List (ℕ × Job)} (h : s.Consistent q)
    {workers : Fin n → WorkerPhase} {clients : Fin m → ClientPhase}
    (hw : ∀ i, workerHolds (workers i) = workerHolds (s.workers i))
    (hc : ∀ j, clientHolds (clients j) = clientHolds (s.clients j)) (working threads : ℕ)
    (freed : Bool) : (s.rephase workers clients working threads freed).Consistent q := by
  have hholds : ∀ t, (s.rephase workers clients working threads freed).holds t = s.holds t := by
    intro t
    cases t with
    | inl i => exact hw i
    | inr j => exact congrArg (Option.map Prod.fst) (hc j)
  have hjobs : (s.rephase workers clients working threads freed).runningJobs = s.runningJobs := by
    exact jobsIn_congr hw fun _ _ _ => rfl
  refine ⟨h.alive, h.listed, h.distinct, h.last, ?_, ?_, ?_, ?_, ?_, h.numbered, ?_, h.once, h.order,
    ?_, h.running⟩
  · intro t a ha
    rw [hholds] at ha
    exact h.allocated t a ha
  · intro t a ha
    rw [hholds] at ha
    exact h.apart t a ha
  · intro t t' a ha ha'
    rw [hholds] at ha ha'
    exact h.exclusive t t' a ha ha'
  · intro j a k hj
    simp only [Pool.rephase, hc] at hj
    exact h.fresh j a k hj
  · intro j j' a a' k hj hj'
    simp only [Pool.rephase, hc] at hj hj'
    exact h.separate j j' a a' k hj hj'
  · intro k hk
    simp only [Pool.rephase, hc]
    exact h.handed k hk
  · rw [hjobs]
    exact h.served

theorem workerHolds_update (f : Fin n → WorkerPhase) {i : Fin n} {phase : WorkerPhase}
    (hold : workerHolds (f i) = none) (hnew : workerHolds phase = none) (i' : Fin n) :
    workerHolds (Function.update f i phase i') = workerHolds (f i') := by
  by_cases hi : i' = i
  · subst hi
    rw [Function.update_self, hold, hnew]
  · rw [Function.update_of_ne hi]

theorem clientHolds_update (f : Fin m → ClientPhase) {j : Fin m} {phase : ClientPhase}
    (hold : clientHolds (f j) = none) (hnew : clientHolds phase = none) (j' : Fin m) :
    clientHolds (Function.update f j phase j') = clientHolds (f j') := by
  by_cases hj : j' = j
  · subst hj
    rw [Function.update_self, hold, hnew]
  · rw [Function.update_of_ne hj]

theorem clientHolds_unblocked (phase : ClientPhase) :
    clientHolds (unblocked phase) = clientHolds phase := by
  cases phase <;> rfl

theorem Consistent.setWorker {s : Pool n m} {q : List (ℕ × Job)} (h : s.Consistent q) {i : Fin n}
    {phase : WorkerPhase} (hold : workerHolds (s.workers i) = none)
    (hnew : workerHolds phase = none) : (s.setWorker i phase).Consistent q :=
  h.rephase (workerHolds_update s.workers hold hnew) (fun _ => rfl) _ _ _

theorem Consistent.setClient {s : Pool n m} {q : List (ℕ × Job)} (h : s.Consistent q) {j : Fin m}
    {phase : ClientPhase} (hold : clientHolds (s.clients j) = none)
    (hnew : clientHolds phase = none) : (s.setClient j phase).Consistent q :=
  h.rephase (fun _ => rfl) (clientHolds_update s.clients hold hnew) _ _ _

theorem Consistent.broadcastWork {s : Pool n m} {q : List (ℕ × Job)} (h : s.Consistent q) :
    s.broadcastWork.Consistent q := by
  apply h.rephase _ (fun _ => rfl) _ _ _
  intro i
  by_cases hi : s.workers i = .blocked
  · rw [if_pos hi, hi]
    rfl
  · rw [if_neg hi]

theorem Consistent.signalWorking {s : Pool n m} {q : List (ℕ × Job)} (h : s.Consistent q)
    (woken : Fin m → Bool) : (s.signalWorking woken).Consistent q := by
  apply h.rephase (fun _ => rfl) _ _ _ _
  intro j
  rw [apply_ite clientHolds, clientHolds_unblocked, ite_self]

end Pool
end Sshnack
