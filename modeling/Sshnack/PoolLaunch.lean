import Sshnack.JobConservation

/-!
# Starting the threads of the pool

`tpool_create` starts the workers one by one; those already started run meanwhile. When
`pthread_create` fails it corrects `thread_cnt` without the lock and calls `tpool_destroy` itself. A
worker that was not started yet is in its first phase and never moves. One thread calls `tpool_create`
and, once it has returned the pool, `tpool_add_work`, `tpool_wait` and `tpool_destroy` in any order.
-/

namespace Sshnack

open Linked Machine

inductive LaunchPhase where
  | creating
  | created
  | failed
  deriving DecidableEq

structure Launch (n : ℕ) where
  pool : Pool n 1
  threads : ℕ
  phase : LaunchPhase

inductive LaunchLabel (n : ℕ) where
  | create (ok : Bool)
  | thread (l : PoolLabel n 1)

namespace Launch

variable {n : ℕ}

/-- The allocated pool, before the loop of `tpool_create`. -/
def init (n : ℕ) : Launch n where
  pool := Pool.start n 1
  threads := 0
  phase := .creating

/-- One round of the loop of `tpool_create`; `ok` is the outcome of `pthread_create`. -/
def tpoolCreate (s : Launch n) (ok : Bool) : Launch n :=
  if s.threads < n then
    if ok then { s with threads := s.threads + 1 }
    else { s with pool := { s.pool with threadCnt := s.threads }, phase := .failed }
  else { s with phase := .created }

def enabled (s : Launch n) : PoolLabel n 1 → Bool
  | .worker i _ => decide (i.val < s.threads)
  | .wakeWorker i => decide (i.val < s.threads)
  | .client _ => true
  | .wakeClient _ => true
  | .add _ _ => decide (s.phase = .created)
  | .wait _ => decide (s.phase = .created)
  | .destroy _ => decide (s.phase ≠ .creating)

def step (s : Launch n) : LaunchLabel n → Launch n
  | .create ok => if s.phase = .creating then s.tpoolCreate ok else s
  | .thread l => if s.enabled l then { s with pool := s.pool.step l } else s

end Launch

namespace Pool

variable {n m : ℕ}

/-- Every way in which a step can change the pool. -/
inductive Move (s : Pool n m) : PoolLabel n m → Pool n m → Prop where
  | stay {l} : Move s l s
  | crash {l} : Move s l s.crash
  | block {i woken} (hi : s.workers i = .ready) (hempty : s.workFirst = none)
      (hstop : s.stop = false) : Move s (.worker i woken) (s.setWorker i .blocked)
  | exit {i woken} (hi : s.workers i = .ready) (hstop : s.stop = true) :
      Move s (.worker i woken)
        (({ s with threadCnt := s.threadCnt - 1 }.setWorker i .exited).signalWorking woken)
  | take {i woken work first last taken} (hi : s.workers i = .ready) (hfirst : s.workFirst ≠ none)
      (hstop : s.stop = false) :
      Move s (.worker i woken)
        ({ s with
          workFirst := first
          workLast := last
          workingCnt := s.workingCnt + 1
          taken := taken }.setWorker i (.running work))
  | run {i woken work heap finished} (hi : s.workers i = .running work) :
      Move s (.worker i woken)
        ({ s with heap := heap, finished := finished }.setWorker i .reporting)
  | report {i woken} (hi : s.workers i = .reporting) (hstop : s.stop = false)
      (hlast : s.workingCnt - 1 = 0) (hempty : s.workFirst = none) :
      Move s (.worker i woken)
        (({ s with workingCnt := s.workingCnt - 1 }.setWorker i .ready).signalWorking woken)
  | reportQuietly {i woken} (hi : s.workers i = .reporting)
      (hquiet : ¬ (s.stop = false ∧ s.workingCnt - 1 = 0 ∧ s.workFirst = none)) :
      Move s (.worker i woken) ({ s with workingCnt := s.workingCnt - 1 }.setWorker i .ready)
  | wakeWorker {i} (hi : s.workers i = .blocked) :
      Move s (.wakeWorker i) (s.setWorker i .ready)
  | wakeClient {j} : Move s (.wakeClient j) (s.setClient j (unblocked (s.clients j)))
  | create {j a} (hj : s.clients j = .idle) : Move s (.add j a) (s.tpoolWorkCreate j a)
  | link {j a job heap first last} (hj : s.clients j = .adding a job) (hfirst : first ≠ none) :
      Move s (.client j)
        (({ s with
          heap := heap
          workFirst := first
          workLast := last
          accepted := s.accepted ++ [job] }.setClient j .idle).broadcastWork)
  | callWait {j} (hj : s.clients j = .idle) : Move s (.wait j) (s.setClient j (.waiting false))
  | sleep {j destroying} (hj : s.clients j = .waiting destroying)
      (hwait : s.workFirst ≠ none ∨ (s.stop = false ∧ s.workingCnt ≠ 0) ∨
        (s.stop = true ∧ s.threadCnt ≠ 0)) :
      Move s (.client j) (s.setClient j (.blocked destroying))
  | waited {j destroying} (hj : s.clients j = .waiting destroying)
      (hdone : ¬ (s.workFirst ≠ none ∨ (s.stop = false ∧ s.workingCnt ≠ 0) ∨
        (s.stop = true ∧ s.threadCnt ≠ 0))) :
      Move s (.client j) ({ s with freed := destroying }.setClient j .idle)
  | destroy {j heap jobs} (hj : s.clients j = .idle)
      (hdrain : drain s.heap.length s.heap s.workFirst = some (heap, jobs)) :
      Move s (.destroy j)
        (({ s with
          heap := heap
          workFirst := none
          stop := true
          discarded := s.discarded ++ jobs }.setClient j (.waiting true)).broadcastWork)

theorem takeWork_move (s : Pool n m) {i : Fin n} (hi : s.workers i = .ready)
    (woken : Fin m → Bool) : Move s (.worker i woken) (s.takeWork i woken) := by
  unfold takeWork
  split_ifs with hwait hstop
  · exact .block hi hwait.1 hwait.2
  · exact .exit hi hstop
  · have hgo : s.stop = false := by simpa using hstop
    have hfirst : s.workFirst ≠ none := fun hnone => hwait ⟨hnone, hgo⟩
    cases s.tpoolWorkGet with
    | none => exact .crash
    | some got => exact .take hi hfirst hgo

theorem runWork_move (s : Pool n m) {i : Fin n} {work : Option ℕ}
    (hi : s.workers i = .running work) (woken : Fin m → Bool) :
    Move s (.worker i woken) (s.runWork i work) := by
  cases work with
  | none => exact .run hi
  | some a =>
    simp only [runWork]
    cases s.heap.get a with
    | none => exact .crash
    | some work => exact .run hi

theorem reportWork_move (s : Pool n m) {i : Fin n} (hi : s.workers i = .reporting)
    (woken : Fin m → Bool) : Move s (.worker i woken) (s.reportWork i woken) := by
  unfold reportWork
  split_ifs with hsignal
  · exact .report hi hsignal.1 hsignal.2.1 hsignal.2.2
  · exact .reportQuietly hi hsignal

theorem tpoolAddWork_move (s : Pool n m) {j : Fin m} {a : ℕ} {job : Job}
    (hj : s.clients j = .adding a job) : Move s (.client j) (s.tpoolAddWork j a job) := by
  unfold tpoolAddWork
  cases hfirst : s.workFirst with
  | none => exact .link hj (Option.some_ne_none a)
  | some first =>
    cases hlast : s.workLast with
    | none => exact .crash
    | some last =>
      simp only
      cases s.heap.get last with
      | none => exact .crash
      | some work => exact .link hj (Option.some_ne_none first)

theorem step_move (s : Pool n m) (l : PoolLabel n m) : Move s l (s.step l) := by
  unfold step
  by_cases hgone : s.freed ∨ s.crashed
  · rw [if_pos hgone]
    exact .stay
  rw [if_neg hgone]
  cases l with
  | worker i woken =>
    simp only [workerStep]
    cases hi : s.workers i with
    | ready => exact s.takeWork_move hi woken
    | blocked => exact .stay
    | running work => exact s.runWork_move hi woken
    | reporting => exact s.reportWork_move hi woken
    | exited => exact .stay
  | wakeWorker i =>
    simp only
    split_ifs with hi
    · exact .wakeWorker hi
    · exact .stay
  | client j =>
    simp only [clientStep]
    cases hj : s.clients j with
    | idle => exact .stay
    | adding a job => exact s.tpoolAddWork_move hj
    | waiting destroying =>
      simp only [tpoolWait]
      split_ifs with hwait
      · exact .sleep hj hwait
      · exact .waited hj hwait
    | blocked destroying => exact .stay
  | wakeClient j => exact .wakeClient
  | add j a =>
    simp only
    split_ifs with hadd
    · exact .create hadd.1
    · exact .stay
  | wait j =>
    simp only
    split_ifs with hj
    · exact .callWait hj
    · exact .stay
  | destroy j =>
    simp only
    split_ifs with hj
    · unfold tpoolDestroy
      cases hdrain : drain s.heap.length s.heap s.workFirst with
      | none => exact .crash
      | some drained => exact .destroy hj hdrain
    · exact .stay

end Pool
end Sshnack
