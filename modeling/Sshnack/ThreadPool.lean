import Sshnack.LinkedHeap
import Sshnack.Machine

/-!
# The thread pool

Each critical section of `work_mutex` is one step, and so is what a thread does between two of them:
creating a node, or running a job and freeing its node. A label names the thread that moves, with the
address `malloc` returns or the waiters that a signal wakes; a blocked thread may also wake up
spuriously. `n` workers and `m` other threads share the pool, and any of the others may call
`tpool_add_work`, `tpool_wait` and `tpool_destroy`, each any number of times.

Jobs are numbered in the order in which their nodes are created. `accepted`, `taken`, `finished` and
`discarded` record what happens to them; no step depends on these lists. Dereferencing NULL or a freed
node sets `crashed`. After `tpool_destroy` has freed the pool no thread can use it.
-/

namespace Sshnack

open Linked

abbrev Job := ℕ

inductive WorkerPhase where
  | ready
  | blocked
  | running (work : Option ℕ)
  | reporting
  | exited
  deriving DecidableEq

inductive ClientPhase where
  | idle
  | adding (work : ℕ) (job : Job)
  | waiting (destroying : Bool)
  | blocked (destroying : Bool)
  deriving DecidableEq

structure Pool (n m : ℕ) where
  heap : Heap Job
  workFirst : Option ℕ
  workLast : Option ℕ
  workingCnt : ℕ
  threadCnt : ℕ
  stop : Bool
  freed : Bool
  crashed : Bool
  workers : Fin n → WorkerPhase
  clients : Fin m → ClientPhase
  created : ℕ
  accepted : List Job
  taken : List Job
  finished : List Job
  discarded : List Job

inductive PoolLabel (n m : ℕ) where
  | worker (i : Fin n) (woken : Fin m → Bool)
  | wakeWorker (i : Fin n)
  | client (j : Fin m)
  | wakeClient (j : Fin m)
  | add (j : Fin m) (address : ℕ)
  | wait (j : Fin m)
  | destroy (j : Fin m)

namespace Pool

variable {n m : ℕ}

/-- `tpool_create(n)`, with every thread started. -/
def start (n m : ℕ) : Pool n m where
  heap := []
  workFirst := none
  workLast := none
  workingCnt := 0
  threadCnt := n
  stop := false
  freed := false
  crashed := false
  workers _ := .ready
  clients _ := .idle
  created := 0
  accepted := []
  taken := []
  finished := []
  discarded := []

def setWorker (s : Pool n m) (i : Fin n) (phase : WorkerPhase) : Pool n m :=
  { s with workers := Function.update s.workers i phase }

def setClient (s : Pool n m) (j : Fin m) (phase : ClientPhase) : Pool n m :=
  { s with clients := Function.update s.clients j phase }

/-- `pthread_cond_broadcast(&work_cond)`. -/
def broadcastWork (s : Pool n m) : Pool n m :=
  { s with workers := fun i => if s.workers i = .blocked then .ready else s.workers i }

def isBlocked : ClientPhase → Bool
  | .blocked _ => true
  | _ => false

def unblocked : ClientPhase → ClientPhase
  | .blocked destroying => .waiting destroying
  | phase => phase

/-- `pthread_cond_signal(&working_cond)`: at least one blocked thread wakes up, if there is one. -/
def signalWorking (s : Pool n m) (woken : Fin m → Bool) : Pool n m :=
  { s with clients := fun j =>
      if woken j = true ∨ ¬ ∃ j', isBlocked (s.clients j') = true ∧ woken j' = true then
        unblocked (s.clients j)
      else s.clients j }

def crash (s : Pool n m) : Pool n m := { s with crashed := true }

/-- `tpool_work_get`: the node it returns, with `work_first` and `work_last` after it. -/
def tpoolWorkGet (s : Pool n m) : Option (Option ℕ × Option ℕ × Option ℕ) :=
  match s.workFirst with
  | none => some (none, none, s.workLast)
  | some a => (s.heap.get a).map fun work =>
      match work.next with
      | none => (some a, none, none)
      | some b => (some a, some b, s.workLast)

/-- The item of the node at an address, if there is one. -/
def jobAt (h : Heap Job) (work : Option ℕ) : List Job :=
  ((work.bind h.get).map Node.item).toList

/-- The critical section at the head of the loop of `tpool_worker`. -/
def takeWork (s : Pool n m) (i : Fin n) (woken : Fin m → Bool) : Pool n m :=
  if s.workFirst = none ∧ s.stop = false then s.setWorker i .blocked
  else if s.stop then
    ({ s with threadCnt := s.threadCnt - 1 }.setWorker i .exited).signalWorking woken
  else match s.tpoolWorkGet with
    | none => s.crash
    | some (work, first, last) =>
      { s with
        workFirst := first
        workLast := last
        workingCnt := s.workingCnt + 1
        taken := s.taken ++ jobAt s.heap work }.setWorker i (.running work)

/-- The job runs and its node is freed. -/
def runWork (s : Pool n m) (i : Fin n) : Option ℕ → Pool n m
  | none => s.setWorker i .reporting
  | some a => match s.heap.get a with
    | none => s.crash
    | some work =>
      { s with
        heap := s.heap.free a
        finished := s.finished ++ [work.item] }.setWorker i .reporting

/-- The critical section at the end of the loop of `tpool_worker`. -/
def reportWork (s : Pool n m) (i : Fin n) (woken : Fin m → Bool) : Pool n m :=
  if s.stop = false ∧ s.workingCnt - 1 = 0 ∧ s.workFirst = none then
    ({ s with workingCnt := s.workingCnt - 1 }.setWorker i .ready).signalWorking woken
  else { s with workingCnt := s.workingCnt - 1 }.setWorker i .ready

/-- `tpool_work_create`, with the address that `malloc` returns. -/
def tpoolWorkCreate (s : Pool n m) (j : Fin m) (a : ℕ) : Pool n m :=
  { s with
    heap := s.heap.set a ⟨s.created, none⟩
    created := s.created + 1 }.setClient j (.adding a s.created)

/-- The critical section of `tpool_add_work`. -/
def tpoolAddWork (s : Pool n m) (j : Fin m) (a : ℕ) (job : Job) : Pool n m :=
  match s.workFirst with
  | none => ({ s with
      workFirst := some a
      workLast := some a
      accepted := s.accepted ++ [job] }.setClient j .idle).broadcastWork
  | some _ => match s.workLast with
    | none => s.crash
    | some l => match s.heap.get l with
      | none => s.crash
      | some work => ({ s with
          heap := s.heap.set l { work with next := some a }
          workLast := some a
          accepted := s.accepted ++ [job] }.setClient j .idle).broadcastWork

/-- One round of the loop of `tpool_wait`; `tpool_destroy` frees the pool when it ends. -/
def tpoolWait (s : Pool n m) (j : Fin m) (destroying : Bool) : Pool n m :=
  if s.workFirst ≠ none ∨ (s.stop = false ∧ s.workingCnt ≠ 0) ∨ (s.stop = true ∧ s.threadCnt ≠ 0)
  then s.setClient j (.blocked destroying)
  else { s with freed := destroying }.setClient j .idle

/-- The critical section of `tpool_destroy`. -/
def tpoolDestroy (s : Pool n m) (j : Fin m) : Pool n m :=
  match drain s.heap.length s.heap s.workFirst with
  | none => s.crash
  | some (heap, jobs) => ({ s with
      heap := heap
      workFirst := none
      stop := true
      discarded := s.discarded ++ jobs }.setClient j (.waiting true)).broadcastWork

def workerStep (s : Pool n m) (i : Fin n) (woken : Fin m → Bool) : Pool n m :=
  match s.workers i with
  | .ready => s.takeWork i woken
  | .running work => s.runWork i work
  | .reporting => s.reportWork i woken
  | .blocked => s
  | .exited => s

def clientStep (s : Pool n m) (j : Fin m) : Pool n m :=
  match s.clients j with
  | .adding a job => s.tpoolAddWork j a job
  | .waiting destroying => s.tpoolWait j destroying
  | .idle => s
  | .blocked _ => s

def step (s : Pool n m) (l : PoolLabel n m) : Pool n m :=
  if s.freed ∨ s.crashed then s else
  match l with
  | .worker i woken => s.workerStep i woken
  | .wakeWorker i => if s.workers i = .blocked then s.setWorker i .ready else s
  | .client j => s.clientStep j
  | .wakeClient j => s.setClient j (unblocked (s.clients j))
  | .add j a => if s.clients j = .idle ∧ s.heap.get a = none then s.tpoolWorkCreate j a else s
  | .wait j => if s.clients j = .idle then s.setClient j (.waiting false) else s
  | .destroy j => if s.clients j = .idle then s.tpoolDestroy j else s

end Pool
end Sshnack
