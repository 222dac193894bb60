import Sshnack.PoolCounters

/-!
# The main thread of the server

`main` creates the pool and the two sockets, accepts connections until `SIGINT` or a failure of `poll`
and then shuts down. Connections are numbered in the order in which they are accepted. `jobs` has the
connection of each job, in the order in which the jobs are created, and `closed` the connections that
`main` closed itself; no step depends on these lists.

A label is what the environment does next: it moves a worker or `main`, with the outcome of the call
that `main` makes. `tpool_work_create` writes to the node that `malloc` returned even if it is NULL, so
the process crashes there; `tpool_add_work` then returns nothing, and with a pool and a function that
are not NULL it never returns `false`. Nothing moves once the process has ended.
-/

namespace Sshnack

open Linked Machine

/-- `serving` has the `POLLIN` flags of the sockets still to be looked at. -/
inductive MainPhase where
  | creating
  | listening
  | polling
  | serving (revents : List Bool)
  | submitting (revents : List Bool)
  | adding (revents : List Bool)
  | stopping
  | draining
  | destroyed
  | apiDestroyed
  | dbClosed
  | returned
  | crashed
  deriving DecidableEq

structure Server (n : ℕ) where
  launch : Launch n
  main : MainPhase
  keepRunning : Bool
  connections : ℕ
  jobs : List ℕ
  closed : List ℕ

/-- `work` is the address of the node of the new job; `revents` is missing when `poll` fails. -/
inductive ServerLabel (n : ℕ) where
  | create (ok : Bool)
  | createSockets (ok : Bool)
  | sigint
  | poll (revents : Option (Bool × Bool))
  | accept (ok client : Bool)
  | submit (work : Option ℕ)
  | main
  | wakeMain
  | worker (i : Fin n) (woken : Fin 1 → Bool)
  | wakeWorker (i : Fin n)
  deriving DecidableEq

namespace Server

variable {n : ℕ}

def init (n : ℕ) : Server n where
  launch := Launch.init n
  main := .creating
  keepRunning := true
  connections := 0
  jobs := []
  closed := []

def thread (s : Server n) (l : PoolLabel n 1) : Server n :=
  { s with launch := s.launch.step (.thread l) }

/-- `tpool_create` goes on; it calls `tpool_destroy` itself when a thread cannot be started. -/
def create (s : Server n) (ok : Bool) : Server n :=
  match s.main with
  | .creating =>
    let launch := s.launch.step (.create ok)
    { s with
      launch := launch
      main := match launch.phase with
        | .creating => .creating
        | .created => .listening
        | .failed => .stopping }
  | _ => s

/-- The head of the accept loop. -/
def poll (s : Server n) (revents : Option (Bool × Bool)) : Server n :=
  match s.main with
  | .polling => { s with main :=
      if s.keepRunning then
        match revents with
        | none => .stopping
        | some (first, second) => .serving [first, second]
      else .stopping }
  | _ => s

/-- `accept` and the allocation of the `client_t`. -/
def accept (s : Server n) (ok client : Bool) : Server n :=
  match s.main with
  | .serving (true :: revents) =>
    if ok then
      if client then { s with main := .submitting revents, connections := s.connections + 1 }
      else { s with
        main := .serving revents
        connections := s.connections + 1
        closed := s.closed ++ [s.connections] }
    else { s with main := .serving revents }
  | _ => s

/-- `tpool_add_work` up to its critical section. -/
def submit (s : Server n) (work : Option ℕ) : Server n :=
  match s.main, work with
  | .submitting _, none => { s with main := .crashed }
  | .submitting revents, some a =>
    if s.launch.pool.heap.get a = none then
      { s.thread (.add 0 a) with
        main := .adding revents
        jobs := s.jobs ++ [s.connections - 1] }
    else s
  | _, _ => s

/-- `main` goes on by itself. -/
def proceed (s : Server n) : Server n :=
  match s.main with
  | .serving [] => { s with main := .polling }
  | .serving (false :: revents) => { s with main := .serving revents }
  | .adding revents => { s.thread (.client 0) with main := .serving revents }
  | .stopping => { s.thread (.destroy 0) with main := .draining }
  | .draining =>
    let waited := s.thread (.client 0)
    if waited.launch.pool.freed then
      { waited with main := if s.launch.phase = .failed then .returned else .destroyed }
    else waited
  | .destroyed => { s with main := .apiDestroyed }
  | .apiDestroyed => { s with main := .dbClosed }
  | _ => s

def ended : MainPhase → Bool
  | .dbClosed => true
  | .returned => true
  | .crashed => true
  | _ => false

def step (s : Server n) (l : ServerLabel n) : Server n :=
  if ended s.main then s else
  match l with
  | .create ok => s.create ok
  | .createSockets ok =>
    if s.main = .listening then { s with main := if ok then .polling else .returned } else s
  | .sigint => { s with keepRunning := false }
  | .poll revents => s.poll revents
  | .accept ok client => s.accept ok client
  | .submit work => s.submit work
  | .main => s.proceed
  | .wakeMain => s.thread (.wakeClient 0)
  | .worker i woken => s.thread (.worker i woken)
  | .wakeWorker i => s.thread (.wakeWorker i)

/-- The connections that were passed to `handle_client`, one entry for each call that returned. -/
def handled (s : Server n) : List ℕ := s.launch.pool.finished.filterMap fun k => s.jobs[k]?

/-- `tpool_destroy` has returned. -/
def afterDestroy : MainPhase → Bool
  | .destroyed => true
  | .apiDestroyed => true
  | .dbClosed => true
  | _ => false

/-- Every way in which a step can change the server. -/
inductive Move (s : Server n) : ServerLabel n → Server n → Prop where
  | stay {l} : Move s l s
  | sigint : Move s .sigint { s with keepRunning := false }
  | create {ok next} (hmain : s.main = .creating)
      (hnext : next = .creating ∨
        next = .listening ∧ (s.launch.step (.create ok)).phase = .created ∨
        next = .stopping ∧ (s.launch.step (.create ok)).phase = .failed) :
      Move s (.create ok) { s with launch := s.launch.step (.create ok), main := next }
  | goOn {l next} (hmain : s.main = .listening ∨ s.main = .polling ∨ ∃ r, s.main = .serving r)
      (hnext : next = .polling ∨ next = .returned ∨ next = .stopping ∨ ∃ r, next = .serving r) :
      Move s l { s with main := next }
  | accepted {l r} (hmain : s.main = .serving (true :: r)) :
      Move s l { s with main := .submitting r, connections := s.connections + 1 }
  | refused {l r} (hmain : s.main = .serving (true :: r)) :
      Move s l { s with
        main := .serving r
        connections := s.connections + 1
        closed := s.closed ++ [s.connections] }
  | crash {l r} (hmain : s.main = .submitting r) : Move s l { s with main := .crashed }
  | submitted {l r a} (hmain : s.main = .submitting r) (ha : s.launch.pool.heap.get a = none) :
      Move s l { s.thread (.add 0 a) with
        main := .adding r
        jobs := s.jobs ++ [s.connections - 1] }
  | added {r} (hmain : s.main = .adding r) :
      Move s .main { s.thread (.client 0) with main := .serving r }
  | stop (hmain : s.main = .stopping) :
      Move s .main { s.thread (.destroy 0) with main := .draining }
  | drain (hmain : s.main = .draining)
      (hfreed : (s.thread (.client 0)).launch.pool.freed = false) :
      Move s .main (s.thread (.client 0))
  | destroyed {next} (hmain : s.main = .draining)
      (hfreed : (s.thread (.client 0)).launch.pool.freed = true)
      (hnext : next = .returned ∨ next = .destroyed) :
      Move s .main { s.thread (.client 0) with main := next }
  | release {next} (hmain : s.main = .destroyed ∨ s.main = .apiDestroyed)
      (hnext : next = .apiDestroyed ∨ next = .dbClosed) : Move s .main { s with main := next }
  | wakeMain : Move s .wakeMain (s.thread (.wakeClient 0))
  | worker {i woken} : Move s (.worker i woken) (s.thread (.worker i woken))
  | wakeWorker {i} : Move s (.wakeWorker i) (s.thread (.wakeWorker i))

theorem create_move (s : Server n) (ok : Bool) : Move s (.create ok) (s.create ok) := by
  unfold create
  split
  case h_1 hmain =>
    apply Move.create hmain
    cases hphase : (s.launch.step (.create ok)).phase <;> simp
  case h_2 => exact .stay

theorem poll_move (s : Server n) (revents : Option (Bool × Bool)) :
    Move s (.poll revents) (s.poll revents) := by
  unfold poll
  split
  case h_1 hmain =>
    refine .goOn (.inr (.inl hmain)) ?_
    split_ifs
    · cases revents <;> simp
    · simp
  case h_2 => exact .stay

theorem accept_move (s : Server n) (ok client : Bool) :
    Move s (.accept ok client) (s.accept ok client) := by
  unfold accept
  split
  case h_1 revents hmain =>
    split_ifs
    · exact .accepted hmain
    · exact .refused hmain
    · exact .goOn (.inr (.inr ⟨_, hmain⟩)) (.inr (.inr (.inr ⟨_, rfl⟩)))
  case h_2 => exact .stay

theorem submit_move (s : Server n) (work : Option ℕ) : Move s (.submit work) (s.submit work) := by
  unfold submit
  split
  case h_1 hmain => exact .crash hmain
  case h_2 hmain =>
    split_ifs with ha
    · exact .submitted hmain ha
    · exact .stay
  case h_3 => exact .stay

theorem proceed_move (s : Server n) : Move s .main s.proceed := by
  unfold proceed
  split
  case h_1 hmain => exact .goOn (.inr (.inr ⟨_, hmain⟩)) (.inl rfl)
  case h_2 hmain => exact .goOn (.inr (.inr ⟨_, hmain⟩)) (.inr (.inr (.inr ⟨_, rfl⟩)))
  case h_3 hmain => exact .added hmain
  case h_4 hmain => exact .stop hmain
  case h_5 hmain =>
    simp only
    split_ifs with hfreed hfailed
    · exact .destroyed hmain hfreed (.inl rfl)
    · exact .destroyed hmain hfreed (.inr rfl)
    · exact .drain hmain (by simpa using hfreed)
  case h_6 hmain => exact .release (.inl hmain) (.inl rfl)
  case h_7 hmain => exact .release (.inr hmain) (.inr rfl)
  case h_8 => exact .stay

theorem step_move (s : Server n) (l : ServerLabel n) : Move s l (s.step l) := by
  unfold step
  by_cases hended : ended s.main = true
  · rw [if_pos hended]
    exact .stay
  rw [if_neg hended]
  cases l with
  | create ok => exact s.create_move ok
  | createSockets ok =>
    simp only
    split_ifs with hmain hok
    · exact .goOn (.inl hmain) (.inl rfl)
    · exact .goOn (.inl hmain) (.inr (.inl rfl))
    · exact .stay
  | sigint => exact .sigint
  | poll revents => exact s.poll_move revents
  | accept ok client => exact s.accept_move ok client
  | submit work => exact s.submit_move work
  | main => exact s.proceed_move
  | wakeMain => exact .wakeMain
  | worker i woken => exact .worker
  | wakeWorker i => exact .wakeWorker

end Server
end Sshnack
