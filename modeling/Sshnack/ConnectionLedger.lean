import Sshnack.PoolClient

/-!
# Accounts of the accepted connections

Every accepted connection is closed by `main` or becomes a job, and every job is accepted by the pool
in turn. Every step of the server keeps these accounts, as long as `tpool_destroy` finds the list
empty (`DrainSafe`) and so discards no job.
-/

namespace Sshnack

open Linked Machine

variable {n : ℕ}

namespace Server

/-- From the return of `tpool_create` to the end of the accept loop. -/
def inLoop : MainPhase → Bool
  | .listening => true
  | .polling => true
  | .serving _ => true
  | .submitting _ => true
  | .adding _ => true
  | _ => false

def beforeFreed : MainPhase → Bool
  | .creating => true
  | .stopping => true
  | .draining => true
  | main => inLoop main

def clientFits : MainPhase → ClientPhase → Prop
  | .adding _, client => ∃ a k, client = .adding a k
  | .draining, client => client = .waiting true ∨ client = .blocked true
  | _, client => client = .idle

/-- The connection for which `main` has allocated a `client_t` but created no job yet. -/
def pendingConnection (s : Server n) : List ℕ :=
  match s.main with
  | .submitting _ => [s.connections - 1]
  | _ => []

/-- Every connection is a job, closed, or about to become a job; every job is accepted, or about to
be; and none is discarded. -/
structure Ledger (s : Server n) : Prop where
  consistent : ∃ q, s.launch.pool.Consistent q
  launched : s.main ≠ .creating → s.launch.phase ≠ .creating
  created : inLoop s.main = true → s.launch.phase = .created
  kept : beforeFreed s.main = true → s.launch.pool.freed = false
  emptied : s.launch.pool.freed = true → s.launch.pool.workFirst = none
  drained : s.launch.pool.discarded = []
  client : clientFits s.main (s.launch.pool.clients 0)
  numbered : s.launch.pool.created = s.jobs.length
  ordered : s.launch.pool.accepted ++ Pool.pendingJob (s.launch.pool.clients 0) =
    List.range s.launch.pool.created
  owned : s.main ≠ .crashed →
    (s.jobs ++ s.closed ++ s.pendingConnection).Perm (List.range s.connections)

theorem ledger_init : (init n).Ledger where
  consistent := ⟨[], Pool.consistent_start⟩
  launched h := absurd rfl h
  created h := by cases h
  kept _ := rfl
  emptied _ := rfl
  drained := rfl
  client := rfl
  numbered := rfl
  ordered := rfl
  owned _ := List.Perm.refl []

theorem clientFits_unblocked {main : MainPhase} {client : ClientPhase} (h : clientFits main client) :
    clientFits main (Pool.unblocked client) := by
  cases main with
  | adding r =>
    obtain ⟨a, k, rfl⟩ := h
    exact ⟨a, k, rfl⟩
  | draining =>
    rcases h with rfl | rfl
    · exact .inl rfl
    · exact .inl rfl
  | _ =>
    obtain rfl : client = .idle := h
    rfl

/-- `main` goes on without touching the pool. -/
theorem Ledger.goTo {s : Server n} (h : s.Ledger) {next : MainPhase} (keep : Bool)
    (hlaunched : next ≠ .creating → s.launch.phase ≠ .creating)
    (hcreated : inLoop next = true → s.launch.phase = .created)
    (hkept : beforeFreed next = true → s.launch.pool.freed = false)
    (hclient : clientFits next (s.launch.pool.clients 0))
    (hpending : next ≠ .crashed → s.main ≠ .crashed ∧
      ({ s with main := next } : Server n).pendingConnection = s.pendingConnection) :
    ({ s with main := next, keepRunning := keep } : Server n).Ledger := by
  refine ⟨h.consistent, hlaunched, hcreated, hkept, h.emptied, h.drained, hclient, h.numbered,
    h.ordered, ?_⟩
  intro hne
  obtain ⟨hold, heq⟩ := hpending hne
  have howned := h.owned hold
  rw [← heq] at howned
  exact howned

theorem Ledger.aside {s : Server n} (h : s.Ledger) {l : PoolLabel n 1} (hl : l.aside = true) :
    (s.thread l).Ledger := by
  have haside : s.launch.pool.Aside (s.thread l).launch.pool := by
    simp only [Server.thread, Launch.step]
    split_ifs
    · exact (s.launch.pool.step_move l).aside hl
    · exact .refl _
  have hphase : (s.thread l).launch.phase = s.launch.phase := by
    simp only [Server.thread, Launch.step]
    split_ifs <;> rfl
  refine ⟨Launch.consistent_thread h.consistent l, ?_, ?_, ?_, ?_, ?_, ?_, ?_, ?_, h.owned⟩
  · rw [hphase]
    exact h.launched
  · rw [hphase]
    exact h.created
  · rw [haside.freed]
    exact h.kept
  · rw [haside.freed]
    intro hfreed
    exact haside.empty (h.emptied hfreed)
  · rw [haside.discarded]
    exact h.drained
  · rcases haside.client with heq | heq
    · rw [heq]
      exact h.client
    · rw [heq]
      exact clientFits_unblocked h.client
  · rw [haside.created]
    exact h.numbered
  · rw [haside.accepted, haside.created, Pool.pendingJob_aside haside]
    exact h.ordered

theorem Ledger.alive {s : Server n} (h : s.Ledger) : s.launch.pool.crashed = false := by
  obtain ⟨q, hq⟩ := h.consistent
  exact hq.alive

/-! What the accounts say at one place of `main`. -/

theorem Ledger.fits {s : Server n} (h : s.Ledger) {main : MainPhase} (hmain : s.main = main) :
    clientFits main (s.launch.pool.clients 0) := hmain ▸ h.client

theorem Ledger.unfreed {s : Server n} (h : s.Ledger) {main : MainPhase} (hmain : s.main = main)
    (hbefore : beforeFreed main = true) : s.launch.pool.freed = false :=
  h.kept (by rw [hmain]; exact hbefore)

theorem pendingConnection_eq_nil {s : Server n} (h : ∀ r, s.main ≠ .submitting r) :
    s.pendingConnection = [] := by
  unfold pendingConnection
  split
  case h_1 r hr => exact absurd hr (h r)
  case h_2 => rfl

theorem Ledger.create {s : Server n} (h : s.Ledger) (hmain : s.main = .creating) {ok : Bool}
    {next : MainPhase} (hnext : next = .creating ∨
      next = .listening ∧ (s.launch.step (.create ok)).phase = .created ∨
      next = .stopping ∧ (s.launch.step (.create ok)).phase = .failed) :
    ({ s with launch := s.launch.step (.create ok), main := next } : Server n).Ledger := by
  obtain ⟨threads, hpool⟩ := s.launch.pool_create ok
  have hfreed := h.unfreed hmain rfl
  have hclient := h.fits hmain
  have howned := h.owned (by rw [hmain]; exact fun hcrash => by cases hcrash)
  simp only [pendingConnection, hmain] at howned
  refine ⟨?_, ?_, ?_, ?_, ?_, ?_, ?_, ?_, ?_, ?_⟩
  · obtain ⟨q, hq⟩ := h.consistent
    refine ⟨q, ?_⟩
    simp only [hpool]
    exact hq.rephase (fun _ => rfl) (fun _ => rfl) _ _ _
  · rcases hnext with rfl | ⟨rfl, hphase⟩ | ⟨rfl, hphase⟩
    · intro hne
      exact absurd rfl hne
    · simp [hphase]
    · simp [hphase]
  · rcases hnext with rfl | ⟨rfl, hphase⟩ | ⟨rfl, hphase⟩
    · intro hin
      cases hin
    · simp [hphase]
    · intro hin
      cases hin
  · simp [hpool, hfreed]
  · simp [hpool, hfreed]
  · simpa [hpool] using h.drained
  · simp only [hpool]
    rcases hnext with rfl | ⟨rfl, -⟩ | ⟨rfl, -⟩ <;> exact hclient
  · simpa [hpool] using h.numbered
  · simpa [hpool] using h.ordered
  · intro _
    rcases hnext with rfl | ⟨rfl, -⟩ | ⟨rfl, -⟩ <;> exact howned

theorem Ledger.submitted {s : Server n} (h : s.Ledger) {r : List Bool} (hmain : s.main = .submitting r)
    {a : ℕ} (ha : s.launch.pool.heap.get a = none) :
    ({ s.thread (.add 0 a) with
        main := .adding r
        jobs := s.jobs ++ [s.connections - 1] } : Server n).Ledger := by
  have hphase := h.created (by rw [hmain]; rfl)
  have hfreed := h.unfreed hmain rfl
  have hidle : s.launch.pool.clients 0 = .idle := h.fits hmain
  have henabled : s.launch.enabled (.add 0 a) = true := by simp [Launch.enabled, hphase]
  have hlaunch : (s.thread (.add 0 a)).launch =
      { s.launch with pool := s.launch.pool.tpoolWorkCreate 0 a } := by
    rw [Server.thread, Launch.step_enabled henabled, Pool.step_add hfreed h.alive hidle ha]
  have hordered := h.ordered
  rw [hidle] at hordered
  have howned := h.owned (by rw [hmain]; exact fun hcrash => by cases hcrash)
  simp only [pendingConnection, hmain] at howned
  have hpool := Launch.consistent_thread h.consistent (.add 0 a)
  refine ⟨hpool, ?_, ?_, ?_, ?_, ?_, ?_, ?_, ?_, ?_⟩
  · simp [hlaunch, hphase]
  · simp [hlaunch, hphase]
  · simp [hlaunch, Pool.tpoolWorkCreate, Pool.setClient, hfreed]
  · simp [hlaunch, Pool.tpoolWorkCreate, Pool.setClient, hfreed]
  · simpa [hlaunch, Pool.tpoolWorkCreate, Pool.setClient] using h.drained
  · exact ⟨a, s.launch.pool.created, by simp [hlaunch, Pool.tpoolWorkCreate, Pool.setClient]⟩
  · simp [hlaunch, Pool.tpoolWorkCreate, Pool.setClient, h.numbered]
  · have hrange : s.launch.pool.accepted = List.range s.launch.pool.created := by
      simpa [Pool.pendingJob, Pool.clientHolds] using hordered
    simp [hlaunch, Pool.tpoolWorkCreate, Pool.setClient, Pool.pendingJob, Pool.clientHolds, hrange,
      List.range_succ]
  · intro _
    change (s.jobs ++ [s.connections - 1] ++ s.closed ++ []).Perm (List.range s.connections)
    apply List.Perm.trans _ howned
    rw [List.append_nil, List.append_assoc, List.append_assoc]
    exact List.Perm.append_left _ List.perm_append_comm

/-- `main` makes a step inside a function of the pool. -/
theorem Ledger.call {s : Server n} (h : s.Ledger) {l : PoolLabel n 1} {next : MainPhase}
    {pool : Pool n 1} (henabled : s.launch.enabled l = true) (hpool : s.launch.pool.step l = pool)
    (hmain : s.main ≠ .creating ∧ s.main ≠ .crashed ∧ ∀ r, s.main ≠ .submitting r)
    (hnext : ∀ r, next ≠ .submitting r)
    (hin : inLoop next = true → inLoop s.main = true)
    (hkept : beforeFreed next = true → pool.freed = false)
    (hemptied : pool.freed = true → pool.workFirst = none) (hdrained : pool.discarded = [])
    (hclient : clientFits next (pool.clients 0)) (hcreated : pool.created = s.launch.pool.created)
    (hordered : pool.accepted ++ Pool.pendingJob (pool.clients 0) = List.range pool.created) :
    ({ s.thread l with main := next } : Server n).Ledger := by
  have hlaunch : (s.thread l).launch = { s.launch with pool := pool } := by
    rw [Server.thread, Launch.step_enabled henabled, hpool]
  have hconsistent := Launch.consistent_thread h.consistent l
  refine ⟨hconsistent, ?_, ?_, ?_, ?_, ?_, ?_, ?_, ?_, ?_⟩
  · intro _
    rw [hlaunch]
    exact h.launched hmain.1
  · intro hloop
    rw [hlaunch]
    exact h.created (hin hloop)
  · rwa [hlaunch]
  · rwa [hlaunch]
  · rwa [hlaunch]
  · rwa [hlaunch]
  · rw [hlaunch]
    exact hcreated.trans h.numbered
  · rwa [hlaunch]
  · intro _
    have howned := h.owned hmain.2.1
    rw [pendingConnection_eq_nil hmain.2.2] at howned
    rw [pendingConnection_eq_nil hnext]
    exact howned

theorem Ledger.added {s : Server n} (h : s.Ledger) {r : List Bool} (hmain : s.main = .adding r) :
    ({ s.thread (.client 0) with main := .serving r } : Server n).Ledger := by
  have hfreed := h.unfreed hmain rfl
  obtain ⟨a, k, hadding⟩ := h.fits hmain
  obtain ⟨q, hq⟩ := Launch.consistent_thread h.consistent (.client 0)
  obtain ⟨heap, first, last, hstep⟩ := Pool.step_link hfreed h.alive hadding hq.alive
  have hordered := h.ordered
  rw [hadding] at hordered
  refine h.call rfl hstep (by simp [hmain]) (by simp) (by simp [hmain, inLoop]) (fun _ => hfreed) ?_
    h.drained ?_ rfl ?_
  · intro hf
    rw [show s.launch.pool.freed = true from hf] at hfreed
    cases hfreed
  · simp [Pool.setClient, Pool.broadcastWork, clientFits]
  · simpa [Pool.setClient, Pool.broadcastWork, Pool.pendingJob, Pool.clientHolds] using hordered

theorem Ledger.stop {s : Server n} (h : s.Ledger) (hmain : s.main = .stopping)
    (hempty : s.launch.pool.workFirst = none) :
    ({ s.thread (.destroy 0) with main := .draining } : Server n).Ledger := by
  have hphase : s.launch.phase ≠ .creating := h.launched (by simp [hmain])
  have hfreed := h.unfreed hmain rfl
  have hidle : s.launch.pool.clients 0 = .idle := h.fits hmain
  have hordered := h.ordered
  rw [hidle] at hordered
  refine h.call (by simp [Launch.enabled, hphase]) (Pool.step_destroy hfreed h.alive hidle hempty)
    (by simp [hmain]) (by simp) (by simp [inLoop]) (fun _ => hfreed) (fun _ => rfl) ?_ ?_ rfl ?_
  · simpa [Pool.setClient, Pool.broadcastWork] using h.drained
  · simp [Pool.setClient, Pool.broadcastWork, clientFits]
  · simpa [Pool.setClient, Pool.broadcastWork, Pool.pendingJob, Pool.clientHolds] using hordered

/-- `main` in the waiting loop of `tpool_destroy`: it goes on waiting, or the pool is freed. -/
theorem Ledger.wait {s : Server n} (h : s.Ledger) (hmain : s.main = .draining) {next : MainPhase}
    (hnext : (s.thread (.client 0)).launch.pool.freed = false ∧ next = .draining ∨
      (s.thread (.client 0)).launch.pool.freed = true ∧ (next = .returned ∨ next = .destroyed)) :
    ({ s.thread (.client 0) with main := next } : Server n).Ledger := by
  have hfreed := h.unfreed hmain rfl
  have hclient : s.launch.pool.clients 0 = .waiting true ∨ s.launch.pool.clients 0 = .blocked true :=
    h.fits hmain
  have hnone : Pool.pendingJob (s.launch.pool.clients 0) = [] := by
    rcases hclient with hc | hc <;> rw [hc] <;> rfl
  have hordered := h.ordered
  rw [hnone, List.append_nil] at hordered
  have hleave : (∀ r, next ≠ .submitting r) ∧ inLoop next = false := by
    rcases hnext with ⟨-, rfl⟩ | ⟨-, rfl | rfl⟩ <;> simp [inLoop]
  have hthread : (s.thread (.client 0)).launch.pool = s.launch.pool.step (.client 0) := rfl
  rw [hthread] at hnext
  rcases Pool.step_wait hfreed h.alive hclient with hstep | hstep | ⟨hempty, hstep⟩
  · rcases hnext with ⟨-, rfl⟩ | ⟨hgone, -⟩
    · exact h.call rfl hstep (by simp [hmain]) hleave.1 (by simp [inLoop]) (fun _ => hfreed) h.emptied
        h.drained hclient rfl h.ordered
    · rw [hstep, hfreed] at hgone
      cases hgone
  · rcases hnext with ⟨-, rfl⟩ | ⟨hgone, -⟩
    · refine h.call rfl hstep (by simp [hmain]) hleave.1 (by simp [inLoop]) (fun _ => hfreed)
        h.emptied h.drained ?_ rfl ?_
      · simp [Pool.setClient, clientFits]
      · simpa [Pool.setClient, Pool.pendingJob, Pool.clientHolds] using hordered
    · rw [hstep] at hgone
      rw [show s.launch.pool.freed = true from hgone] at hfreed
      cases hfreed
  · rcases hnext with ⟨hstill, -⟩ | ⟨-, hnext⟩
    · rw [hstep] at hstill
      cases hstill
    · refine h.call rfl hstep (by simp [hmain]) hleave.1 (by simp [hleave.2]) ?_ (fun _ => hempty)
        h.drained ?_ rfl ?_
      · rcases hnext with rfl | rfl <;> simp [beforeFreed, inLoop]
      · rcases hnext with rfl | rfl <;> simp [Pool.setClient, clientFits]
      · simpa [Pool.setClient, Pool.pendingJob, Pool.clientHolds] using hordered

/-- One more connection, which `main` keeps or closes. -/
theorem Ledger.accept {s : Server n} (h : s.Ledger) {r : List Bool}
    (hmain : s.main = .serving (true :: r)) {next : MainPhase} {closed : List ℕ}
    (hnext : next = .submitting r ∧ closed = s.closed ∨
      next = .serving r ∧ closed = s.closed ++ [s.connections]) :
    ({ s with main := next, connections := s.connections + 1, closed := closed } :
      Server n).Ledger := by
  have hphase := h.created (by rw [hmain]; rfl)
  have hfreed := h.unfreed hmain rfl
  have hclient := h.fits hmain
  have howned := h.owned (by simp [hmain])
  simp only [pendingConnection, hmain, List.append_nil] at howned
  have hmore := howned.append_right [s.connections]
  refine ⟨h.consistent, fun _ => by simp [hphase], fun _ => hphase, fun _ => hfreed, h.emptied,
    h.drained, ?_, h.numbered, h.ordered, ?_⟩
  · rcases hnext with ⟨rfl, -⟩ | ⟨rfl, -⟩ <;> exact hclient
  · intro _
    rw [List.range_succ]
    rcases hnext with ⟨rfl, rfl⟩ | ⟨rfl, rfl⟩
    · simpa only [pendingConnection, Nat.add_sub_cancel] using hmore
    · simpa only [pendingConnection, List.append_nil, List.append_assoc] using hmore

/-- The accept loop goes on without a connection, or ends. -/
theorem Ledger.goOn {s : Server n} (h : s.Ledger) {next : MainPhase}
    (hmain : s.main = .listening ∨ s.main = .polling ∨ ∃ r, s.main = .serving r)
    (hnext : next = .polling ∨ next = .returned ∨ next = .stopping ∨ ∃ r, next = .serving r) :
    ({ s with main := next } : Server n).Ledger := by
  have hloop : inLoop s.main = true ∧ s.main ≠ .crashed ∧ ∀ r, s.main ≠ .submitting r := by
    rcases hmain with hmain | hmain | ⟨r, hmain⟩ <;> simp [hmain, inLoop]
  have hphase := h.created hloop.1
  have hfreed : s.launch.pool.freed = false := by
    rcases hmain with hmain | hmain | ⟨r, hmain⟩ <;> exact h.unfreed hmain rfl
  have hidle : s.launch.pool.clients 0 = .idle := by
    rcases hmain with hmain | hmain | ⟨r, hmain⟩ <;> exact h.fits hmain
  apply h.goTo s.keepRunning (fun _ => by simp [hphase]) (fun _ => hphase) (fun _ => hfreed)
  · rcases hnext with rfl | rfl | rfl | ⟨r, rfl⟩ <;> exact hidle
  · intro _
    rw [pendingConnection_eq_nil hloop.2.2]
    refine ⟨hloop.2.1, ?_⟩
    rcases hnext with rfl | rfl | rfl | ⟨r, rfl⟩ <;> rfl

theorem Ledger.release {s : Server n} (h : s.Ledger) {next : MainPhase}
    (hmain : s.main = .destroyed ∨ s.main = .apiDestroyed)
    (hnext : next = .apiDestroyed ∨ next = .dbClosed) :
    ({ s with main := next } : Server n).Ledger := by
  have hidle : s.launch.pool.clients 0 = .idle := by
    rcases hmain with hmain | hmain <;> exact h.fits hmain
  have hmain' : s.main ≠ .creating ∧ s.main ≠ .crashed ∧ ∀ r, s.main ≠ .submitting r := by
    rcases hmain with hmain | hmain <;> simp [hmain]
  apply h.goTo s.keepRunning (fun _ => h.launched hmain'.1)
  · rcases hnext with rfl | rfl <;> simp [inLoop]
  · rcases hnext with rfl | rfl <;> simp [beforeFreed, inLoop]
  · rcases hnext with rfl | rfl <;> exact hidle
  · intro _
    rw [pendingConnection_eq_nil hmain'.2.2]
    refine ⟨hmain'.2.1, ?_⟩
    rcases hnext with rfl | rfl <;> rfl

/-- `tpool_destroy` is called while the list is empty. -/
def DrainSafe (s : Server n) (l : ServerLabel n) : Prop :=
  s.main = .stopping ∧ l = .main → s.launch.pool.workFirst = none

theorem Ledger.move {s s' : Server n} (h : s.Ledger) {l : ServerLabel n} (hsafe : DrainSafe s l)
    (hm : Move s l s') : s'.Ledger := by
  cases hm with
  | stay => exact h
  | sigint => exact ⟨h.consistent, h.launched, h.created, h.kept, h.emptied, h.drained, h.client,
      h.numbered, h.ordered, h.owned⟩
  | create hmain hnext => exact h.create hmain hnext
  | goOn hmain hnext => exact h.goOn hmain hnext
  | accepted hmain => exact h.accept hmain (.inl ⟨rfl, rfl⟩)
  | refused hmain => exact h.accept hmain (.inr ⟨rfl, rfl⟩)
  | @crash l r hmain =>
    have hidle : s.launch.pool.clients 0 = .idle := h.fits hmain
    refine h.goTo s.keepRunning (fun _ => h.launched (by simp [hmain])) (by simp [inLoop])
      (by simp [beforeFreed, inLoop]) hidle ?_
    intro hne
    exact absurd rfl hne
  | submitted hmain ha => exact h.submitted hmain ha
  | added hmain => exact h.added hmain
  | stop hmain => exact h.stop hmain (hsafe ⟨hmain, rfl⟩)
  | drain hmain hfreed =>
    have hwait := h.wait hmain (.inl ⟨hfreed, rfl⟩)
    rwa [show ({ s.thread (.client 0) with main := .draining } : Server n) = s.thread (.client 0) by
      rw [← hmain]; rfl] at hwait
  | destroyed hmain hfreed hnext => exact h.wait hmain (.inr ⟨hfreed, hnext⟩)
  | release hmain hnext => exact h.release hmain hnext
  | wakeMain => exact h.aside rfl
  | worker => exact h.aside rfl
  | wakeWorker => exact h.aside rfl

end Server
end Sshnack
