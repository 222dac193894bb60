import Sshnack.ConnectionLedger

/-!
# What happens to an accepted connection

`tpool_destroy` frees the jobs that are still in the list without running them, so a connection may be
left open, neither handled nor closed. If the list is empty then, every job has been run when it
returns, and every accepted connection is settled.
-/

namespace Sshnack

open Linked Machine

variable {n : ℕ}

theorem filterMap_getElem?_range {α : Type} (l : List α) :
    (List.range l.length).filterMap (fun k => l[k]?) = l := by
  induction l using List.reverseRecOn with
  | nil => rfl
  | append_singleton l a ih =>
    have hinit : (List.range l.length).filterMap (fun k => (l ++ [a])[k]?) = l := by
      conv_rhs => rw [← ih]
      apply List.filterMap_congr
      intro k hk
      rw [List.getElem?_append_left (List.mem_range.1 hk)]
    rw [List.length_append, List.length_singleton, List.range_succ, List.filterMap_append, hinit]
    simp

namespace Server

/-- Every accepted connection was passed to `handle_client` exactly once, or `main` closed it. -/
def Settled (s : Server n) : Prop :=
  ∀ c < s.connections, (s.handled.count c = 1 ∧ c ∉ s.closed) ∨ (c ∉ s.handled ∧ c ∈ s.closed)

instance (s : Server n) : Decidable s.Settled := Nat.decidableBallLT _ _

/-- With every worker gone no job is being run. -/
theorem runningJobs_eq_nil {s : Server n} (h : s.Stopped) (hfreed : s.launch.pool.freed = true) :
    s.launch.pool.runningJobs = [] := by
  apply List.filterMap_eq_nil_iff.2
  intro i _
  apply Pool.jobIn_of_none
  by_cases hi : i.val < s.launch.threads
  · rw [h.accounted.exited hfreed hi]
    rfl
  · rw [h.accounted.dormant i (Nat.le_of_not_lt hi)]
    rfl

/-- Once the pool is freed every job has been run. -/
theorem Ledger.handled_perm {s : Server n} (h : s.Ledger) (hs : s.Stopped)
    (hafter : afterDestroy s.main = true) : s.handled.Perm s.jobs := by
  have hfreed := hs.freed hafter
  obtain ⟨q, hq⟩ := h.consistent
  have hempty : q = [] := by
    have hlisted := hq.listed
    rw [h.emptied hfreed] at hlisted
    exact hlisted.eq_nil
  have hidle : s.launch.pool.clients 0 = .idle := by
    have hclient := h.client
    cases hmain : s.main <;> rw [hmain] at hafter hclient <;> first | exact hclient | cases hafter
  have haccepted : s.launch.pool.accepted = List.range s.jobs.length := by
    have hordered := h.ordered
    rw [hidle, h.numbered] at hordered
    simpa [Pool.pendingJob, Pool.clientHolds] using hordered
  have htaken : s.launch.pool.accepted = s.launch.pool.taken := by
    have horder := hq.order
    rwa [h.drained, hempty, List.map_nil, List.append_nil, List.append_nil] at horder
  have hfinished : s.launch.pool.finished.Perm (List.range s.jobs.length) := by
    have hserved := hq.served
    rw [runningJobs_eq_nil hs hfreed, List.nil_append, ← htaken, haccepted] at hserved
    exact hserved.symm
  have hall := hfinished.filterMap fun k => s.jobs[k]?
  rwa [filterMap_getElem?_range] at hall

theorem Ledger.settled {s : Server n} (h : s.Ledger) (hs : s.Stopped)
    (hafter : afterDestroy s.main = true) : s.Settled := by
  have hmain : s.main ≠ .crashed ∧ s.pendingConnection = [] := by
    cases hm : s.main <;> rw [hm] at hafter <;> simp [afterDestroy] at hafter <;>
      simp [pendingConnection, hm]
  have howned := h.owned hmain.1
  rw [hmain.2, List.append_nil] at howned
  have hall := ((h.handled_perm hs hafter).append_right s.closed).trans howned
  intro c hc
  have hcount := hall.count_eq c
  have hone : (List.range s.connections).count c = 1 :=
    List.count_eq_one_of_mem List.nodup_range (List.mem_range.2 hc)
  rw [hone, List.count_append] at hcount
  by_cases hmem : c ∈ s.closed
  · have hpos := List.count_pos_iff.2 hmem
    exact .inr ⟨List.count_eq_zero.1 (by omega), hmem⟩
  · have hzero := List.count_eq_zero.2 hmem
    exact .inl ⟨by omega, hmem⟩

end Server

/-- In every run of the server in which `tpool_destroy` is called with an empty list, every accepted
connection is settled when it has returned. -/
theorem connections_settled (n : ℕ) (ls : List (ServerLabel n))
    (hsafe : Meets Server.step Server.DrainSafe (Server.init n) ls)
    (hafter : Server.afterDestroy (run Server.step (Server.init n) ls).main = true) :
    (run Server.step (Server.init n) ls).Settled := by
  have hledger : (run Server.step (Server.init n) ls).Ledger :=
    run_invariant (fun s l h hl => h.move hl (s.step_move l)) Server.ledger_init hsafe
  exact hledger.settled (Server.stopped_run n ls) hafter

/-- One worker and one connection, served before `SIGINT`. -/
def servedRun : List (ServerLabel 1) :=
  [.create true, .create true, .createSockets true, .poll (some (true, false)), .accept true true,
    .submit (some 0), .main, .worker ⟨0, Nat.one_pos⟩ fun _ => false,
    .worker ⟨0, Nat.one_pos⟩ fun _ => false, .main, .main, .sigint, .poll none,
    .worker ⟨0, Nat.one_pos⟩ fun _ => false, .main, .main,
    .worker ⟨0, Nat.one_pos⟩ fun _ => false, .main]

theorem connections_settled_servedRun :
    Server.afterDestroy (run Server.step (Server.init 1) servedRun).main = true ∧
      (run Server.step (Server.init 1) servedRun).handled = [0] ∧
      (run Server.step (Server.init 1) servedRun).Settled :=
  ⟨by decide, by decide, connections_settled 1 servedRun
    (by unfold Server.DrainSafe; decide) (by decide)⟩

/-- The same connection, still in the list at `SIGINT`. -/
def abandonedRun : List (ServerLabel 1) :=
  [.create true, .create true, .createSockets true, .poll (some (true, false)), .accept true true,
    .submit (some 0), .main, .sigint, .main, .main, .poll none, .main,
    .worker ⟨0, Nat.one_pos⟩ fun _ => false, .main]

theorem connections_not_always_settled :
    ¬ ∀ (n : ℕ) (ls : List (ServerLabel n)),
      Server.afterDestroy (run Server.step (Server.init n) ls).main = true →
        (run Server.step (Server.init n) ls).Settled := by
  intro h
  have hsettled := h 1 abandonedRun (by decide)
  revert hsettled
  decide

end Sshnack
