import Sshnack.CashLedger
import Sshnack.SchemaChecks

/-!
# The rows of `users`

Rows of `users` are created by a deposit, with the id of the caller and no fingerprint, and by a
lookup, with the next id of the sequence. `identities` is the part of the table that says who is who:
no call changes or removes an entry, and `Extends` lists the entries that a call can add.
-/

namespace Sshnack

open Txn Machine

def Tables.identities (t : Tables) : List (Int × Option CString) :=
  t.users.map fun u => (u.userId, u.fingerprint)

/-- The identities that a call can add. -/
inductive Extends (d d' : Db) : ServiceCall → Except Int32 Answer → Prop
  | same (call a) (h : d'.identities = d.identities) : Extends d d' call a
  | deposited (userId amountGr : Int32) (a)
      (h : d'.identities = d.identities ++ [(userId.toInt, none)]) :
      Extends d d' (.txn (.balanceDeposit userId amountGr)) a
  | created (fingerprint id) (hnone : d.findFingerprint fingerprint = none)
      (h : d'.identities = d.identities ++ [(d.usersSeq + 1, some fingerprint)]) :
      Extends d d' (.txn (.usersLookup fingerprint)) (.ok (.code id))

theorem identities_updateBalance (t : Tables) (id : Int) (f : Int → Int) :
    (t.updateBalance id f).identities = t.identities :=
  Keyed.map_update fun _ => rfl

theorem Effect.identities {d d' : Db} {call : ServiceCall} {a : Except Int32 Answer}
    (he : Effect d call a d') : Extends d d' call a := by
  rcases he.users with hsame | ⟨userId, f, _, husers⟩ | ⟨userId, amountGr, rfl, husers⟩ |
    ⟨fingerprint, id, rfl, rfl, hnone, husers⟩
  · apply Extends.same
    rw [Tables.identities, hsame]
    rfl
  · apply Extends.same
    rw [Tables.identities, husers]
    exact identities_updateBalance d.toTables userId.toInt f
  · apply Extends.deposited
    rw [Tables.identities, husers, List.map_append]
    rfl
  · apply Extends.created fingerprint id hnone
    rw [Tables.identities, husers, List.map_append]
    rfl

theorem Extends.mono {d d' : Db} {call : ServiceCall} {a : Except Int32 Answer}
    (h : Extends d d' call a) :
    ∀ p ∈ d.identities, p ∈ d'.identities := by
  intro p hp
  cases h with
  | same _ _ h =>
    rw [h]
    exact hp
  | deposited _ _ _ h =>
    rw [h]
    exact List.mem_append_left _ hp
  | created _ _ _ h =>
    rw [h]
    exact List.mem_append_left _ hp

/-- An upsert of a fingerprint breaks no constraint while the sequence has room. -/
theorem upsertFingerprint_valid (d : Db) (f : CString) (h : d.usersSeq + 1 < 2 ^ 63) :
    (d.upsertFingerprint f).1.Valid := by
  have hv := d.valid.users
  obtain ⟨hseq, _, hle⟩ := hv.sequence
  have hrange : InInt64 (d.usersSeq + 1) := ⟨by omega, h⟩
  have hzero : InInt64 0 := by decide
  have hnext : 0 ≤ d.usersSeq + 1 := by omega
  have hbelow : ∀ u ∈ d.users, u.userId ≤ d.usersSeq + 1 := by
    intro u hu
    have hold := hle u hu
    omega
  unfold Tables.upsertFingerprint
  cases hfind : d.findFingerprint f with
  | some u =>
    apply d.valid.withUsers (fun _ hid => hid)
    exact ⟨hv.key, hv.unique, hv.check, hv.range, hnext, hrange, hbelow⟩
  | none =>
    have hnew : ∀ {Q : User → Prop}, (∀ u ∈ d.users, Q u) → Q ⟨d.usersSeq + 1, some f, 0⟩ →
        ∀ u ∈ d.users ++ [⟨d.usersSeq + 1, some f, 0⟩], Q u := by
      intro Q hold hq u hu
      rcases List.mem_append.1 hu with hu | hu
      · exact hold u hu
      · rw [List.mem_singleton.1 hu]
        exact hq
    apply d.valid.withUsers
    · intro id hid
      rw [List.map_append]
      exact List.mem_append_left _ hid
    · refine ⟨?_, ?_, hnew hv.check le_rfl, hnew hv.range ⟨hrange, hzero⟩, hnext, hrange,
        hnew hbelow le_rfl⟩
      · simp only [Tables.userIds, List.map_append, List.map_cons, List.map_nil]
        apply List.nodup_append.2
        refine ⟨hv.key, by simp, ?_⟩
        intro a ha b hb hab
        obtain ⟨u, hu, rfl⟩ := List.mem_map.1 ha
        have hold := hle u hu
        rw [List.mem_singleton] at hb
        omega
      · simp only [List.filterMap_append, List.filterMap_cons, List.filterMap_nil]
        apply List.nodup_append.2
        refine ⟨hv.unique, by simp, ?_⟩
        intro a ha b hb hab
        obtain ⟨u, hu, huf⟩ := List.mem_filterMap.1 ha
        rw [List.mem_singleton] at hb
        have hne := List.find?_eq_none.1 hfind u hu
        simp [huf, hab, hb] at hne

theorem mem_identities_of_findFingerprint (d : Db) {f : CString} {u : User}
    (h : d.findFingerprint f = some u) : (u.userId, some f) ∈ d.identities := by
  have hf : u.fingerprint = some f := by simpa using List.find?_some h
  have hmem := List.mem_of_find?_eq_some h
  rw [← hf]
  exact List.mem_map.2 ⟨u, hmem, rfl⟩

theorem mem_userIds_of_identities (d : Db) {p : Int × Option CString} (h : p ∈ d.identities) :
    p.1 ∈ d.userIds := by
  obtain ⟨u, hu, rfl⟩ := List.mem_map.1 h
  exact List.mem_map_of_mem hu

theorem mem_userIds_mono {d d' : Db} {call : ServiceCall} {a : Except Int32 Answer}
    (h : Extends d d' call a) {id : Int} (hid : id ∈ d.userIds) : id ∈ d'.userIds := by
  obtain ⟨u, hu, rfl⟩ := List.mem_map.1 hid
  exact mem_userIds_of_identities d' (h.mono _ (List.mem_map.2 ⟨u, hu, rfl⟩))

theorem fingerprint_unique (d : Db) {u v : User} {f : CString} (hu : u ∈ d.users) (hv : v ∈ d.users)
    (huf : u.fingerprint = some f) (hvf : v.fingerprint = some f) : u = v := by
  by_contra hne
  have hpair := List.pairwise_filterMap.1 d.valid.users.unique
  have hsymm : Std.Symm fun a b : User => ∀ x, a.fingerprint = some x →
      ∀ y, b.fingerprint = some y → x ≠ y := ⟨fun a b h x hx y hy => (h y hy x hx).symm⟩
  exact hpair.forall hu hv hne f huf f hvf rfl

theorem userIds_run {k : Conn Db} (hk : k.txn = none) {id : Int} (hid : id ∈ k.committed.userIds)
    (xs : List FaultyCall) : id ∈ (run serve k xs).committed.userIds := by
  have hkeep : ∀ k x, Settled (fun d => id ∈ d.userIds) k →
      Settled (fun d => id ∈ d.userIds) (serve k x) := by
    intro k x hk
    exact hk.serve (P := fun _ _ => True) (fun _ _ _ _ h _ he => mem_userIds_mono he.identities h)
      trivial
  exact (run_invariant_of_step hkeep ⟨hk, hid⟩ xs).2

theorem txn_run (xs : List FaultyCall) : (run serve start xs).txn = none :=
  (reachable_invariant (P := fun _ _ => True) (I := fun _ => True) trivial
    (fun _ _ _ _ _ _ _ => trivial) xs (meets_true serve start xs)).1

end Sshnack
