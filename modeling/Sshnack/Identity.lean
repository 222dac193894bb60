import Sshnack.UserRows

/-!
# Identity of users

The id returned by a lookup passes through a C int. It is the id of the row as long as ids are drawn
below `INT_MAX`, which deposits to large ids do not guarantee. `Known` is what a history of safe calls
says about the users table; stability, uniqueness and freshness of ids are read off from it.
-/

namespace Sshnack

open Txn Machine

abbrev Event := ServiceCall × Except Int32 Answer

def history (k : Conn Db) (xs : List FaultyCall) : List Event :=
  trace serve (fun k x => (x.1, outcome k x)) k xs

/-- The user ids that a successful write worked on or returned. -/
def usedIds : Event → List Int
  | (.txn (.ordersPurchase userId _), .ok _) => [userId.toInt]
  | (.txn (.balanceDeposit userId _), .ok _) => [userId.toInt]
  | (.txn (.balanceReset userId), .ok _) => [userId.toInt]
  | (.txn (.usersLookup _), .ok (.code userId)) => [userId.toInt]
  | _ => []

def lookup (fingerprint : CString) : FaultyCall := (.txn (.usersLookup fingerprint), fun _ => false)

/-- A lookup that creates a row draws an id below `INT_MAX`; every lookup finds the sequence below its
64-bit limit. -/
def LookupSafe (d : Db) : ServiceCall → Prop
  | .txn (.usersLookup fingerprint) => d.usersSeq + 1 < 2 ^ 63 ∧
      (d.findFingerprint fingerprint = none → d.usersSeq + 1 < 2 ^ 31)
  | _ => True

instance (d : Db) (call : ServiceCall) : Decidable (LookupSafe d call) :=
  match call with
  | .txn (.usersLookup fingerprint) => inferInstanceAs (Decidable (d.usersSeq + 1 < 2 ^ 63 ∧
      (d.findFingerprint fingerprint = none → d.usersSeq + 1 < 2 ^ 31)))
  | .txn (.ordersPurchase _ _) => isTrue trivial
  | .txn (.balanceDeposit _ _) => isTrue trivial
  | .txn (.balanceReset _) => isTrue trivial
  | .txn (.productRestock _ _) => isTrue trivial
  | .updatePrice _ _ => isTrue trivial
  | .read _ => isTrue trivial

/-- What is known of the users after the calls `es`: every row with a fingerprint has a positive C int
as its id, the fingerprints are those looked up, with the ids returned, and every id used is there. -/
structure Known (es : List Event) (d : Db) : Prop where
  named : ∀ id f, (id, some f) ∈ d.identities → 0 < id ∧ id < 2 ^ 31
  issued : ∀ f id, (.txn (.usersLookup f), .ok (.code id)) ∈ es → (id.toInt, some f) ∈ d.identities
  origin : ∀ id f, (id, some f) ∈ d.identities →
    ∃ id', (.txn (.usersLookup f), .ok (.code id')) ∈ es
  used : ∀ e ∈ es, ∀ id ∈ usedIds e, id ∈ d.userIds

/-- The id in the row that a safe upsert returns is a positive C int and the id of the
fingerprint. -/
theorem upsertFingerprint_id {es : List Event} {d d' : Db} (h : Known es d) {f : CString}
    (hsafe : LookupSafe d (.txn (.usersLookup f)))
    (htables : d'.toTables = (d.upsertFingerprint f).1) :
    ((Int32.ofInt (d.upsertFingerprint f).2).toInt, some f) ∈ d'.identities ∧
      0 < (Int32.ofInt (d.upsertFingerprint f).2).toInt ∧
      (Int32.ofInt (d.upsertFingerprint f).2).toInt = (d.upsertFingerprint f).2 := by
  cases hfind : d.findFingerprint f with
  | some u =>
    have hmem := mem_identities_of_findFingerprint d hfind
    obtain ⟨hpos, hlt⟩ := h.named u.userId f hmem
    have hid : (d.upsertFingerprint f).2 = u.userId := by
      rw [Tables.upsertFingerprint, hfind]
    have hexact := toInt_ofInt_of_nonneg hpos.le hlt
    rw [hid, hexact]
    refine ⟨?_, hpos, rfl⟩
    rw [htables, Tables.upsertFingerprint, hfind]
    exact hmem
  | none =>
    have hseq := d.valid.users.sequence.1
    have hid : (d.upsertFingerprint f).2 = d.usersSeq + 1 := by
      rw [Tables.upsertFingerprint, hfind]
    have hexact := toInt_ofInt_of_nonneg (by omega) (hsafe.2 hfind)
    rw [hid, hexact]
    refine ⟨?_, by omega, rfl⟩
    rw [htables, Tables.upsertFingerprint, hfind]
    simp only [Tables.identities, List.map_append, List.map_cons, List.map_nil]
    exact List.mem_append_right _ (List.mem_singleton.2 rfl)

theorem usedIds_error (call : ServiceCall) (rc : Int32) : usedIds (call, .error rc) = [] := by
  rcases call with op | _ | _
  · cases op <;> rfl
  · rfl
  · rfl

theorem Effect.usedIds {es : List Event} {d d' : Db} {call : ServiceCall}
    {a : Except Int32 Answer} (h : Known es d) (hsafe : LookupSafe d call)
    (he : Effect d call a d') : ∀ id ∈ usedIds (call, a), id ∈ d'.userIds := by
  have hext := he.identities
  intro id hid
  cases he with
  | purchased userId slotId slot item user _ _ _ huser _ _ _ =>
    rw [List.mem_singleton.1 hid]
    exact mem_userIds_mono hext (Tables.mem_userIds huser)
  | deposited userId amountGr _ _ htables =>
    rw [List.mem_singleton.1 hid, htables]
    exact Tables.mem_userIds_upsertBalance d.toTables userId.toInt amountGr.toInt
  | nothingToRefund userId user huser _ =>
    rw [List.mem_singleton.1 hid]
    exact Tables.mem_userIds huser
  | refunded userId user _ huser _ _ =>
    rw [List.mem_singleton.1 hid]
    exact mem_userIds_mono hext (Tables.mem_userIds huser)
  | lookedUp fingerprint _ htables =>
    rw [List.mem_singleton.1 hid]
    exact mem_userIds_of_identities d' (upsertFingerprint_id h hsafe htables).1
  | failed _ rc =>
    rw [usedIds_error] at hid
    cases hid
  | read op a => cases hid
  | restocked => cases hid
  | repriced => cases hid

theorem Known.effect {es : List Event} {d d' : Db} {call : ServiceCall} {a : Except Int32 Answer}
    (h : Known es d) (hsafe : LookupSafe d call) (he : Effect d call a d') :
    Known (es ++ [(call, a)]) d' := by
  have hext := he.identities
  have hnow : ∀ f id, (call, a) = (.txn (.usersLookup f), .ok (.code id)) →
      (id.toInt, some f) ∈ d'.identities := by
    rintro f id hevent
    obtain ⟨rfl, rfl⟩ := Prod.mk.inj hevent
    cases he with
    | lookedUp _ _ htables => exact (upsertFingerprint_id h hsafe htables).1
  refine ⟨?_, ?_, ?_, ?_⟩
  · intro id f hmem
    cases hext with
    | same _ _ heq =>
      rw [heq] at hmem
      exact h.named id f hmem
    | deposited _ _ _ heq =>
      rw [heq] at hmem
      rcases List.mem_append.1 hmem with hold | hnew
      · exact h.named id f hold
      · simp at hnew
    | created fingerprint _ hnone heq =>
      rw [heq] at hmem
      rcases List.mem_append.1 hmem with hold | hnew
      · exact h.named id f hold
      · have hseq := d.valid.users.sequence.1
        have hlt := hsafe.2 hnone
        obtain ⟨rfl, _⟩ := Prod.mk.inj (List.mem_singleton.1 hnew)
        omega
  · intro f id hmem
    rcases List.mem_append.1 hmem with hold | hnew
    · exact hext.mono _ (h.issued f id hold)
    · exact hnow f id (List.mem_singleton.1 hnew).symm
  · intro id f hmem
    have hold : (id, some f) ∈ d.identities →
        ∃ id', (.txn (.usersLookup f), .ok (.code id')) ∈ es ++ [(call, a)] := by
      intro hid
      obtain ⟨id', hid'⟩ := h.origin id f hid
      exact ⟨id', List.mem_append_left _ hid'⟩
    cases hext with
    | same _ _ heq =>
      rw [heq] at hmem
      exact hold hmem
    | deposited _ _ _ heq =>
      rw [heq] at hmem
      rcases List.mem_append.1 hmem with hmem | hnew
      · exact hold hmem
      · simp at hnew
    | created fingerprint id' hnone heq =>
      rw [heq] at hmem
      rcases List.mem_append.1 hmem with hmem | hnew
      · exact hold hmem
      · obtain ⟨_, hf⟩ := Prod.mk.inj (List.mem_singleton.1 hnew)
        obtain rfl := Option.some.inj hf
        exact ⟨id', List.mem_append_right _ (List.mem_singleton.2 rfl)⟩
  · intro e hmem id hid
    rcases List.mem_append.1 hmem with hold | hnew
    · exact mem_userIds_mono hext (h.used e hold id hid)
    · obtain rfl := List.mem_singleton.1 hnew
      exact he.usedIds h hsafe id hid

theorem known_run (xs : List FaultyCall)
    (h : Meets serve (fun k x => LookupSafe k.committed x.1) start xs) :
    Known (history start xs) (run serve start xs).committed := by
  have hstart : Known [] start.committed ∧ start.txn = none :=
    ⟨⟨fun _ _ hmem => (by cases hmem), fun _ _ hmem => (by cases hmem),
      fun _ _ hmem => (by cases hmem), fun _ hmem => (by cases hmem)⟩, rfl⟩
  have hstep : ∀ es k x, (Known es k.committed ∧ k.txn = none) → LookupSafe k.committed x.1 →
      Known (es ++ [(x.1, outcome k x)]) (serve k x).committed ∧ (serve k x).txn = none := by
    rintro es k x ⟨hknown, htxn⟩ hsafe
    have hk : Settled (Known es) k := ⟨htxn, hknown⟩
    refine ⟨hknown.effect hsafe (hk.effect x), ?_⟩
    exact (Settled.serve (P := fun _ _ => True) (I := fun _ => True)
      (fun _ _ _ _ _ _ _ => trivial) ⟨htxn, trivial⟩ trivial).1
  exact (trace_invariant hstep hstart h).1

/-- A lookup without faults, while the sequence has room. -/
theorem serve_lookup (d : Db) (f : CString) (h : d.usersSeq + 1 < 2 ^ 63) :
    (usersLookup f).run Stmt.perform (fun _ => false) ⟨d, none⟩ =
      (.ok (.code (Int32.ofInt (d.upsertFingerprint f).2)),
        ⟨⟨(d.upsertFingerprint f).1, upsertFingerprint_valid d f h⟩, none⟩) := by
  have hcheck := Tables.check_of_valid (upsertFingerprint_valid d f h)
  rw [Prog.run_quiet]
  simp [usersLookup, Conn.perform, Stmt.perform, hcheck]
  rfl

/-- What a lookup of `f` without faults after the calls `xs` should return: a positive id, that of the
one row with the fingerprint, equal to an id returned before exactly when that was for the same
fingerprint, and, at the first lookup, never seen before. -/
structure Identified (xs : List FaultyCall) (f : CString) (id : Int32) : Prop where
  answered : outcome (run serve start xs) (lookup f) = .ok (.code id)
  positive : 0 < id
  row : ∃ u ∈ (run serve start (xs ++ [lookup f])).committed.users, u.userId = id.toInt ∧
    ∀ v ∈ (run serve start (xs ++ [lookup f])).committed.users, v.fingerprint = some f ↔ v = u
  same : ∀ g id', (.txn (.usersLookup g), .ok (.code id')) ∈ history start xs → (id' = id ↔ g = f)
  fresh : (∀ id', (.txn (.usersLookup f), .ok (.code id')) ∉ history start xs) →
    (∀ ys, ys <+: xs → id.toInt ∉ (run serve start ys).committed.userIds) ∧
      ∀ e ∈ history start xs, id.toInt ∉ usedIds e

theorem not_found_of_not_issued {es : List Event} {d : Db} (h : Known es d) {f : CString}
    (hnew : ∀ id', (.txn (.usersLookup f), .ok (.code id')) ∉ es) : d.findFingerprint f = none := by
  cases hfind : d.findFingerprint f with
  | none => rfl
  | some u =>
    obtain ⟨id', hid'⟩ := h.origin u.userId f (mem_identities_of_findFingerprint d hfind)
    exact absurd hid' (hnew id')

theorem Known.issued_iff {es : List Event} {d d' : Db} {call : ServiceCall}
    {a : Except Int32 Answer} (h : Known es d) (hext : Extends d d' call a) {f g : CString}
    {id id' : Int32} (hissued : (.txn (.usersLookup g), .ok (.code id')) ∈ es) {u : User}
    (hu : u ∈ d'.users) (huid : u.userId = id.toInt) (huf : u.fingerprint = some f) :
    id' = id ↔ g = f := by
  obtain ⟨v, hv, hveq⟩ := List.mem_map.1 (hext.mono _ (h.issued g id' hissued))
  obtain ⟨hvid, hvg⟩ := Prod.mk.inj hveq
  constructor
  · intro hid
    have hsame : v.userId = u.userId := by rw [hvid, huid, hid]
    have huv := d'.user_eq_of_id hv hu hsame
    rw [huv, huf] at hvg
    exact (Option.some.inj hvg).symm
  · rintro rfl
    have huv := fingerprint_unique d' hv hu hvg huf
    rw [huv, huid] at hvid
    exact (Int32.toInt_inj.1 hvid).symm

theorem next_not_mem_userIds (d : Db) : d.usersSeq + 1 ∉ d.userIds := by
  intro hold
  obtain ⟨v, hv, hvid⟩ := List.mem_map.1 hold
  exact findUser_ne d (findUser_next d) hv hvid

/-- As long as every lookup finds room in the sequence, a lookup without faults identifies its
user. -/
theorem identified_of_lookupSafe (xs : List FaultyCall) (f : CString)
    (h : Meets serve (fun k x => LookupSafe k.committed x.1) start (xs ++ [lookup f])) :
    ∃ id, Identified xs f id := by
  obtain ⟨hxs, hlast⟩ := meets_append.1 h
  have hknown := known_run xs hxs
  have htxn := txn_run xs
  obtain ⟨d, hd⟩ : ∃ d, run serve start xs = ⟨d, none⟩ := ⟨_, by rw [← htxn]⟩
  rw [hd] at hlast hknown
  have hsafe : LookupSafe d (.txn (.usersLookup f)) := hlast.1
  have hserve := serve_lookup d f hsafe.1
  have hout : outcome (run serve start xs) (lookup f) =
      .ok (.code (Int32.ofInt (d.upsertFingerprint f).2)) := by
    rw [hd]
    exact congrArg Prod.fst hserve
  obtain ⟨d', hd', htables⟩ : ∃ d', run serve start (xs ++ [lookup f]) = ⟨d', none⟩ ∧
      d'.toTables = (d.upsertFingerprint f).1 := by
    refine ⟨⟨_, upsertFingerprint_valid d f hsafe.1⟩, ?_, rfl⟩
    rw [run_append, hd]
    exact congrArg Prod.snd hserve
  obtain ⟨hmem, hpos, hexact⟩ := upsertFingerprint_id hknown hsafe htables
  have hext : Extends d d' (.txn (.usersLookup f)) _ := (Effect.lookedUp f d' htables).identities
  obtain ⟨u, hu, hueq⟩ := List.mem_map.1 hmem
  obtain ⟨huid, huf⟩ := Prod.mk.inj hueq
  refine ⟨_, hout, Int32.lt_iff_toInt_lt.2 hpos, ?_, ?_, ?_⟩
  · rw [hd']
    refine ⟨u, hu, huid, ?_⟩
    intro v hv
    constructor
    · intro hvf
      exact fingerprint_unique d' hv hu hvf huf
    · rintro rfl
      exact huf
  · intro g id' hissued
    exact hknown.issued_iff hext hissued hu huid huf
  · intro hnew
    have hfind := not_found_of_not_issued hknown hnew
    have hid : (d.upsertFingerprint f).2 = d.usersSeq + 1 := by
      rw [Tables.upsertFingerprint, hfind]
    have habsent : (Int32.ofInt (d.upsertFingerprint f).2).toInt ∉ d.userIds := by
      rw [hexact, hid]
      exact next_not_mem_userIds d
    constructor
    · rintro ys ⟨zs, rfl⟩ hold
      rw [run_append] at hd
      have hlater := userIds_run (txn_run ys) hold zs
      rw [hd] at hlater
      exact habsent hlater
    · intro e he hused
      exact habsent (hknown.used e he _ hused)

theorem identified_after_deposit : ∃ id, Identified
    [(.txn (.balanceDeposit 7 500), fun _ => false), lookup (ascii "SHA256:a")]
    (ascii "SHA256:b") id :=
  identified_of_lookupSafe _ _ ⟨trivial, by decide, by decide, trivial⟩

/-- After a deposit to the largest C int the next lookup returns a negative id. -/
theorem not_always_identified : ¬ ∀ xs f, ∃ id, Identified xs f id := by
  intro h
  obtain ⟨id, hid⟩ := h [(.txn (.balanceDeposit 2147483647 1), fun _ => false)] (ascii "SHA256:a")
  have hanswer : outcome (run serve start [(.txn (.balanceDeposit 2147483647 1), fun _ => false)])
      (lookup (ascii "SHA256:a")) = .ok (.code (-2147483648)) := by
    decide
  have hcode := hid.answered.symm.trans hanswer
  have hpos := hid.positive
  injection hcode with hcode
  injection hcode with hcode
  rw [hcode] at hpos
  exact absurd hpos (by decide)

end Sshnack
