import Sshnack.TxnIsolation

/-!
# Failures that end the transaction

A call may fail and leave the open transaction as it is (`fails`), or fail in such a way that SQLite
rolls the transaction back by itself (`ends`), as it may on a full disk, an I/O error or when memory is
short. The operation does not notice: it still makes its ROLLBACK, which by then may hit a transaction
that another thread has opened.

As long as nobody begins in between and no failure ends the transaction of another thread
(`Undisturbed`), nothing comes of it: the world is that of a run in which the ROLLBACK was made at once
(`Shadows`).
-/

namespace Txn

variable {δ σ ρ ε α ι : Type}

inductive Fault where
  | quiet
  | fails
  | ends
  deriving DecidableEq

def Call.mayEnd : Call σ → Bool
  | .step _ => true
  | .commit => true
  | _ => false

def Conn.suffer (E : Engine δ σ ρ) (fault : Fault) (c : Call σ) (k : Conn δ) : Reply ρ × Conn δ :=
  match fault with
  | .quiet => k.perform E c
  | .fails => (.error, k)
  | .ends => if c.mayEnd then (.error, ⟨k.committed, none⟩) else (.error, k)

def mayEndNext (p : Prog σ ρ α) : Bool := p.nextCall.any Call.mayEnd

section World

variable [DecidableEq ι]

def World.suffer (E : Engine δ σ ρ) (w : World δ σ ρ α ι) (x : ι × Fault) : World δ σ ρ α ι :=
  match w.prog x.1 with
  | .ret _ => w
  | .call c next =>
      { conn := (w.conn.suffer E x.2 c).2
        prog := Function.update w.prog x.1 (next (w.conn.suffer E x.2 c).1)
        owner := if (w.conn.suffer E x.2 c).2.txn.isSome then
          ownerAfter x.1 c (w.conn.suffer E x.2 c).1 w.owner else none
        commits := w.commits ++ committer x.1 c (w.conn.suffer E x.2 c).1 }

/-- A failing call ends no transaction but the thread's own, and nobody begins while another thread has
yet to make the ROLLBACK of a transaction that is no longer there. -/
structure Undisturbed (w : World δ σ ρ α ι) (x : ι × Fault) : Prop where
  own : x.2 = .ends → mayEndNext (w.prog x.1) = true → ∀ j ∈ w.owner, j = x.1
  settled : (w.prog x.1).nextCall = some .begin →
    ∀ j, (w.prog j).nextCall = some .rollback → w.owner = some j

instance [Fintype ι] [DecidableEq σ] (w : World δ σ ρ α ι) (x : ι × Fault) :
    Decidable (Undisturbed w x) :=
  decidable_of_iff ((x.2 = .ends → mayEndNext (w.prog x.1) = true → ∀ j ∈ w.owner, j = x.1) ∧
      ((w.prog x.1).nextCall = some .begin →
        ∀ j, (w.prog j).nextCall = some .rollback → w.owner = some j))
    ⟨fun ⟨h₁, h₂⟩ => ⟨h₁, h₂⟩, fun ⟨h₁, h₂⟩ => ⟨h₁, h₂⟩⟩

variable {E : Engine δ σ ρ} {calls : ι → Prog σ ρ (Except ε α)} {w v : World δ σ ρ (Except ε α) ι}
  {x : ι × Fault} {i : ι} {a : Call σ} {next : Reply ρ → Prog σ ρ (Except ε α)}

theorem World.suffer_ret (E : Engine δ σ ρ) {y : Except ε α} (h : w.prog x.1 = .ret y) :
    w.suffer E x = w := by
  simp only [suffer, h]

theorem World.suffer_call (E : Engine δ σ ρ) (h : w.prog x.1 = .call a next) {r : Reply ρ} {k : Conn δ}
    (ha : w.conn.suffer E x.2 a = (r, k)) : w.suffer E x =
      ⟨k, Function.update w.prog x.1 (next r),
        if k.txn.isSome then ownerAfter x.1 a r w.owner else none,
        w.commits ++ committer x.1 a r⟩ := by
  simp only [suffer, h, ha]

/-! ### Runs without such failures -/

def Returned (w : World δ σ ρ (Except ε α) ι) : Prop :=
  ∀ i ∈ w.commits, ∃ a, w.prog i = .ret (.ok a)

theorem Returned.advance (h : Returned w) (hown : Owned calls w) (x : ι × Bool) :
    Returned (w.advance E x) := by
  cases hprog : w.prog x.1 with
  | ret y =>
    rw [World.advance_ret E hprog]
    exact h
  | call a next =>
    have hfresh {p : Prog σ ρ (Except ε α)} {i : ι} (hi : i ∈ w.commits) :
        ∃ b, Function.update w.prog x.1 p i = .ret (.ok b) := by
      obtain ⟨b, hb⟩ := h i hi
      have hne : i ≠ x.1 := by
        rintro rfl
        rw [hprog] at hb
        cases hb
      exact ⟨b, by rw [Function.update_of_ne hne, hb]⟩
    have hm := advance_move hown E hprog
    generalize w.advance E x = w' at hm
    cases hm with
    | committed c d b howner hconn hna hq =>
      intro i hi
      rcases List.mem_append.1 hi with hi | hi
      · exact hfresh hi
      · rw [List.mem_singleton.1 hi]
        exact ⟨b, Function.update_self x.1 _ _⟩
    | _ => exact fun i hi => hfresh hi

theorem Owned.advance (h : Owned calls w) (x : ι × Bool) : Owned calls (w.advance E x) := by
  cases hprog : w.prog x.1 with
  | ret y =>
    rw [World.advance_ret E hprog]
    exact h
  | call a next => exact h.of_move (advance_move h E hprog)

theorem owned_run (h : ∀ i, Bracketed (calls i) ∨ Plain (calls i)) (d : δ) (sched : List (ι × Bool)) :
    Owned calls (Machine.run (World.advance E) (World.start calls d) sched) ∧
      Returned (Machine.run (World.advance E) (World.start calls d) sched) := by
  apply Machine.run_invariant_of_step (I := fun w => Owned calls w ∧ Returned w)
  · rintro w x ⟨hown, hret⟩
    exact ⟨hown.advance x, hret.advance hown x⟩
  · exact ⟨owned_start h d, fun i hi => by cases hi⟩

/-- A call that fails leaves the transaction open. -/
def kept (x : ι × Bool) : ι × Fault := (x.1, if x.2 then .fails else .quiet)

theorem Owned.suffer_kept (h : Owned calls w) (x : ι × Bool) :
    w.suffer E (kept x) = w.advance E x := by
  cases hprog : w.prog x.1 with
  | ret y => rw [World.advance_ret E hprog, World.suffer_ret E (x := kept x) hprog]
  | call a next =>
    have hanswer : w.conn.suffer E (kept x).2 a = w.conn.answer E x.2 a := by
      unfold kept
      cases x.2 <;> rfl
    obtain ⟨⟨r, k⟩, hreply⟩ : ∃ reply, w.conn.answer E x.2 a = reply := ⟨_, rfl⟩
    have hopened := (h.advance (E := E) x).opened
    rw [World.advance_call E hprog hreply] at hopened ⊢
    rw [World.suffer_call E (x := kept x) hprog (hanswer.trans hreply)]
    cases hk : k.txn.isSome with
    | true => rfl
    | false =>
      rw [hk] at hopened
      have hnone : ownerAfter x.1 a r w.owner = none := by simpa using hopened.symm
      rw [hnone]
      rfl

omit [DecidableEq ι] in
theorem Owned.undisturbed_kept (h : Owned calls w) (x : ι × Bool) : Undisturbed w (kept x) where
  own hends := by
    have hne : (if x.2 then Fault.fails else .quiet) ≠ .ends := by split <;> decide
    exact absurd hends hne
  settled _ j hj := by
    cases hprog : w.prog j with
    | ret y =>
      rw [hprog] at hj
      cases hj
    | call a next =>
      rw [hprog] at hj
      obtain rfl := Option.some.inj hj
      by_cases hb : Bracketed (calls j)
      · exact h.acts_in_own hb hprog rfl
      · have hplain := h.plain j hb
        rw [hprog] at hplain
        exact hplain.elim

/-- An interleaving in which every failure leaves the transaction open is undisturbed. -/
theorem meets_kept (h : ∀ i, Bracketed (calls i) ∨ Plain (calls i)) (d : δ)
    (sched : List (ι × Bool)) :
    Machine.Meets (World.suffer E) Undisturbed (World.start calls d) (sched.map kept) ∧
      Machine.run (World.suffer E) (World.start calls d) (sched.map kept) =
        Machine.run (World.advance E) (World.start calls d) sched := by
  have hown := owned_start h d
  generalize World.start calls d = w at hown
  induction sched generalizing w with
  | nil => exact ⟨trivial, rfl⟩
  | cons x sched ih =>
    obtain ⟨hmeets, hrun⟩ := ih (w.advance E x) (hown.advance x)
    rw [List.map_cons, Machine.meets_cons, Machine.run_cons, Machine.run_cons, hown.suffer_kept]
    exact ⟨⟨hown.undisturbed_kept x, hmeets⟩, hrun⟩

/-! ### The simulation -/

/-- The thread's transaction was ended for it: it has yet to make its ROLLBACK, and in the other world
it has returned already. -/
structure Orphaned (calls : ι → Prog σ ρ (Except ε α)) (w v : World δ σ ρ (Except ε α) ι) (i : ι) :
    Prop where
  bracketed : Bracketed (calls i)
  closed : v.conn.txn = none
  uncommitted : i ∉ v.commits
  aborting : ∃ e next, w.prog i = .call .rollback next ∧ (∀ r, next r = .ret (.error e)) ∧
    v.prog i = .ret (.error e)

/-- `w` is `v` but for threads that have lost their transaction. -/
structure Shadows (calls : ι → Prog σ ρ (Except ε α)) (w v : World δ σ ρ (Except ε α) ι) : Prop where
  conn : w.conn = v.conn
  owner : w.owner = v.owner
  commits : w.commits = v.commits
  progs : ∀ i, w.prog i = v.prog i ∨ Orphaned calls w v i

omit [DecidableEq ι] in
theorem Shadows.refl (calls : ι → Prog σ ρ (Except ε α)) (w : World δ σ ρ (Except ε α) ι) :
    Shadows calls w w := ⟨rfl, rfl, rfl, fun _ => .inl rfl⟩

theorem Shadows.update (h : Shadows calls w v) {k : Conn δ} {o : Option ι} {cs : List ι}
    {p q : Prog σ ρ (Except ε α)} (hothers : ∀ j, Orphaned calls w v j → k.txn = none ∧ j ∉ cs)
    (hself : p = q ∨ Bracketed (calls i) ∧ k.txn = none ∧ i ∉ cs ∧ ∃ e next, p = .call .rollback next ∧
      (∀ r, next r = .ret (.error e)) ∧ q = .ret (.error e)) :
    Shadows calls ⟨k, Function.update w.prog i p, o, cs⟩ ⟨k, Function.update v.prog i q, o, cs⟩ := by
  refine ⟨rfl, rfl, rfl, fun j => ?_⟩
  by_cases hji : j = i
  · subst hji
    rcases hself with hpq | ⟨hb, hclosed, hcs, e, next, hp, hnext, hq⟩
    · exact .inl (by simp only [Function.update_self, hpq])
    · exact .inr ⟨hb, hclosed, hcs, e, next, by simp only [Function.update_self, hp], hnext,
        by simp only [Function.update_self, hq]⟩
  · rcases h.progs j with heq | hj
    · exact .inl (by simp only [Function.update_of_ne hji, heq])
    · obtain ⟨hclosed, hcs⟩ := hothers j hj
      refine .inr ⟨hj.bracketed, hclosed, hcs, ?_⟩
      simp only [Function.update_of_ne hji]
      exact hj.aborting

theorem answer_closed {k : Conn δ} (hk : k.txn = none) (ha : a ≠ .begin) (fault : Bool) :
    (k.answer E fault a).2.txn = none := by
  obtain ⟨c, t⟩ := k
  obtain rfl : t = none := hk
  cases fault with
  | true => rfl
  | false =>
    cases a with
    | begin => exact absurd rfl ha
    | commit => rfl
    | rollback => rfl
    | prepare s => rfl
    | step s =>
      have hsome := Conn.perform_step_isSome E s ⟨c, none⟩
      simpa using hsome

/-- The thread that lost its transaction makes its ROLLBACK: nothing happens. -/
theorem Shadows.orphan (h : Shadows calls w v) (hown : Owned calls v) (horphan : Orphaned calls w v i)
    (fault : Fault) : Shadows calls (w.suffer E (i, fault)) v := by
  obtain ⟨e, next, hprog, hnext, hret⟩ := horphan.aborting
  have hclosed : w.conn.txn = none := by rw [h.conn, horphan.closed]
  have hconn : w.conn.suffer E fault .rollback = (.error, w.conn) := by
    rcases hk : w.conn with ⟨c, t⟩
    rw [hk] at hclosed
    obtain rfl : t = none := hclosed
    cases fault <;> rfl
  have hfree : v.owner = none := by
    have hopen := hown.opened
    rw [horphan.closed] at hopen
    simpa using hopen.symm
  have hv : v = ⟨v.conn, Function.update v.prog i (.ret (.error e)), v.owner, v.commits⟩ := by
    rw [← hret, Function.update_eq_self]
  rw [World.suffer_call E (x := (i, fault)) hprog hconn, hclosed, hnext, hv, h.conn, hfree]
  simp only [committer, List.append_nil, h.commits]
  exact h.update (fun j hj => ⟨hj.closed, hj.uncommitted⟩) (.inl rfl)

omit [DecidableEq ι] in
theorem eq_of_mem_committer {j : ι} {r : Reply ρ} (h : j ∈ committer i a r) : j = i := by
  cases a with
  | commit =>
    cases r with
    | ok => exact List.mem_singleton.1 h
    | error | row | done => cases h
  | begin | rollback | prepare | step => cases h

/-- A call that does not end a transaction is made in both worlds. -/
theorem Shadows.both (h : Shadows calls w v) (hown : Owned calls v) (hsame : w.prog i = v.prog i)
    (hprog : v.prog i = .call a next) (fault : Fault) (b : Bool)
    (hanswer : w.conn.suffer E fault a = w.conn.answer E b a)
    (hbegin : a = .begin → ∀ j, (w.prog j).nextCall = some .rollback → w.owner = some j) :
    Shadows calls (w.suffer E (i, fault)) (v.advance E (i, b)) := by
  have hown' : Owned calls (v.advance E (i, b)) := hown.of_move (advance_move hown E hprog)
  rcases ha : v.conn.answer E b a with ⟨r, k⟩
  have hadvance := World.advance_call E (x := (i, b)) hprog ha
  have hw : w.prog i = .call a next := hsame.trans hprog
  rw [World.suffer_call E (x := (i, fault)) hw (by rw [hanswer, h.conn, ha])]
  rw [hadvance] at hown' ⊢
  have hopen : k.txn.isSome = (ownerAfter i a r v.owner).isSome := hown'.opened
  have howner : (if k.txn.isSome then ownerAfter i a r w.owner else none) =
      ownerAfter i a r v.owner := by
    rw [h.owner]
    split_ifs with hsome
    · rfl
    · rw [hopen] at hsome
      exact (Option.not_isSome_iff_eq_none.1 hsome).symm
  dsimp only at howner ⊢
  rw [howner, h.commits]
  refine h.update (fun j hj => ?_) (.inl rfl)
  -- no other thread begins, and only a COMMIT of its own would commit it
  obtain ⟨e, nx, hroll, hnx, hret⟩ := hj.aborting
  have hnb : a ≠ .begin := by
    rintro rfl
    have hj' := hbegin rfl j (by rw [hroll]; rfl)
    have hopened := hown.opened
    rw [hj.closed, ← h.owner, hj'] at hopened
    cases hopened
  have hclosed := answer_closed (E := E) hj.closed hnb b
  rw [ha] at hclosed
  refine ⟨hclosed, ?_⟩
  rw [List.mem_append, not_or]
  refine ⟨hj.uncommitted, fun hmem => ?_⟩
  rw [eq_of_mem_committer hmem, hprog] at hret
  cases hret

/-- A failure that ends the thread's own transaction is a failure that leaves it, with the ROLLBACK made
at once. -/
theorem Shadows.ended (h : Shadows calls w v) (hown : Owned calls v) (hret : Returned v)
    (hsame : w.prog i = v.prog i) (hprog : v.prog i = .call a next) (ha : a.mayEnd = true)
    (howner : v.owner = some i) :
    Shadows calls (w.suffer E (i, .ends)) ((v.advance E (i, true)).advance E (i, false)) := by
  obtain ⟨d, hd⟩ := Option.isSome_iff_exists.1 (hown.opened.trans (by rw [howner]; rfl))
  obtain ⟨hb, hholds⟩ := hown.holder i howner
  rw [hprog] at hholds
  have hin : InTxn (Prog.call a next) := hholds.resolve_left (by simp)
  obtain ⟨e, nx, haborts, hnx⟩ : Aborts (next .error) := by
    cases a with
    | step s => exact hin.1
    | commit => exact hin.2 .error (by simp)
    | begin | rollback | prepare => cases ha
  have hquiet : ∀ o : Option ι, ownerAfter i a (.error : Reply ρ) o = o ∧
      committer i a (.error : Reply ρ) = [] := by
    intro o
    cases a <;> exact ⟨rfl, rfl⟩
  have hv₁ : v.advance E (i, true) =
      ⟨v.conn, Function.update v.prog i (.call .rollback nx), some i, v.commits⟩ := by
    rw [World.advance_call E (x := (i, true)) hprog (r := .error) (k := v.conn) rfl, haborts,
      (hquiet _).1, (hquiet none).2, howner, List.append_nil]
  have hv₂ : (v.advance E (i, true)).advance E (i, false) =
      ⟨⟨v.conn.committed, none⟩, Function.update v.prog i (.ret (.error e)), none, v.commits⟩ := by
    have hroll : (v.conn).answer E false .rollback = (.ok, ⟨v.conn.committed, none⟩) := by
      rw [Conn.answer_quiet, Conn.perform, hd]
    have hu : (World.mk v.conn (Function.update v.prog i (.call .rollback nx)) (some i)
        v.commits).prog i = .call .rollback nx := Function.update_self i _ _
    rw [hv₁, World.advance_call E (x := (i, false)) hu hroll, hnx]
    simp only [ownerAfter, committer, List.append_nil, Function.update_idem]
  have hsuffer : w.conn.suffer E .ends a = (.error, ⟨v.conn.committed, none⟩) := by
    rw [Conn.suffer, if_pos ha, h.conn]
  rw [hv₂, World.suffer_call E (x := (i, .ends)) (hsame.trans hprog) hsuffer, haborts,
    (hquiet none).2, List.append_nil]
  have hfresh : i ∉ v.commits := by
    intro hmem
    obtain ⟨y, hy⟩ := hret i hmem
    rw [hprog] at hy
    cases hy
  simp only [Option.isSome_none, Bool.false_eq_true, if_false, h.commits]
  refine h.update (fun j hj => ?_) (.inr ⟨hb, rfl, hfresh, e, nx, rfl, hnx, rfl⟩)
  rw [hj.closed] at hd
  cases hd

theorem Shadows.step (h : Shadows calls w v) (hown : Owned calls v) (hret : Returned v)
    (hsafe : Undisturbed w x) :
    ∃ labels, Shadows calls (w.suffer E x) (Machine.run (World.advance E) v labels) := by
  obtain ⟨i, fault⟩ := x
  rcases h.progs i with hsame | horphan
  · cases hprog : v.prog i with
    | ret y =>
      rw [World.suffer_ret E (x := (i, fault)) (hsame.trans hprog)]
      exact ⟨[], h⟩
    | call a next =>
      have hbegin : a = .begin → ∀ j, (w.prog j).nextCall = some .rollback → w.owner = some j := by
        rintro rfl
        exact hsafe.settled (by rw [hsame, hprog]; rfl)
      have hboth (b : Bool) (hanswer : w.conn.suffer E fault a = w.conn.answer E b a) :
          ∃ labels, Shadows calls (w.suffer E (i, fault))
            (Machine.run (World.advance E) v labels) :=
        ⟨[(i, b)], h.both hown hsame hprog fault b hanswer hbegin⟩
      cases fault with
      | quiet => exact hboth false rfl
      | fails => exact hboth true rfl
      | ends =>
        cases hend : a.mayEnd with
        | false => exact hboth true (by rw [Conn.suffer, hend]; rfl)
        | true =>
          cases howner : v.owner with
          | none =>
            have hopen := hown.opened
            rw [howner] at hopen
            have hclosed : v.conn.txn = none := by simpa using hopen
            refine hboth true ?_
            rw [Conn.suffer, if_pos hend, h.conn, ← hclosed]
            rfl
          | some j =>
            have hmay : mayEndNext (w.prog i) = true := by
              rw [hsame, hprog]
              exact hend
            obtain rfl : j = i := hsafe.own rfl hmay j (by rw [h.owner, howner]; rfl)
            exact ⟨[(j, true), (j, false)], h.ended hown hret hsame hprog hend howner⟩
  · exact ⟨[], h.orphan hown horphan fault⟩

/-- An undisturbed run is one in which no failure ends a transaction. -/
theorem shadows_run (h : ∀ i, Bracketed (calls i) ∨ Plain (calls i)) (d : δ)
    {sched : List (ι × Fault)}
    (hsafe : Machine.Meets (World.suffer E) Undisturbed (World.start calls d) sched) :
    ∃ labels, Shadows calls (Machine.run (World.suffer E) (World.start calls d) sched)
      (Machine.run (World.advance E) (World.start calls d) labels) := by
  refine Machine.run_invariant (P := Undisturbed) (I := fun w => ∃ labels, Shadows calls w
    (Machine.run (World.advance E) (World.start calls d) labels)) ?_ ⟨[], .refl calls _⟩ hsafe
  rintro w x ⟨labels, hw⟩ hx
  obtain ⟨hown, hret⟩ := owned_run (E := E) h d labels
  obtain ⟨more, hstep⟩ := hw.step (E := E) hown hret hx
  exact ⟨labels ++ more, by rwa [Machine.run_append]⟩

omit [DecidableEq ι] in
theorem Shadows.acts_in_own (h : Shadows calls w v) (hown : Owned calls v) (hb : Bracketed (calls i))
    (hprog : w.prog i = .call a next) (ha : a.actsInTxn = true) {j : ι} (hj : w.owner = some j) :
    j = i := by
  rw [h.owner] at hj
  rcases h.progs i with hsame | horphan
  · have howner := hown.acts_in_own hb (hsame.symm.trans hprog) ha
    exact Option.some.inj (hj.symm.trans howner)
  · have hopen := hown.opened
    rw [horphan.closed, hj] at hopen
    cases hopen

end World

end Txn
