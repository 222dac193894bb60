import Sshnack.TxnFaults
import Sshnack.TxnStrays

/-!
# A serial order for operations, readers and strays

In every undisturbed interleaving the committed data are those of some calls run one after another: all
operations that committed, in commit order, and strays between them. One lemma for each kind of call
says that it keeps such an order (`Arranged`); `arranged_run` is the induction, for failures that leave
the transaction open, and `serialOrder_run` adds those that end it.
-/

namespace Txn

variable {δ σ ρ ε α ι : Type} [DecidableEq ι] {E : Engine δ σ ρ}
  {calls : ι → Prog σ ρ (Except ε α)} {f : ι → δ → δ} {d₀ c d : δ} {order early late : List ι}
  {w : World δ σ ρ (Except ε α) ι} {i : ι} {a : Call σ} {next : Reply ρ → Prog σ ρ (Except ε α)}

/-- There is a serial order. -/
def InOrder (E : Engine δ σ ρ) (calls : ι → Prog σ ρ (Except ε α)) (f : ι → δ → δ) (d₀ : δ)
    (w : World δ σ ρ (Except ε α) ι) : Prop :=
  ∃ order early late, Arranged E calls f d₀ order early late w

/-! ### The owner of the transaction -/

omit [DecidableEq ι] in
theorem bookkeeping_data (ha : (∃ s, a = .prepare s) ∨ ∃ s, a = .step s) (r : Reply ρ)
    (o : Option ι) : ownerAfter i a r o = o ∧ committer i a r = [] := by
  rcases ha with ⟨s, rfl⟩ | ⟨s, rfl⟩ <;> exact ⟨rfl, rfl⟩

theorem Arranged.data (h : Arranged E calls f d₀ order early late w) (hb : Bracketed (calls i))
    (howner : w.owner = some i) (hconn : w.conn = ⟨c, some d⟩) (hprog : w.prog i = .call a next)
    (ha : (∃ s, a = .prepare s) ∨ ∃ s, a = .step s) (hin : InTxn (Prog.call a next)) (fault : Bool) :
    InOrder E calls f d₀ (w.advance E (i, fault)) := by
  have hbad : Aborts (next .error) := by rcases ha with ⟨s, rfl⟩ | ⟨s, rfl⟩ <;> exact hin.1
  have hstands := h.owner i howner (by rw [hprog]; exact hin)
  rw [hprog, hconn] at hstands
  obtain ⟨r, d', hr, hstands'⟩ := hstands.data ha hbad fault
  rw [← hconn] at hr
  obtain ⟨howner', hcommitter⟩ := bookkeeping_data (i := i) ha r w.owner
  rw [World.advance_call E hprog hr, howner', hcommitter, List.append_nil]
  refine ⟨order, early, late, h.move hprog (by rw [hconn]) (List.Sublist.refl _) h.free ?_ ?_⟩
  · intro j hj _
    obtain rfl : i = j := Option.some.inj (howner.symm.trans hj)
    simpa only [Function.update_self] using hstands'
  · intro hnb
    exact absurd hb hnb

omit [DecidableEq ι] in
/-- The owner that comes to its COMMIT has done what it does alone after the early strays. -/
theorem Stands.atomically (h : Stands E calls f ⟨c, some d⟩ early late i (.call .commit next)) {x : α}
    (hx : next .ok = .ret (.ok x)) :
    ∃ v, d = joined f late v ∧ (calls i).atomically E (joined f early c) = (.ok x, v) := by
  cases h with
  | doomed habort => exact absurd habort (not_aborts_of_ne_rollback (by simp) next)
  | looking hlate hlooks hview hquiet =>
    refine ⟨d, by rw [hlate]; rfl, ?_⟩
    rw [Prog.atomically, ← hquiet, Prog.quietRun_call]
    simp only [Conn.perform, hx, Prog.quietRun_ret]
    exact Prod.ext rfl hview.symm
  | working v hblind hview hquiet =>
    refine ⟨v, hview, ?_⟩
    rw [Prog.atomically, ← hquiet, Prog.quietRun_call]
    simp only [Conn.perform, hx, Prog.quietRun_ret]

/-- A COMMIT makes the transaction and the strays that joined it permanent. -/
theorem Arranged.commit (h : Arranged E calls f d₀ order early late w) (hb : Bracketed (calls i))
    (howner : w.owner = some i) (hconn : w.conn = ⟨c, some d⟩) (hprog : w.prog i = .call .commit next)
    (hin : InTxn (Prog.call (.commit : Call σ) next)) :
    InOrder E calls f d₀ (w.advance E (i, false)) := by
  obtain ⟨horder, hstrays⟩ := h.fresh hprog
  have hstands := h.owner i howner (by rw [hprog]; exact hin)
  rw [hprog, hconn] at hstands
  obtain ⟨⟨x, hx⟩, _⟩ := hin
  obtain ⟨v, hview, hsolo⟩ := hstands.atomically hx
  have hcommit : w.conn.answer E false .commit = (.ok, ⟨d, none⟩) := by
    rw [hconn]
    rfl
  rw [World.advance_call E hprog (x := (i, false)) hcommit, hx]
  have hearly : i ∉ early := fun hi => hstrays (List.mem_append_left late hi)
  have hjoined : ∀ j ∈ early ++ late,
      Joined E calls f (Function.update w.prog i (.ret (.ok x))) j := by
    intro j hj
    apply (h.strays j hj).2.update
    rintro rfl
    exact hstrays hj
  have hfollows := h.follows.update horder (.ret (.ok x))
  rw [hconn] at hfollows
  refine ⟨order ++ early ++ [i] ++ late, [], [], ?_, ?_, ?_, ?_, ?_, ?_, ?_, ?_⟩
  · have hbefore := hfollows.strays fun j hj => hjoined j (List.mem_append_left late hj)
    have hown := hbefore.snoc hsolo (Function.update_self i _ w.prog)
    have hafter := hown.strays fun j hj => hjoined j (List.mem_append_right early hj)
    rw [← hview] at hafter
    exact hafter
  · rw [List.append_nil, List.append_nil]
    apply (h.once_cons hprog).perm
    rw [← List.append_assoc order, List.append_assoc (order ++ early)]
    exact List.perm_middle.symm
  · have hsub : (w.commits ++ [i]).Sublist (order ++ early ++ [i]) :=
      (h.commits.trans (List.sublist_append_left order early)).append (List.Sublist.refl [i])
    exact hsub.trans (List.sublist_append_left _ late)
  · intro j hj
    rw [List.mem_append, List.mem_append, List.mem_append, List.mem_singleton] at hj
    rcases hj with ((hj | hj) | rfl) | hj
    · exact (h.single j hj).imp_left fun hmem => List.mem_append_left [i] hmem
    · exact .inr (h.strays j (List.mem_append_left late hj)).1
    · exact .inl (List.mem_append_right _ (List.mem_singleton_self j))
    · exact .inr (h.strays j (List.mem_append_right early hj)).1
  · intro j hj
    cases hj
  · exact fun _ => ⟨rfl, rfl⟩
  · intro j hj
    cases hj
  · intro j hnb
    have hji : j ≠ i := by
      rintro rfl
      exact hnb hb
    simpa only [Function.update_of_ne hji] using h.other j hnb

theorem Arranged.inTxn (h : Arranged E calls f d₀ order early late w) (hb : Bracketed (calls i))
    (howner : w.owner = some i) (hconn : w.conn = ⟨c, some d⟩) (hprog : w.prog i = .call a next)
    (hin : InTxn (Prog.call a next)) (fault : Bool) :
    InOrder E calls f d₀ (w.advance E (i, fault)) := by
  have hgone : ∀ {o : Option ι} {k : Conn δ} {y : Except ε α}, (∀ j, o = some j → j = i) →
      ∀ {es ls : List ι} (j : ι), o = some j →
        InTxn (Function.update w.prog i (.ret y) j) →
          Stands E calls f k es ls j (Function.update w.prog i (.ret y) j) := by
    intro o k y ho es ls j hj hinj
    obtain rfl := ho j hj
    rw [Function.update_self] at hinj
    exact hinj.elim
  have howns : ∀ j, w.owner = some j → j = i := fun j hj => Option.some.inj (hj.symm.trans howner)
  cases a with
  | begin => exact hin.elim
  | prepare s => exact h.data hb howner hconn hprog (.inl ⟨s, rfl⟩) hin fault
  | step s => exact h.data hb howner hconn hprog (.inr ⟨s, rfl⟩) hin fault
  | rollback =>
    obtain ⟨y, hy⟩ := hin
    cases fault with
    | true =>
      rw [World.advance_call E hprog (x := (i, true)) (r := .error) (k := w.conn) rfl, hy]
      simp only [ownerAfter, committer, List.append_nil]
      exact ⟨order, early, late, h.move hprog rfl (List.Sublist.refl _) h.free (hgone howns)
        fun hnb => absurd hb hnb⟩
    | false =>
      rw [World.advance_call E hprog (x := (i, false)) (r := .ok) (k := ⟨c, none⟩) (by rw [hconn]; rfl),
        hy]
      simp only [ownerAfter, committer, List.append_nil]
      exact ⟨order, [], [], h.move hprog (by rw [hconn]) (List.nil_sublist _) (fun _ => ⟨rfl, rfl⟩)
        (hgone fun j hj => by cases hj) fun hnb => absurd hb hnb⟩
  | commit =>
    cases fault with
    | false => exact h.commit hb howner hconn hprog hin
    | true =>
      rw [World.advance_call E hprog (x := (i, true)) (r := .error) (k := w.conn) rfl]
      simp only [ownerAfter, committer, List.append_nil]
      refine ⟨order, early, late, h.move hprog rfl (List.Sublist.refl _) h.free ?_
        fun hnb => absurd hb hnb⟩
      intro j hj _
      obtain rfl := howns j hj
      rw [Function.update_self]
      exact .doomed (hin.2 .error (by simp))

/-! ### Calls of the other threads -/

/-- A call after which the thread is not the owner and nothing else has changed. -/
theorem Arranged.aside (h : Arranged E calls f d₀ order early late w) (howner : w.owner ≠ some i)
    (hprog : w.prog i = .call a next) {p : Prog σ ρ (Except ε α)}
    (hother : ¬ Bracketed (calls i) → Reading E p ∨ Straying E calls f i p) :
    InOrder E calls f d₀ ⟨w.conn, Function.update w.prog i p, w.owner, w.commits⟩ := by
  refine ⟨order, early, late, h.move hprog rfl (List.Sublist.refl _) h.free ?_ hother⟩
  intro j hj hin
  have hji : j ≠ i := by
    rintro rfl
    exact howner hj
  simp only [Function.update_of_ne hji] at hin ⊢
  exact h.owner j hj hin

theorem Arranged.begin (h : Arranged E calls f d₀ order early late w) (hown : Owned calls w)
    (hb : Bracketed (calls i)) (hkind : LooksFirst E f (calls i) ∨ Blind E f (calls i))
    (howner : w.owner ≠ some i) (hprog : w.prog i = .call .begin next)
    (hcall : calls i = .call .begin next) (fault : Bool) :
    InOrder E calls f d₀ (w.advance E (i, fault)) := by
  have hb' := hb
  rw [hcall] at hb' hkind
  have hrefuse : ∀ r : Reply ρ, r ≠ .ok → w.conn.answer E fault .begin = (r, w.conn) →
      ownerAfter i (Call.begin : Call σ) r w.owner = w.owner →
      InOrder E calls f d₀ (w.advance E (i, fault)) := by
    intro r hr ha ho
    rw [World.advance_call E hprog ha, ho]
    simp only [committer, List.append_nil]
    exact h.aside howner hprog fun hnb => absurd hb hnb
  cases fault with
  | true => exact hrefuse .error (by simp) rfl rfl
  | false =>
    rcases hconn : w.conn with ⟨c, _ | d⟩
    · have hnone : w.owner = none := by
        have hopen := hown.opened
        rw [hconn] at hopen
        simpa using hopen.symm
      obtain ⟨rfl, rfl⟩ := h.free hnone
      rw [World.advance_call E hprog (x := (i, false)) (r := .ok) (k := ⟨c, some c⟩)
        (by rw [hconn]; rfl)]
      simp only [ownerAfter, committer, List.append_nil]
      refine ⟨order, [], [], h.move hprog (by rw [hconn]) (List.Sublist.refl _) (fun _ => ⟨rfl, rfl⟩) ?_
        fun hnb => absurd hb hnb⟩
      intro j hj _
      obtain rfl : i = j := Option.some.inj hj
      rw [Function.update_self]
      rcases hkind with hlooks | hblind
      · exact .looking rfl (hlooks .ok) rfl fun d => by rw [hcall]; rfl
      · exact .working c (hblind .ok) rfl (by rw [hcall]; rfl)
    · exact hrefuse .error (by simp) (by rw [hconn]; rfl) rfl

theorem Arranged.read (h : Arranged E calls f d₀ order early late w) (hown : Owned calls w)
    (hb : ¬ Bracketed (calls i)) (hprog : w.prog i = .call a next)
    (hread : Reading E (Prog.call a next)) (fault : Bool) :
    InOrder E calls f d₀ (w.advance E (i, fault)) := by
  have howner : w.owner ≠ some i := fun ho => hb (hown.holder i ho).1
  have hstays : ∀ r : Reply ρ, Reading E (next r) → w.conn.answer E fault a = (r, w.conn) →
      (∃ s, a = .prepare s) ∨ (∃ s, a = .step s) → InOrder E calls f d₀ (w.advance E (i, fault)) := by
    intro r hr ha hdata
    obtain ⟨howner', hcommitter⟩ := bookkeeping_data (i := i) hdata r w.owner
    rw [World.advance_call E hprog ha, howner', hcommitter, List.append_nil]
    exact h.aside howner hprog fun _ => .inl hr
  cases a with
  | begin => exact hread.elim
  | commit => exact hread.elim
  | rollback => exact hread.elim
  | prepare s =>
    cases fault with
    | true => exact hstays .error (hread _) rfl (.inl ⟨s, rfl⟩)
    | false => exact hstays .ok (hread _) rfl (.inl ⟨s, rfl⟩)
  | step s =>
    cases fault with
    | true => exact hstays .error (hread.2 _) rfl (.inr ⟨s, rfl⟩)
    | false =>
      have hk : (w.conn.perform E (.step s)).2 = w.conn := Reading.perform_step hread.1 w.conn
      rcases ha : w.conn.perform E (.step s) with ⟨r, k⟩
      rw [ha] at hk
      obtain rfl : k = w.conn := hk
      exact hstays r (hread.2 _) ha (.inr ⟨s, rfl⟩)

omit [DecidableEq ι] in
theorem Stray.atomically {s : σ} {g : δ → δ} {p : Prog σ ρ (Except ε α)}
    (hs : ∀ d, E s d = some (g d, none)) {x : α} (hx : next .done = .ret (.ok x))
    (hquiet : ∀ k, (Prog.call (.step s) next).quietRun E k = p.quietRun E k) (d : δ) :
    p.atomically E d = (.ok x, g d) := by
  rw [Prog.atomically, ← hquiet, Prog.quietRun_call, Conn.perform_step_done (hs d), hx]
  rfl

theorem Arranged.other_update (h : Arranged E calls f d₀ order early late w) {x : Except ε α} (j : ι)
    (hnb : ¬ Bracketed (calls j)) : Reading E (Function.update w.prog i (.ret x) j) ∨
      Straying E calls f j (Function.update w.prog i (.ret x) j) := by
  by_cases hji : j = i
  · subst hji
    rw [Function.update_self]
    exact .inl trivial
  · simpa only [Function.update_of_ne hji] using h.other j hnb

/-- A stray that meets no open transaction is committed at once. -/
theorem Arranged.stray_alone (h : Arranged E calls f d₀ order [] [] w) (hlone : Lone E (calls i))
    (hnone : w.owner = none) (hconn : w.conn = ⟨c, none⟩) (hprog : w.prog i = .call a next) {x : α}
    (hsolo : ∀ d, (calls i).atomically E d = (.ok x, f i d)) :
    Arranged E calls f d₀ (order ++ [i]) [] []
      ⟨⟨f i c, none⟩, Function.update w.prog i (.ret (.ok x)), w.owner, w.commits⟩ := by
  obtain ⟨horder, _⟩ := h.fresh hprog
  have hfollows := h.follows.update horder (.ret (.ok x))
  rw [hconn] at hfollows
  refine ⟨hfollows.snoc (hsolo c) (Function.update_self i _ _), ?_, ?_, ?_, ?_, ?_, ?_, h.other_update⟩
  · have honce := h.once
    rw [List.append_nil, List.append_nil] at honce ⊢
    exact honce.append (List.nodup_singleton i) (List.disjoint_singleton.2 horder)
  · exact h.commits.trans (List.sublist_append_left order [i])
  · intro j hj
    rcases List.mem_append.1 hj with hj | hj
    · exact h.single j hj
    · rw [List.mem_singleton.1 hj]
      exact .inr hlone
  · intro j hj
    cases hj
  · exact fun _ => ⟨rfl, rfl⟩
  · intro j hj
    rw [hnone] at hj
    cases hj

omit [DecidableEq ι] in
/-- A stray that meets an open transaction joins one of the two groups. -/
theorem Stands.join {j : ι} {p : Prog σ ρ (Except ε α)}
    (h : Stands E calls f ⟨c, some d⟩ early late j p) (i : ι) :
    ∃ early' late', (early' ++ late').Perm (i :: (early ++ late)) ∧
      Stands E calls f ⟨c, some (f i d)⟩ early' late' j p := by
  have hperm : (early ++ (late ++ [i])).Perm (i :: (early ++ late)) := by
    rw [← List.append_assoc]
    exact List.perm_append_singleton i (early ++ late)
  cases h with
  | doomed habort => exact ⟨early, late ++ [i], hperm, .doomed habort⟩
  | looking hlate hlooks hview hquiet =>
    subst hlate
    refine ⟨early ++ [i], [], ?_, .looking rfl hlooks ?_ hquiet⟩
    · rw [List.append_nil, List.append_nil]
      exact List.perm_append_singleton i early
    · rw [joined_snoc]
      exact congrArg (f i) hview
  | working v hblind hview hquiet =>
    refine ⟨early, late ++ [i], hperm, .working v hblind ?_ hquiet⟩
    rw [joined_snoc]
    exact congrArg (f i) hview

theorem Arranged.stray_joins (h : Arranged E calls f d₀ order early late w) (hown : Owned calls w)
    (hlone : Lone E (calls i)) (hconn : w.conn = ⟨c, some d⟩) (hprog : w.prog i = .call a next) {x : α}
    (hsolo : ∀ d, (calls i).atomically E d = (.ok x, f i d)) :
    InOrder E calls f d₀
      ⟨⟨c, some (f i d)⟩, Function.update w.prog i (.ret (.ok x)), w.owner, w.commits⟩ := by
  obtain ⟨horder, hstrays⟩ := h.fresh hprog
  have hsome : w.owner ≠ none := by
    intro hnone
    have hopen := hown.opened
    rw [hconn, hnone] at hopen
    cases hopen
  obtain ⟨early', late', hperm, hstands⟩ : ∃ early' late',
      (early' ++ late').Perm (i :: (early ++ late)) ∧ ∀ j, w.owner = some j → InTxn (w.prog j) →
        Stands E calls f ⟨c, some (f i d)⟩ early' late' j (w.prog j) := by
    obtain ⟨j, hj⟩ := Option.ne_none_iff_exists'.1 hsome
    by_cases hin : InTxn (w.prog j)
    · have hstands := h.owner j hj hin
      rw [hconn] at hstands
      obtain ⟨early', late', hperm, hstands'⟩ := hstands.join i
      refine ⟨early', late', hperm, fun j' hj' _ => ?_⟩
      obtain rfl : j' = j := Option.some.inj (hj'.symm.trans hj)
      exact hstands'
    · -- an owner that has left its transaction open commits nothing any more
      refine ⟨i :: early, late, List.Perm.refl _, fun j' hj' hin' => ?_⟩
      obtain rfl : j' = j := Option.some.inj (hj'.symm.trans hj)
      exact absurd hin' hin
  have hfollows := h.follows.update horder (.ret (.ok x))
  rw [hconn] at hfollows
  refine ⟨order, early', late', hfollows, ?_, h.commits, h.single, ?_,
    fun hnone => absurd hnone hsome, ?_, h.other_update⟩
  · apply (h.once_cons hprog).perm
    exact List.perm_middle.symm.trans (hperm.symm.append_left order)
  · intro j hj
    rcases List.mem_cons.1 (hperm.subset hj) with rfl | hj
    · exact ⟨hlone, x, Function.update_self j _ _, hsolo⟩
    · refine ⟨(h.strays j hj).1, (h.strays j hj).2.update ?_ _⟩
      rintro rfl
      exact hstrays hj
  · intro j hj hin
    have hji : j ≠ i := by
      rintro rfl
      exact hlone.1 (hown.holder j hj).1
    simp only [Function.update_of_ne hji] at hin ⊢
    exact hstands j hj hin

theorem Arranged.stray (h : Arranged E calls f d₀ order early late w) (hown : Owned calls w)
    (hprog : w.prog i = .call a next) (hstraying : Straying E calls f i (Prog.call a next))
    (fault : Bool) : InOrder E calls f d₀ (w.advance E (i, fault)) := by
  obtain ⟨hlone, hstray, hquiet⟩ := hstraying
  have howner : w.owner ≠ some i := fun ho => hlone.1 (hown.holder i ho).1
  have hfails : ∀ {e}, next .error = .ret (.error e) →
      (∃ s, a = .prepare s) ∨ (∃ s, a = .step s) → InOrder E calls f d₀ (w.advance E (i, true)) := by
    intro e he hdata
    obtain ⟨howner', hcommitter⟩ := bookkeeping_data (i := i) hdata (.error : Reply ρ) w.owner
    rw [World.advance_call E hprog (x := (i, true)) rfl, howner', hcommitter, List.append_nil, he]
    exact h.aside howner hprog fun _ => .inl trivial
  cases a with
  | begin => exact hstray.elim
  | commit => exact hstray.elim
  | rollback => exact hstray.elim
  | prepare s =>
    obtain ⟨hbad, hnext⟩ := hstray
    cases fault with
    | true =>
      obtain ⟨e, he⟩ := hbad .error (by simp)
      exact hfails he (.inl ⟨s, rfl⟩)
    | false =>
      rw [World.advance_call E hprog (x := (i, false)) (r := .ok) (k := w.conn) rfl]
      simp only [ownerAfter, committer, List.append_nil]
      exact h.aside howner hprog fun _ => .inr ⟨hlone, hnext, hquiet⟩
  | step s =>
    obtain ⟨hs, ⟨x, hx⟩, hbad⟩ := hstray
    cases fault with
    | true =>
      obtain ⟨e, he⟩ := hbad .error (by simp)
      exact hfails he (.inr ⟨s, rfl⟩)
    | false =>
      have hsolo := Stray.atomically hs hx hquiet
      have ha : w.conn.answer E false (.step s) = (.done, w.conn.write (f i w.conn.view)) :=
        Conn.perform_step_done (hs _)
      rw [World.advance_call E hprog (x := (i, false)) ha, hx]
      simp only [ownerAfter, committer, List.append_nil]
      rcases hconn : w.conn with ⟨c, _ | d⟩
      · have hnone : w.owner = none := by
          have hopen := hown.opened
          rw [hconn] at hopen
          simpa using hopen.symm
        obtain ⟨rfl, rfl⟩ := h.free hnone
        exact ⟨order ++ [i], [], [], h.stray_alone hlone hnone hconn hprog hsolo⟩
      · exact h.stray_joins hown hlone hconn hprog hsolo

/-! ### Runs -/

/-- Operations that look at the data first or not at all, strays and readers. -/
def Kinds (E : Engine δ σ ρ) (calls : ι → Prog σ ρ (Except ε α)) (f : ι → δ → δ) : Prop :=
  ∀ i, (Bracketed (calls i) ∧ (LooksFirst E f (calls i) ∨ Blind E f (calls i))) ∨
    Stray E (f i) (calls i) ∨ Reading E (calls i)

omit [DecidableEq ι] in
theorem Kinds.bracketed_or_plain (h : Kinds E calls f) (i : ι) :
    Bracketed (calls i) ∨ Plain (calls i) := by
  rcases h i with ⟨hb, _⟩ | hstray | hread
  · exact .inl hb
  · exact .inr hstray.plain
  · exact .inr hread.plain

omit [DecidableEq ι] in
theorem arranged_start (h : Kinds E calls f) (d : δ) :
    Arranged E calls f d [] [] [] (World.start calls d) where
  follows := .nil
  once := List.nodup_nil
  commits := List.Sublist.refl []
  single j hj := by cases hj
  strays j hj := by cases hj
  free _ := ⟨rfl, rfl⟩
  owner i hi := by cases hi
  other i hb := by
    by_cases hread : Reading E (calls i)
    · exact .inl hread
    · rcases h i with ⟨hb', _⟩ | hstray | hread'
      · exact absurd hb' hb
      · exact .inr ⟨⟨hb, hread⟩, hstray, fun k => rfl⟩
      · exact absurd hread' hread

theorem InOrder.advance (hkinds : Kinds E calls f) (hown : Owned calls w)
    (h : InOrder E calls f d₀ w) (x : ι × Bool) : InOrder E calls f d₀ (w.advance E x) := by
  obtain ⟨i, fault⟩ := x
  obtain ⟨order, early, late, h⟩ := h
  cases hprog : w.prog i with
  | ret y =>
    rw [World.advance_ret E (x := (i, fault)) hprog]
    exact ⟨order, early, late, h⟩
  | call a next =>
    by_cases hb : Bracketed (calls i)
    · by_cases howner : w.owner = some i
      · obtain ⟨d, hd⟩ := Option.isSome_iff_exists.1 (hown.opened.trans (by rw [howner]; rfl))
        rcases (hown.holder i howner).2 with ⟨y, hy⟩ | hin
        · rw [hprog] at hy
          cases hy
        · rw [hprog] at hin
          exact h.inTxn hb howner (c := w.conn.committed) (d := d) (by rw [← hd]) hprog hin fault
      · rcases hown.idle i howner hb with ⟨y, hy⟩ | hcall
        · rw [hprog] at hy
          cases hy
        · have hkind : LooksFirst E f (calls i) ∨ Blind E f (calls i) := by
            rcases hkinds i with ⟨_, hkind⟩ | hstray | hread
            · exact hkind
            · cases hcalls : calls i with
              | ret y => exact .inl trivial
              | call b nx =>
                rw [hcalls] at hb hstray
                cases b <;> first | exact hb.elim | exact hstray.elim
            · cases hcalls : calls i with
              | ret y => exact .inl trivial
              | call b nx =>
                rw [hcalls] at hb hread
                cases b <;> first | exact hb.elim | exact hread.elim
          rw [hprog] at hcall
          have hb' := hb
          rw [← hcall] at hb'
          cases a with
          | begin => exact h.begin hown hb hkind howner hprog hcall.symm fault
          | _ => exact hb'.elim
    · rcases h.other i hb with hread | hstraying
      · rw [hprog] at hread
        exact h.read hown hb hprog hread fault
      · rw [hprog] at hstraying
        exact h.stray hown hprog hstraying fault

theorem arranged_run (h : Kinds E calls f) (d : δ) (sched : List (ι × Bool)) :
    Owned calls (Machine.run (World.advance E) (World.start calls d) sched) ∧
      InOrder E calls f d (Machine.run (World.advance E) (World.start calls d) sched) := by
  apply Machine.run_invariant_of_step (I := fun w => Owned calls w ∧ InOrder E calls f d w)
  · rintro w x ⟨hown, hord⟩
    refine ⟨?_, hord.advance h hown x⟩
    cases hprog : w.prog x.1 with
    | ret y =>
      rw [World.advance_ret E hprog]
      exact hown
    | call a next => exact hown.of_move (advance_move hown E hprog)
  · exact ⟨owned_start h.bracketed_or_plain d, [], [], [], arranged_start h d⟩

/-- The calls in `order` have returned what they return one after another from `d₀`, which ends in the
committed data; they are all that have committed, and strays. -/
structure SerialOrder (E : Engine δ σ ρ) (calls : ι → Prog σ ρ (Except ε α)) (d₀ : δ)
    (w : World δ σ ρ (Except ε α) ι) (order : List ι) : Prop where
  once : order.Nodup
  commits : w.commits.Sublist order
  single : ∀ i ∈ order, i ∈ w.commits ∨ Lone E (calls i)
  follows : Follows E calls w.prog order d₀ w.conn.committed

omit [DecidableEq ι] in
theorem Shadows.serialOrder {v : World δ σ ρ (Except ε α) ι} (h : Shadows calls w v)
    (hv : Arranged E calls f d₀ order early late v) : SerialOrder E calls d₀ w order where
  once := (List.nodup_append.1 hv.once).1
  commits := by
    rw [h.commits]
    exact hv.commits
  single i hi := by
    rw [h.commits]
    exact hv.single i hi
  follows := by
    have hprogs : order.map w.prog = order.map v.prog := by
      apply List.map_congr_left
      intro i hi
      rcases h.progs i with hsame | horphan
      · exact hsame
      · rcases hv.single i hi with hcommit | hlone
        · exact absurd hcommit horphan.uncommitted
        · exact absurd horphan.bracketed hlone.1
    refine ⟨?_, hprogs.trans hv.follows.results⟩
    rw [h.conn]
    exact hv.follows.data

theorem serialOrder_run (h : Kinds E calls f) (d : δ) {sched : List (ι × Fault)}
    (hsafe : Machine.Meets (World.suffer E) Undisturbed (World.start calls d) sched) :
    ∃ order, SerialOrder E calls d (Machine.run (World.suffer E) (World.start calls d) sched) order := by
  obtain ⟨labels, hshadows⟩ := shadows_run h.bracketed_or_plain d hsafe
  obtain ⟨-, order, early, late, harranged⟩ := arranged_run h d labels
  exact ⟨order, hshadows.serialOrder harranged⟩

/-! ### Without strays -/

omit [DecidableEq ι] in
theorem blind_id (p : Prog σ ρ α) : Blind E (fun (_ : ι) d => d) p := by
  induction p with
  | ret a => trivial
  | call c next ih =>
    cases c with
    | step s =>
      refine ⟨fun _ d => ?_, ih⟩
      rcases E s d with _ | ⟨d', o⟩ <;> rfl
    | _ => exact ih

omit [DecidableEq ι] in
theorem kinds_of_isolated (h : ∀ i, Bracketed (calls i) ∨ Reading E (calls i)) :
    Kinds E calls fun _ d => d := by
  intro i
  rcases h i with hb | hread
  · exact .inl ⟨hb, .inr (blind_id _)⟩
  · exact .inr (.inr hread)

omit [DecidableEq ι] in
/-- The order is then the commit order. -/
theorem SerialOrder.eq_commits (h : ∀ i, Bracketed (calls i) ∨ Reading E (calls i))
    (hw : SerialOrder E calls d₀ w order) : order = w.commits := by
  have hsub : order ⊆ w.commits := by
    intro i hi
    rcases hw.single i hi with hcommit | hlone
    · exact hcommit
    · rcases h i with hb | hread
      · exact absurd hb hlone.1
      · exact absurd hread hlone.2
  exact (hw.commits.eq_of_length_le (hw.once.subperm hsub).length_le).symm

end Txn
