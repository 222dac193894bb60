import Sshnack.TxnIsolation

/-!
# Statements that join another operation's transaction

A stray is a program with one data statement and no transaction of its own. On a shared connection the
statement becomes part of whatever transaction is open and is lost when the owner rolls back. If it
survives, there is a serial order that explains it: the stray goes before the owner while the owner has
not looked at the data yet (`LooksFirst`), and after the owner once the statements that the owner still
has to make commute with it (`Blind`).
-/

namespace Txn

variable {δ σ ρ ε α ι : Type}

def Stray (E : Engine δ σ ρ) (f : δ → δ) : Prog σ ρ (Except ε α) → Prop
  | .ret x => ∃ e, x = .error e
  | .call (.prepare _) next => (∀ r, r ≠ .ok → ∃ e, next r = .ret (.error e)) ∧ Stray E f (next .ok)
  | .call (.step s) next => (∀ d, E s d = some (f d, none)) ∧ (∃ a, next .done = .ret (.ok a)) ∧
      ∀ r, r ≠ .done → ∃ e, next r = .ret (.error e)
  | .call _ _ => False

theorem Stray.plain {E : Engine δ σ ρ} {f : δ → δ} {p : Prog σ ρ (Except ε α)} (h : Stray E f p) :
    Plain p := by
  have herror : ∀ {q : Prog σ ρ (Except ε α)}, (∃ e, q = .ret (.error e)) → Plain q := by
    rintro q ⟨e, rfl⟩
    trivial
  induction p with
  | ret x => trivial
  | call c next ih =>
    cases c with
    | prepare s =>
      intro r
      cases r with
      | ok => exact ih .ok h.2
      | _ => exact herror (h.1 _ (by simp))
    | step s =>
      obtain ⟨_, ⟨a, ha⟩, hbad⟩ := h
      intro r
      cases r with
      | done =>
        rw [ha]
        trivial
      | _ => exact herror (hbad _ (by simp))
    | begin => exact h.elim
    | commit => exact h.elim
    | rollback => exact h.elim

/-- The statement has the same outcome before and after `g`. -/
def Commutes (E : Engine δ σ ρ) (s : σ) (g : δ → δ) : Prop :=
  ∀ d, E s (g d) = (E s d).map (Prod.map g id)

def Blind (E : Engine δ σ ρ) (f : ι → δ → δ) : Prog σ ρ α → Prop
  | .ret _ => True
  | .call (.step s) next => (∀ j, Commutes E s (f j)) ∧ ∀ r, Blind E f (next r)
  | .call _ next => ∀ r, Blind E f (next r)

/-- A program whose first statement only reads and whose other statements commute with every stray. -/
def LooksFirst (E : Engine δ σ ρ) (f : ι → δ → δ) : Prog σ ρ α → Prop
  | .ret _ => True
  | .call (.step s) next => (∀ d d' o, E s d = some (d', o) → d' = d) ∧ ∀ r, Blind E f (next r)
  | .call _ next => ∀ r, LooksFirst E f (next r)

def joined (f : ι → δ → δ) (js : List ι) (d : δ) : δ := js.foldl (fun d j => f j d) d

@[simp] theorem joined_nil (f : ι → δ → δ) (d : δ) : joined f [] d = d := rfl

theorem joined_snoc (f : ι → δ → δ) (js : List ι) (j : ι) (d : δ) :
    joined f (js ++ [j]) d = f j (joined f js d) := by
  simp [joined]

theorem commutes_joined {E : Engine δ σ ρ} {s : σ} {f : ι → δ → δ} (h : ∀ j, Commutes E s (f j))
    (js : List ι) : Commutes E s (joined f js) := by
  induction js using List.reverseRecOn with
  | nil =>
    intro d
    rcases hd : E s d with _ | ⟨d', o⟩ <;> simp [hd]
  | append_singleton js j ih =>
    intro d
    rw [joined_snoc, h j, ih d, Option.map_map]
    congr 1
    funext x
    simp [joined_snoc, Prod.map]

def Reply.ofRow : Option ρ → Reply ρ
  | none => .done
  | some r => .row r

theorem Conn.perform_step_some {E : Engine δ σ ρ} {s : σ} {k : Conn δ} {d : δ} {o : Option ρ}
    (h : E s k.view = some (d, o)) : k.perform E (.step s) = (.ofRow o, k.write d) := by
  cases o with
  | none => exact Conn.perform_step_done h
  | some r => exact Conn.perform_step_row h

/-- The programs have returned what they return when run one after another from `d`, which ends in
`d'`. -/
structure Follows (E : Engine δ σ ρ) (calls prog : ι → Prog σ ρ α) (is : List ι) (d d' : δ) : Prop where
  data : d' = (serially E calls is d).2
  results : is.map prog = (serially E calls is d).1.map .ret

section Order

variable {E : Engine δ σ ρ} {calls prog : ι → Prog σ ρ α} {is : List ι} {i : ι} {d d' : δ}

theorem Follows.nil : Follows E calls prog [] d d := ⟨rfl, rfl⟩

theorem Follows.snoc (h : Follows E calls prog is d d') {x : α} {d'' : δ}
    (ha : (calls i).atomically E d' = (x, d'')) (hi : prog i = .ret x) :
    Follows E calls prog (is ++ [i]) d d'' := by
  constructor
  · rw [serially_snoc, ← h.data, ha]
  · rw [serially_snoc, ← h.data, ha, List.map_append, List.map_append, h.results, List.map_singleton,
      List.map_singleton, hi]

variable [DecidableEq ι]

theorem Follows.update (h : Follows E calls prog is d d') (hi : i ∉ is) (p : Prog σ ρ α) :
    Follows E calls (Function.update prog i p) is d d' :=
  ⟨h.data, (map_update_of_not_mem prog p hi).trans h.results⟩

end Order

/-- A stray that has returned: run alone, it applies its transformation and returns the same. -/
def Joined (E : Engine δ σ ρ) (calls : ι → Prog σ ρ (Except ε α)) (f : ι → δ → δ)
    (prog : ι → Prog σ ρ (Except ε α)) (j : ι) : Prop :=
  ∃ a, prog j = .ret (.ok a) ∧ ∀ d, (calls j).atomically E d = (.ok a, f j d)

theorem Follows.strays {E : Engine δ σ ρ} {calls prog : ι → Prog σ ρ (Except ε α)}
    {f : ι → δ → δ} {is js : List ι} {d d' : δ} (h : Follows E calls prog is d d')
    (hjs : ∀ j ∈ js, Joined E calls f prog j) :
    Follows E calls prog (is ++ js) d (joined f js d') := by
  induction js using List.reverseRecOn with
  | nil => simpa using h
  | append_singleton js j ih =>
    obtain ⟨a, hret, hsolo⟩ := hjs j (by simp)
    rw [← List.append_assoc, joined_snoc]
    exact (ih fun j' hj' => hjs j' (by simp [hj'])).snoc (hsolo _) hret

def Lone (E : Engine δ σ ρ) (p : Prog σ ρ (Except ε α)) : Prop := ¬ Bracketed p ∧ ¬ Reading E p

structure Straying (E : Engine δ σ ρ) (calls : ι → Prog σ ρ (Except ε α)) (f : ι → δ → δ) (i : ι)
    (p : Prog σ ρ (Except ε α)) : Prop where
  lone : Lone E (calls i)
  stray : Stray E (f i) p
  quiet : ∀ k, p.quietRun E k = (calls i).quietRun E k

/-- Where the owner `i` of the open transaction stands, with the strays that joined the transaction
before it looked at the data (`early`) and after that (`late`). Unless it is bound to roll back, it is
on its way to what it would do alone after the early ones. -/
inductive Stands (E : Engine δ σ ρ) (calls : ι → Prog σ ρ (Except ε α)) (f : ι → δ → δ) (k : Conn δ)
    (early late : List ι) (i : ι) (p : Prog σ ρ (Except ε α)) : Prop
  | doomed (h : Aborts p)
  | looking (hlate : late = []) (hlooks : LooksFirst E f p)
      (hview : k.view = joined f early k.committed)
      (hquiet : ∀ d, p.quietRun E ⟨d, some d⟩ = (calls i).quietRun E ⟨d, none⟩)
  | working (v : δ) (hblind : Blind E f p) (hview : k.view = joined f late v)
      (hquiet : p.quietRun E ⟨joined f early k.committed, some v⟩ =
        (calls i).quietRun E ⟨joined f early k.committed, none⟩)

/-- The committed data are those of a serial order of calls that have returned, and so are the results;
the order has every committed call, and every other call in it is a stray. -/
structure Arranged (E : Engine δ σ ρ) (calls : ι → Prog σ ρ (Except ε α)) (f : ι → δ → δ) (d₀ : δ)
    (order early late : List ι) (w : World δ σ ρ (Except ε α) ι) : Prop where
  follows : Follows E calls w.prog order d₀ w.conn.committed
  once : (order ++ (early ++ late)).Nodup
  commits : w.commits.Sublist order
  single : ∀ j ∈ order, j ∈ w.commits ∨ Lone E (calls j)
  strays : ∀ j ∈ early ++ late, Lone E (calls j) ∧ Joined E calls f w.prog j
  free : w.owner = none → early = [] ∧ late = []
  owner : ∀ i, w.owner = some i → InTxn (w.prog i) → Stands E calls f w.conn early late i (w.prog i)
  other : ∀ i, ¬ Bracketed (calls i) → Reading E (w.prog i) ∨ Straying E calls f i (w.prog i)

variable [DecidableEq ι] {E : Engine δ σ ρ} {calls : ι → Prog σ ρ (Except ε α)} {f : ι → δ → δ} {d₀ : δ}
  {order early late : List ι} {w : World δ σ ρ (Except ε α) ι} {i : ι} {a : Call σ}
  {next : Reply ρ → Prog σ ρ (Except ε α)}

omit [DecidableEq ι] in
theorem Arranged.fresh (h : Arranged E calls f d₀ order early late w)
    (hprog : w.prog i = .call a next) : i ∉ order ∧ i ∉ early ++ late := by
  constructor
  · intro hi
    have hmem : w.prog i ∈ order.map w.prog := List.mem_map_of_mem hi
    rw [h.follows.results, hprog] at hmem
    obtain ⟨y, _, hy⟩ := List.mem_map.1 hmem
    cases hy
  · intro hi
    obtain ⟨_, b, hret, _⟩ := h.strays i hi
    rw [hprog] at hret
    cases hret

omit [DecidableEq ι] in
theorem Arranged.once_cons (h : Arranged E calls f d₀ order early late w)
    (hprog : w.prog i = .call a next) : (i :: (order ++ (early ++ late))).Nodup := by
  refine List.nodup_cons.2 ⟨?_, h.once⟩
  rw [List.mem_append, not_or]
  exact h.fresh hprog

theorem Joined.update {j : ι} (h : Joined E calls f w.prog j) (hj : j ≠ i)
    (p : Prog σ ρ (Except ε α)) : Joined E calls f (Function.update w.prog i p) j := by
  unfold Joined
  rw [Function.update_of_ne hj]
  exact h

/-- A call that changes neither the committed data nor their order. Strays may be dropped. -/
theorem Arranged.move (h : Arranged E calls f d₀ order early late w) (hprog : w.prog i = .call a next)
    {k : Conn δ} {p : Prog σ ρ (Except ε α)} {o : Option ι} {early' late' : List ι}
    (hcommitted : k.committed = w.conn.committed)
    (hsub : (early' ++ late').Sublist (early ++ late)) (hfree : o = none → early' = [] ∧ late' = [])
    (howner : ∀ j, o = some j → InTxn (Function.update w.prog i p j) →
      Stands E calls f k early' late' j (Function.update w.prog i p j))
    (hother : ¬ Bracketed (calls i) → Reading E p ∨ Straying E calls f i p) :
    Arranged E calls f d₀ order early' late' ⟨k, Function.update w.prog i p, o, w.commits⟩ := by
  obtain ⟨horder, hstrays⟩ := h.fresh hprog
  refine ⟨?_, h.once.sublist ((List.Sublist.refl order).append hsub), h.commits, h.single, ?_, hfree,
    howner, ?_⟩
  · rw [hcommitted]
    exact h.follows.update horder p
  · intro j hj
    have hold := hsub.subset hj
    obtain ⟨hb, hjoined⟩ := h.strays j hold
    refine ⟨hb, hjoined.update ?_ p⟩
    rintro rfl
    exact hstrays hold
  · intro j hb
    by_cases hji : j = i
    · subst hji
      simpa only [Function.update_self] using hother hb
    · simpa only [Function.update_of_ne hji] using h.other j hb

omit [DecidableEq ι] in
theorem Stands.data {c d : δ} (h : Stands E calls f ⟨c, some d⟩ early late i (.call a next))
    (ha : (∃ s, a = .prepare s) ∨ ∃ s, a = .step s) (hbad : Aborts (next .error)) (fault : Bool) :
    ∃ r d', (Conn.mk c (some d)).answer E fault a = (r, ⟨c, some d'⟩) ∧
      Stands E calls f ⟨c, some d'⟩ early late i (next r) := by
  have hne : a ≠ .rollback := by rcases ha with ⟨s, rfl⟩ | ⟨s, rfl⟩ <;> simp
  cases fault with
  | true => exact ⟨.error, d, rfl, .doomed hbad⟩
  | false =>
    rw [Conn.answer_quiet]
    cases h with
    | doomed h => exact absurd h (not_aborts_of_ne_rollback hne next)
    | looking hlate hlooks hview hquiet =>
      rcases ha with ⟨s, rfl⟩ | ⟨s, rfl⟩
      · exact ⟨.ok, d, rfl, .looking hlate (hlooks .ok) hview hquiet⟩
      · obtain rfl : d = joined f early c := hview
        rcases hs : E s (joined f early c) with _ | ⟨d', o⟩
        · exact ⟨.error, _, Conn.perform_step_none hs, .doomed hbad⟩
        · obtain rfl := hlooks.1 _ _ _ hs
          refine ⟨.ofRow o, _, Conn.perform_step_some hs, ?_⟩
          refine .working (joined f early c) (hlooks.2 _) (by rw [hlate]; rfl) ?_
          have hsolo := hquiet (joined f early c)
          rw [Prog.quietRun_call, Conn.perform_step_some hs] at hsolo
          exact hsolo
    | working v hblind hview hquiet =>
      rcases ha with ⟨s, rfl⟩ | ⟨s, rfl⟩
      · exact ⟨.ok, d, rfl, .working v (hblind .ok) hview hquiet⟩
      · obtain rfl : d = joined f late v := hview
        have hcomm := commutes_joined hblind.1 late v
        rcases hs : E s v with _ | ⟨v', o⟩
        · rw [hs] at hcomm
          exact ⟨.error, _, Conn.perform_step_none hcomm, .doomed hbad⟩
        · rw [hs] at hcomm
          refine ⟨.ofRow o, _, Conn.perform_step_some hcomm, ?_⟩
          refine .working v' (hblind.2 _) rfl ?_
          rw [Prog.quietRun_call, Conn.perform_step_some hs] at hquiet
          exact hquiet

end Txn
