import Sshnack.TxnTurns

/-!
# Interleavings that amount to a serial order

No call is made to fail, and BEGIN is called only while no transaction is open (`BeginsFree`). Then no
operation is refused: each one runs its transaction alone, and the operations that have returned have
the results of a serial execution, in the order in which their transactions ended.
-/

namespace Txn

variable {δ σ ρ ε α ι : Type}

def Prog.beginsNext : Prog σ ρ α → Bool
  | .call .begin _ => true
  | _ => false

namespace World

variable [DecidableEq ι]

def quietly (E : Engine δ σ ρ) (w : World δ σ ρ α ι) (i : ι) : World δ σ ρ α ι :=
  w.advance E (i, false)

def BeginsFree (w : World δ σ ρ α ι) (i : ι) : Prop :=
  (w.prog i).beginsNext = true → w.conn.txn.isSome = false

instance (w : World δ σ ρ α ι) (i : ι) : Decidable (w.BeginsFree i) :=
  inferInstanceAs (Decidable (_ → _))

/-- What a thread does alone from here on is not changed by its own next call. -/
theorem quietRun_quietly (E : Engine δ σ ρ) (w : World δ σ ρ α ι) (i : ι) :
    ((w.quietly E i).prog i).quietRun E (w.quietly E i).conn = (w.prog i).quietRun E w.conn := by
  cases hprog : w.prog i with
  | ret a =>
    rw [quietly, advance_ret E (x := (i, false)) hprog, hprog]
  | call c next =>
    rw [quietly, advance_call E (x := (i, false)) hprog (r := (w.conn.perform E c).1)
      (k := (w.conn.perform E c).2) rfl]
    simp only [Function.update_self, Prog.quietRun_call]

end World

/-- The operations of the list have returned, and no others, with the results and the data of their
serial execution in the order of the list. -/
structure SerialOutcome (E : Engine δ σ ρ) (calls : ι → Prog σ ρ α) (d₀ : δ) (is : List ι)
    (w : World δ σ ρ α ι) : Prop where
  once : is.Nodup
  returned : ∀ i, i ∈ is ↔ (w.prog i).result.isSome = true
  results : is.map w.prog = (serially E calls is d₀).1.map .ret
  data : w.conn.committed = (serially E calls is d₀).2

theorem serially_returned (E : Engine δ σ ρ) (calls : ι → Prog σ ρ α) (d : δ) {is : List ι}
    (h : ∀ i ∈ is, (calls i).result.isSome = true) :
    is.map calls = (serially E calls is d).1.map .ret ∧ (serially E calls is d).2 = d := by
  induction is with
  | nil => exact ⟨rfl, rfl⟩
  | cons i is ih =>
    obtain ⟨hresults, hdata⟩ := ih fun j hj => h j (List.mem_cons_of_mem i hj)
    have hret := h i List.mem_cons_self
    have halone : calls i = .ret ((calls i).atomically E d).1 ∧ ((calls i).atomically E d).2 = d := by
      cases hcall : calls i with
      | ret a => exact ⟨rfl, rfl⟩
      | call c next =>
        rw [hcall] at hret
        cases hret
    rw [serially, List.map_cons, List.map_cons, halone.2, hresults, ← halone.1]
    exact ⟨rfl, hdata⟩

theorem serialOutcome_start [Fintype ι] (E : Engine δ σ ρ) (calls : ι → Prog σ ρ α) (d : δ) :
    ∃ is, SerialOutcome E calls d is (World.start calls d) := by
  let is := (Finset.univ.filter fun i => (calls i).result.isSome = true).toList
  have hmem : ∀ i, i ∈ is ↔ (calls i).result.isSome = true := by
    intro i
    simp [is]
  obtain ⟨hresults, hdata⟩ := serially_returned E calls d fun i hi => (hmem i).1 hi
  exact ⟨is, Finset.nodup_toList _, hmem, hresults, hdata.symm⟩

variable [DecidableEq ι] {E : Engine δ σ ρ} {calls : ι → Prog σ ρ (Except ε α)}
  {w : World δ σ ρ (Except ε α) ι} {d₀ : δ} {is : List ι}

theorem SerialOutcome.update (h : SerialOutcome E calls d₀ is w) {i : ι}
    {p : Prog σ ρ (Except ε α)} {k : Conn δ} {o : Option ι} {cs : List ι}
    (hold : (w.prog i).result.isSome = false) (hnew : p.result.isSome = false)
    (hdata : k.committed = w.conn.committed) :
    SerialOutcome E calls d₀ is ⟨k, Function.update w.prog i p, o, cs⟩ := by
  have hnot : i ∉ is := by
    rw [h.returned, hold]
    exact Bool.false_ne_true
  refine ⟨h.once, ?_, ?_, hdata.trans h.data⟩
  · intro j
    by_cases hj : j = i
    · subst hj
      simpa only [Function.update_self, hnew, Bool.false_eq_true, iff_false] using hnot
    · simpa only [Function.update_of_ne hj] using h.returned j
  · exact (map_update_of_not_mem w.prog p hnot).trans h.results

theorem SerialOutcome.snoc (h : SerialOutcome E calls d₀ is w) {i : ι} {y : Except ε α} {d : δ}
    {o : Option ι} {cs : List ι} (hold : (w.prog i).result.isSome = false)
    (halone : (calls i).quietRun E ⟨w.conn.committed, none⟩ = (y, ⟨d, none⟩)) :
    SerialOutcome E calls d₀ (is ++ [i]) ⟨⟨d, none⟩, Function.update w.prog i (.ret y), o, cs⟩ := by
  have hnot : i ∉ is := by
    rw [h.returned, hold]
    exact Bool.false_ne_true
  have hat : (calls i).atomically E (serially E calls is d₀).2 = (y, d) := by
    rw [← h.data, Prog.atomically, halone]
  refine ⟨?_, ?_, ?_, ?_⟩
  · exact h.once.append (List.nodup_singleton i) (List.disjoint_singleton.2 hnot)
  · intro j
    rw [List.mem_append, List.mem_singleton]
    by_cases hj : j = i
    · subst hj
      simp [Prog.result]
    · simpa only [Function.update_of_ne hj, hj, or_false] using h.returned j
  · rw [serially_snoc, hat, List.map_append, List.map_append,
      map_update_of_not_mem w.prog _ hnot, h.results]
    simp only [List.map_cons, List.map_nil, Function.update_self]
  · rw [serially_snoc, hat]

/-- The open transaction is on its way to what its owner would do alone, and what has returned amounts
to a serial execution. -/
structure Serial (E : Engine δ σ ρ) (calls : ι → Prog σ ρ (Except ε α)) (d₀ : δ)
    (w : World δ σ ρ (Except ε α) ι) : Prop where
  tidy : Tidy calls w
  pending : ∀ i, w.owner = some i →
    (w.prog i).quietRun E w.conn = (calls i).quietRun E ⟨w.conn.committed, none⟩
  outcome : ∃ is, SerialOutcome E calls d₀ is w

theorem InTxn.result {p : Prog σ ρ (Except ε α)} (h : InTxn p) : p.result.isSome = false := by
  cases p with
  | ret x => exact h.elim
  | call c next => rfl

theorem not_refused (h : Owned calls w) {i : ι} (hb : Bracketed (calls i))
    (hfree : w.BeginsFree i) {c : Call σ} {next : Reply ρ → Prog σ ρ (Except ε α)}
    (hprog : w.prog i = .call c next) (howner : w.owner ≠ some i) (e : ε) :
    (w.quietly E i).prog i ≠ .ret (.error e) := by
  have hcall : calls i = .call c next := by
    rcases h.idle i howner hb with ⟨y, hy⟩ | hcall
    · rw [hprog] at hy
      cases hy
    · rw [← hcall, hprog]
  rw [hcall] at hb
  cases c with
  | begin =>
    have hnone : w.conn.txn = none := by
      have hclosed := hfree (by rw [hprog]; rfl)
      simpa using hclosed
    have hans : w.conn.answer E false (.begin : Call σ) =
        (.ok, ⟨w.conn.committed, some w.conn.committed⟩) := by
      rcases hconn : w.conn with ⟨d, t⟩
      rw [hconn] at hnone
      obtain rfl : t = none := hnone
      rfl
    rw [World.quietly, World.advance_call E (x := (i, false)) hprog hans]
    simp only [Function.update_self]
    intro hret
    have hin := hb.2
    rw [hret] at hin
    exact hin
  | commit => exact hb.elim
  | rollback => exact hb.elim
  | prepare s => exact hb.elim
  | step s => exact hb.elim

theorem Serial.quietly (h : Serial E calls d₀ w) (hb : ∀ i, Bracketed (calls i)) {i : ι}
    (hfree : w.BeginsFree i) : Serial E calls d₀ (w.quietly E i) := by
  cases hprog : w.prog i with
  | ret y =>
    rw [World.quietly, World.advance_ret E (x := (i, false)) hprog]
    exact h
  | call c next =>
    have hold : (w.prog i).result.isSome = false := by
      rw [hprog]
      rfl
    have hmove : Move E calls w (i, false) (w.quietly E i) := advance_move h.tidy.owned E hprog
    have htidy : Tidy calls (w.quietly E i) := h.tidy.of_move (fun _ _ => rfl) hmove
    have halone := World.quietRun_quietly E w i
    have hrefused := not_refused (E := E) h.tidy.owned (hb i) hfree hprog
    obtain ⟨is, hout⟩ := h.outcome
    generalize w.quietly E i = w' at hmove htidy halone hrefused ⊢
    have hothers : ∀ {p : Prog σ ρ (Except ε α)} {j : ι} {k : Conn δ}, some i = some j →
        p.quietRun E k = (calls i).quietRun E ⟨k.committed, none⟩ →
        (Function.update w.prog i p j).quietRun E k = (calls j).quietRun E ⟨k.committed, none⟩ := by
      intro p j k hj hp
      obtain rfl : i = j := Option.some.inj hj
      rwa [Function.update_self]
    cases hmove with
    | refused e howner _ => exact absurd (Function.update_self i _ _) (hrefused howner e)
    | began d nx hconn _ hcall hin =>
      refine ⟨htidy, fun j hj => hothers hj ?_, is, hout.update hold hin.result ?_⟩
      · rw [hcall]
        rfl
      · rw [hconn]
    | worked c d d' p howner hconn hna hin hq =>
      refine ⟨htidy, fun j hj => hothers hj ?_, is, hout.update hold hin.result (by rw [hconn])⟩
      simp only [Function.update_self] at halone
      rw [h.pending i howner, hconn] at halone
      exact halone
    | committed c d a howner hconn hna hq =>
      refine ⟨htidy, fun j hj => (by cases hj), is ++ [i], hout.snoc hold ?_⟩
      rw [← h.pending i howner, hconn, hq]
    | rolledBack c d y howner hconn =>
      refine ⟨htidy, fun j hj => (by cases hj), is ++ [i], hout.snoc hold ?_⟩
      simp only [Function.update_self] at halone
      rw [h.pending i howner] at halone
      exact halone.symm
    | stranded y nx howner hfault hroll => cases hfault
    | plain k p hnb htxn hp hread => exact absurd (hb i) hnb

/-- If BEGIN is only called while no transaction is open, the calls that have returned have the
results and the effect of a serial execution. -/
theorem serial_run [Fintype ι] (hb : ∀ i, Bracketed (calls i)) (d : δ) (sched : List ι)
    (hm : Machine.Meets (World.quietly E) World.BeginsFree (World.start calls d) sched) :
    ∃ is, SerialOutcome E calls d is
      (Machine.run (World.quietly E) (World.start calls d) sched) := by
  have hstart : Serial E calls d (World.start calls d) :=
    ⟨tidy_start (fun i => .inl (hb i)) d, fun i hi => (by cases hi), serialOutcome_start E calls d⟩
  have hrun : Serial E calls d (Machine.run (World.quietly E) (World.start calls d) sched) :=
    Machine.run_invariant (fun w i h hfree => h.quietly hb hfree) hstart hm
  exact hrun.outcome

end Txn
