import Sshnack.TxnDiscipline
import Sshnack.Machine

/-!
# Interleaved programs on one shared connection

Each thread runs one program; the threads share the connection and therefore its one transaction. A
label names the thread that makes its next call and says whether that call is made to fail. `owner`
records which thread opened the current transaction and `commits` the threads whose COMMIT
succeeded, oldest first; no call depends on either.

`Move` lists everything one step can do when the threads are bracketed operations and programs that
never touch transaction control. The invariants of this module are read off from it.
-/

namespace Txn

variable {δ σ ρ ε α ι : Type}

/-- A program that prepares and steps statements but never begins, commits or rolls back. -/
def Plain : Prog σ ρ α → Prop
  | .ret _ => True
  | .call (.prepare _) next => ∀ r, Plain (next r)
  | .call (.step _) next => ∀ r, Plain (next r)
  | .call _ _ => False

/-- A plain program whose statements leave the data alone. -/
def Reading (E : Engine δ σ ρ) : Prog σ ρ α → Prop
  | .ret _ => True
  | .call (.prepare _) next => ∀ r, Reading E (next r)
  | .call (.step s) next => (∀ d d' o, E s d = some (d', o) → d' = d) ∧ ∀ r, Reading E (next r)
  | .call _ _ => False

theorem Reading.plain {E : Engine δ σ ρ} {p : Prog σ ρ α} (h : Reading E p) : Plain p := by
  induction p with
  | ret a => trivial
  | call c next ih =>
    cases c with
    | prepare s => exact fun r => ih r (h r)
    | step s => exact fun r => ih r (h.2 r)
    | begin => exact h.elim
    | commit => exact h.elim
    | rollback => exact h.elim

theorem Reading.perform_step {E : Engine δ σ ρ} {s : σ}
    (h : ∀ d d' o, E s d = some (d', o) → d' = d) (k : Conn δ) : (k.perform E (.step s)).2 = k := by
  rcases k with ⟨c, t⟩
  simp only [Conn.perform]
  rcases hs : E s (Conn.mk c t).view with _ | ⟨d', o⟩
  · rfl
  · obtain rfl := h _ _ _ hs
    cases t <;> cases o <;> rfl

theorem Reading.run {E : Engine δ σ ρ} {p : Prog σ ρ α} (h : Reading E p) (flt : ℕ → Bool)
    (k : Conn δ) : (p.run E flt k).2 = k := by
  induction p generalizing flt with
  | ret a => rfl
  | call c next ih =>
    cases hf : flt 0 with
    | true =>
      cases c with
      | prepare s => exact (congrArg Prod.snd (Prog.run_call_fault E next k hf rfl)).trans (ih _ (h _) _)
      | step s => exact (congrArg Prod.snd (Prog.run_call_fault E next k hf rfl)).trans (ih _ (h.2 _) _)
      | begin => exact h.elim
      | commit => exact h.elim
      | rollback => exact h.elim
    | false =>
      rw [Prog.run_call_quiet E c next k hf]
      cases c with
      | prepare s => exact ih _ (h _) _
      | step s =>
        rw [Reading.perform_step h.1 k]
        exact ih _ (h.2 _) _
      | begin => exact h.elim
      | commit => exact h.elim
      | rollback => exact h.elim

structure World (δ σ ρ α ι : Type) where
  conn : Conn δ
  prog : ι → Prog σ ρ α
  owner : Option ι
  commits : List ι

def ownerAfter (i : ι) : Call σ → Reply ρ → Option ι → Option ι
  | .begin, .ok, _ => some i
  | .commit, .ok, _ => none
  | .rollback, .ok, _ => none
  | _, _, o => o

def committer (i : ι) : Call σ → Reply ρ → List ι
  | .commit, .ok => [i]
  | _, _ => []

namespace World

variable [DecidableEq ι]

def start (calls : ι → Prog σ ρ α) (d : δ) : World δ σ ρ α ι := ⟨⟨d, none⟩, calls, none, []⟩

def advance (E : Engine δ σ ρ) (w : World δ σ ρ α ι) (x : ι × Bool) : World δ σ ρ α ι :=
  match w.prog x.1 with
  | .ret _ => w
  | .call c next =>
      { conn := (w.conn.answer E x.2 c).2
        prog := Function.update w.prog x.1 (next (w.conn.answer E x.2 c).1)
        owner := ownerAfter x.1 c (w.conn.answer E x.2 c).1 w.owner
        commits := w.commits ++ committer x.1 c (w.conn.answer E x.2 c).1 }

theorem advance_ret (E : Engine δ σ ρ) {w : World δ σ ρ α ι} {x : ι × Bool} {a : α}
    (h : w.prog x.1 = .ret a) : w.advance E x = w := by
  simp only [advance, h]

theorem advance_call (E : Engine δ σ ρ) {w : World δ σ ρ α ι} {x : ι × Bool} {c : Call σ}
    {next : Reply ρ → Prog σ ρ α} (h : w.prog x.1 = .call c next) {r : Reply ρ} {k : Conn δ}
    (ha : w.conn.answer E x.2 c = (r, k)) :
    w.advance E x = ⟨k, Function.update w.prog x.1 (next r), ownerAfter x.1 c r w.owner,
      w.commits ++ committer x.1 c r⟩ := by
  simp only [advance, h, ha]

end World

/-- Who may be where: a transaction is open exactly when it has an owner, the owner is a bracketed
operation inside its transaction (or left with the transaction still open because its ROLLBACK
failed), and every other bracketed operation has not begun or has returned. -/
structure Owned (calls : ι → Prog σ ρ (Except ε α)) (w : World δ σ ρ (Except ε α) ι) : Prop where
  opened : w.conn.txn.isSome = w.owner.isSome
  holder : ∀ i, w.owner = some i →
    Bracketed (calls i) ∧ ((∃ x, w.prog i = .ret x) ∨ InTxn (w.prog i))
  idle : ∀ i, w.owner ≠ some i → Bracketed (calls i) →
    (∃ x, w.prog i = .ret x) ∨ w.prog i = calls i
  plain : ∀ i, ¬ Bracketed (calls i) → Plain (w.prog i)

variable [DecidableEq ι]

/-- Everything one call of the thread named by the label can do. -/
inductive Move (E : Engine δ σ ρ) (calls : ι → Prog σ ρ (Except ε α))
    (w : World δ σ ρ (Except ε α) ι) (x : ι × Bool) : World δ σ ρ (Except ε α) ι → Prop
  | refused (e) (howner : w.owner ≠ some x.1) (hb : Bracketed (calls x.1)) :
      Move E calls w x { w with prog := Function.update w.prog x.1 (.ret (.error e)) }
  | began (d next) (hconn : w.conn = ⟨d, none⟩) (hb : Bracketed (calls x.1))
      (hcall : calls x.1 = .call .begin next) (hin : InTxn (next .ok)) :
      Move E calls w x ⟨⟨d, some d⟩, Function.update w.prog x.1 (next .ok), some x.1, w.commits⟩
  | worked (c d d' p) (howner : w.owner = some x.1) (hconn : w.conn = ⟨c, some d⟩)
      (hna : ¬ Aborts (w.prog x.1)) (hin : InTxn p)
      (hq : Aborts p ∨ (w.prog x.1).quietRun E ⟨c, some d⟩ = p.quietRun E ⟨c, some d'⟩) :
      Move E calls w x ⟨⟨c, some d'⟩, Function.update w.prog x.1 p, some x.1, w.commits⟩
  | committed (c d a) (howner : w.owner = some x.1) (hconn : w.conn = ⟨c, some d⟩)
      (hna : ¬ Aborts (w.prog x.1))
      (hq : (w.prog x.1).quietRun E ⟨c, some d⟩ = (.ok a, ⟨d, none⟩)) :
      Move E calls w x ⟨⟨d, none⟩, Function.update w.prog x.1 (.ret (.ok a)), none,
        w.commits ++ [x.1]⟩
  | rolledBack (c d y) (howner : w.owner = some x.1) (hconn : w.conn = ⟨c, some d⟩) :
      Move E calls w x ⟨⟨c, none⟩, Function.update w.prog x.1 (.ret y), none, w.commits⟩
  | stranded (y next) (howner : w.owner = some x.1) (hfault : x.2 = true)
      (hprog : w.prog x.1 = .call .rollback next) :
      Move E calls w x { w with prog := Function.update w.prog x.1 (.ret y) }
  | plain (k p) (hb : ¬ Bracketed (calls x.1)) (htxn : k.txn.isSome = w.conn.txn.isSome)
      (hp : Plain p) (hread : Reading E (w.prog x.1) → k = w.conn ∧ Reading E p) :
      Move E calls w x ⟨k, Function.update w.prog x.1 p, w.owner, w.commits⟩

theorem not_aborts_of_ne_rollback {c : Call σ} (hc : c ≠ .rollback)
    (next : Reply ρ → Prog σ ρ (Except ε α)) : ¬ Aborts (Prog.call c next) := by
  rintro ⟨e, next', h, _⟩
  exact hc (by injection h)

variable {E : Engine δ σ ρ} {calls : ι → Prog σ ρ (Except ε α)} {w : World δ σ ρ (Except ε α) ι}
  {x : ι × Bool}

omit [DecidableEq ι] in
/-- A prepare or a step never changes the owner and only moves the data the thread sees. -/
theorem answer_data {a : Call σ} (ha : (∃ s, a = .prepare s) ∨ ∃ s, a = .step s) (fault : Bool)
    (c d : δ) : ∃ r d', (Conn.mk c (some d)).answer E fault a = (r, ⟨c, some d'⟩) ∧
      (∀ (i : ι) o, ownerAfter i a r o = o) ∧ (∀ i : ι, committer i a r = []) ∧
      (fault = true → r = .error) ∧
      (fault = false → (Conn.mk c (some d)).perform E a = (r, ⟨c, some d'⟩)) := by
  cases fault with
  | true =>
    refine ⟨.error, d, rfl, ?_⟩
    rcases ha with ⟨s, rfl⟩ | ⟨s, rfl⟩ <;> exact ⟨fun _ _ => rfl, fun _ => rfl, by simp, by simp⟩
  | false =>
    rcases ha with ⟨s, rfl⟩ | ⟨s, rfl⟩
    · exact ⟨.ok, d, rfl, fun _ _ => rfl, fun _ => rfl, by simp, fun _ => rfl⟩
    · simp only [Conn.answer_quiet, Conn.perform, Conn.view_some, Conn.write_some]
      rcases E s d with _ | ⟨d', _ | r⟩
      · exact ⟨_, d, rfl, fun _ _ => rfl, fun _ => rfl, by simp, fun _ => rfl⟩
      · exact ⟨_, d', rfl, fun _ _ => rfl, fun _ => rfl, by simp, fun _ => rfl⟩
      · exact ⟨_, d', rfl, fun _ _ => rfl, fun _ => rfl, by simp, fun _ => rfl⟩

theorem move_of_data {a : Call σ} {next : Reply ρ → Prog σ ρ (Except ε α)} {c d : δ}
    (ha : (∃ s, a = .prepare s) ∨ ∃ s, a = .step s) (howner : w.owner = some x.1)
    (hconn : w.conn = ⟨c, some d⟩) (hprog : w.prog x.1 = .call a next)
    (hbad : Aborts (next .error)) (hin : ∀ r, InTxn (next r)) :
    Move E calls w x (w.advance E x) := by
  have hna : ¬ Aborts (w.prog x.1) := by
    rw [hprog]
    exact not_aborts_of_ne_rollback (by rcases ha with ⟨s, rfl⟩ | ⟨s, rfl⟩ <;> simp) next
  obtain ⟨r, d', hr, howner', hcommit, hfault, hquiet⟩ := answer_data (ι := ι) (E := E) ha x.2 c d
  rw [← hconn] at hr
  rw [World.advance_call E hprog hr, howner, howner', hcommit, List.append_nil]
  refine .worked c d d' _ howner hconn hna (hin r) ?_
  cases hx : x.2 with
  | true => exact .inl (by rw [hfault hx]; exact hbad)
  | false => exact .inr (by rw [hprog, Prog.quietRun_call, hquiet hx])

theorem move_of_inTxn {a : Call σ} {next : Reply ρ → Prog σ ρ (Except ε α)} {c d : δ}
    (howner : w.owner = some x.1) (hconn : w.conn = ⟨c, some d⟩)
    (hprog : w.prog x.1 = .call a next) (hin : InTxn (Prog.call a next)) :
    Move E calls w x (w.advance E x) := by
  cases a with
  | begin => exact hin.elim
  | prepare s => exact move_of_data (.inl ⟨s, rfl⟩) howner hconn hprog hin.1 hin.2
  | step s => exact move_of_data (.inr ⟨s, rfl⟩) howner hconn hprog hin.1 hin.2
  | rollback =>
    obtain ⟨y, hy⟩ := hin
    cases hf : x.2 with
    | true =>
      rw [World.advance_call E hprog (r := .error) (k := w.conn) (by rw [hf]; rfl)]
      simp only [ownerAfter, committer, List.append_nil, hy]
      exact .stranded y next howner hf hprog
    | false =>
      rw [World.advance_call E hprog (r := .ok) (k := ⟨c, none⟩) (by rw [hf, hconn]; rfl)]
      simp only [ownerAfter, committer, List.append_nil, hy]
      exact .rolledBack c d y howner hconn
  | commit =>
    have hna : ¬ Aborts (w.prog x.1) := by
      rw [hprog]
      exact not_aborts_of_ne_rollback (by simp) next
    obtain ⟨⟨a, ha⟩, hbad⟩ := hin
    cases hf : x.2 with
    | true =>
      rw [World.advance_call E hprog (r := .error) (k := ⟨c, some d⟩) (by rw [hf, hconn]; rfl)]
      simp only [ownerAfter, committer, List.append_nil, howner]
      have hab := hbad .error (by simp)
      exact .worked c d d _ howner hconn hna hab.inTxn (.inl hab)
    | false =>
      rw [World.advance_call E hprog (r := .ok) (k := ⟨d, none⟩) (by rw [hf, hconn]; rfl)]
      simp only [ownerAfter, committer, ha]
      exact .committed c d a howner hconn hna (by
        simp only [hprog, Prog.quietRun_call, Conn.perform, ha, Prog.quietRun_ret])

theorem move_of_begin {next : Reply ρ → Prog σ ρ (Except ε α)}
    (howner : w.owner ≠ some x.1) (hb : Bracketed (calls x.1))
    (hprog : w.prog x.1 = .call .begin next) (hcall : calls x.1 = .call .begin next) :
    Move E calls w x (w.advance E x) := by
  have hb' := hb
  rw [hcall] at hb'
  have hrefuse : ∀ r : Reply ρ, r ≠ .ok → w.conn.answer E x.2 .begin = (r, w.conn) →
      ownerAfter x.1 (Call.begin : Call σ) r w.owner = w.owner →
      Move E calls w x (w.advance E x) := by
    intro r hr ha ho
    obtain ⟨e, he⟩ := hb'.1 r hr
    rw [World.advance_call E hprog ha, ho, he]
    simp only [committer, List.append_nil]
    exact .refused e howner hb
  cases hf : x.2 with
  | true => exact hrefuse .error (by simp) (by rw [hf]; rfl) rfl
  | false =>
    rcases hconn : w.conn with ⟨c, _ | d⟩
    · rw [World.advance_call E hprog (r := .ok) (k := ⟨c, some c⟩) (by rw [hf, hconn]; rfl)]
      simp only [ownerAfter, committer, List.append_nil]
      exact .began c next hconn hb hcall hb'.2
    · exact hrefuse .error (by simp) (by rw [hf, hconn]; rfl) rfl

theorem move_of_plain {a : Call σ} {next : Reply ρ → Prog σ ρ (Except ε α)}
    (hb : ¬ Bracketed (calls x.1)) (hprog : w.prog x.1 = .call a next)
    (hp : Plain (Prog.call a next)) : Move E calls w x (w.advance E x) := by
  cases a with
  | begin => exact hp.elim
  | commit => exact hp.elim
  | rollback => exact hp.elim
  | prepare s =>
    have hk : (w.conn.answer E x.2 (.prepare s)).2 = w.conn := by cases x.2 <;> rfl
    rcases ha : w.conn.answer E x.2 (.prepare s) with ⟨r, k⟩
    rw [ha] at hk
    rw [World.advance_call E hprog ha, show k = w.conn from hk]
    simp only [ownerAfter, committer, List.append_nil]
    exact .plain _ _ hb rfl (hp _) (fun hr => ⟨rfl, by rw [hprog] at hr; exact hr _⟩)
  | step s =>
    have hk : (w.conn.answer E x.2 (.step s)).2.txn.isSome = w.conn.txn.isSome ∧
        ((∀ d d' o, E s d = some (d', o) → d' = d) →
          (w.conn.answer E x.2 (.step s)).2 = w.conn) := by
      cases x.2 with
      | true => exact ⟨rfl, fun _ => rfl⟩
      | false => exact ⟨Conn.perform_step_isSome E s w.conn, fun h => Reading.perform_step h w.conn⟩
    rcases ha : w.conn.answer E x.2 (.step s) with ⟨r, k⟩
    rw [ha] at hk
    rw [World.advance_call E hprog ha]
    simp only [ownerAfter, committer, List.append_nil]
    exact .plain k _ hb hk.1 (hp _) (fun hr => by rw [hprog] at hr; exact ⟨hk.2 hr.1, hr.2 _⟩)

/-- One call of the interleaving is one of the listed moves. -/
theorem advance_move (h : Owned calls w) (E : Engine δ σ ρ) {x : ι × Bool} {a : Call σ}
    {next : Reply ρ → Prog σ ρ (Except ε α)} (hprog : w.prog x.1 = .call a next) :
    Move E calls w x (w.advance E x) := by
  by_cases hb : Bracketed (calls x.1)
  · by_cases howner : w.owner = some x.1
    · have hsome : w.conn.txn.isSome = true := by rw [h.opened, howner]; rfl
      obtain ⟨d, hd⟩ := Option.isSome_iff_exists.1 hsome
      rcases (h.holder x.1 howner).2 with ⟨y, hy⟩ | hin
      · rw [hprog] at hy
        cases hy
      · rw [hprog] at hin
        exact move_of_inTxn (c := w.conn.committed) (d := d) howner (by rw [← hd]) hprog hin
    · rcases h.idle x.1 howner hb with ⟨y, hy⟩ | hcall
      · rw [hprog] at hy
        cases hy
      · rw [hprog] at hcall
        have hb' := hb
        rw [← hcall] at hb'
        cases a with
        | begin => exact move_of_begin howner hb hprog hcall.symm
        | commit => exact hb'.elim
        | rollback => exact hb'.elim
        | prepare s => exact hb'.elim
        | step s => exact hb'.elim
  · have hp := h.plain x.1 hb
    rw [hprog] at hp
    exact move_of_plain hb hprog hp

end Txn
