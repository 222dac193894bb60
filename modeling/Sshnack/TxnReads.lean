import Sshnack.TxnInterleaving

/-!
# What a reader on a shared connection is given

A reader makes its calls on the connection on which others have their transactions. `moment` records,
at each call that is made, the thread and the committed data. If the row that a statement of a reader
finds is always the one in the committed data, and one that the reader can take in (`ReadsCommitted`),
every reply the reader gets is an error or such a reply on the committed data at one of its own calls
(`Fed`).
-/

namespace Txn

variable {δ σ ρ α ι : Type}

/-- The second program is what is left of the first one after replies that are errors, or that come
from data in `S` and satisfy `T`. -/
inductive Fed (E : Engine δ σ ρ) (T : Reply ρ → Prop) (S : δ → Prop) :
    Prog σ ρ α → Prog σ ρ α → Prop where
  | here (p) : Fed E T S p p
  | error {c next q} (h : Fed E T S (next .error) q) : Fed E T S (.call c next) q
  | reply {c next q d} (hd : S d) (ht : T ((Conn.mk d none).perform E c).1)
      (h : Fed E T S (next ((Conn.mk d none).perform E c).1) q) : Fed E T S (.call c next) q

variable {E : Engine δ σ ρ} {T : Reply ρ → Prop}

theorem Fed.trans {S : δ → Prop} {p q r : Prog σ ρ α} (h : Fed E T S p q) (h' : Fed E T S q r) :
    Fed E T S p r := by
  induction h with
  | here p => exact h'
  | error _ ih => exact .error (ih h')
  | reply hd ht _ ih => exact .reply hd ht (ih h')

theorem Fed.mono {S S' : δ → Prop} (hS : ∀ d, S d → S' d) {p q : Prog σ ρ α} (h : Fed E T S p q) :
    Fed E T S' p q := by
  induction h with
  | here p => exact .here p
  | error _ ih => exact .error ih
  | reply hd ht _ ih => exact .reply (hS _ hd) ht ih

theorem Fed.of_call {S : δ → Prop} {c : Call σ} {next : Reply ρ → Prog σ ρ α} {a : α}
    (h : Fed E T S (.call c next) (.ret a)) :
    Fed E T S (next .error) (.ret a) ∨
      ∃ d, S d ∧ T ((Conn.mk d none).perform E c).1 ∧
        Fed E T S (next ((Conn.mk d none).perform E c).1) (.ret a) := by
  cases h with
  | error h => exact .inl h
  | reply hd ht h => exact .inr ⟨_, hd, ht, h⟩

theorem Fed.of_ret {S : δ → Prop} {a : α} {q : Prog σ ρ α} (h : Fed E T S (.ret a) q) :
    q = .ret a := by
  cases h
  rfl

namespace World

variable [DecidableEq ι]

/-- The thread that is about to make a call, with the committed data. -/
def moment (w : World δ σ ρ α ι) (x : ι × Bool) : Option (ι × δ) :=
  (w.prog x.1).nextCall.map fun _ => (x.1, w.conn.committed)

/-- The next call of a reader, unless it fails, gets a reply that satisfies `T` and is the same on the
committed data. -/
def ReadsCommitted (E : Engine δ σ ρ) (T : Reply ρ → Prop) (reader : ι → Bool)
    (w : World δ σ ρ α ι) (x : ι × Bool) : Prop :=
  reader x.1 = true ∧ x.2 = false → ∀ c ∈ (w.prog x.1).nextCall,
    (w.conn.perform E c).1 = ((Conn.mk w.conn.committed none).perform E c).1 ∧
      T (w.conn.perform E c).1

instance [DecidableEq ρ] (E : Engine δ σ ρ) (T : Reply ρ → Prop) [DecidablePred T]
    (reader : ι → Bool) (w : World δ σ ρ α ι) (x : ι × Bool) :
    Decidable (w.ReadsCommitted E T reader x) :=
  inferInstanceAs (Decidable (_ → _))

/-- The next call of any thread, seen from a reader. -/
theorem fed_advance {reader : ι → Bool} {w : World δ σ ρ α ι} {x : ι × Bool}
    (hclean : w.ReadsCommitted E T reader x) {i : ι} (hi : reader i = true) :
    Fed E T (fun d => some (i, d) = w.moment x) (w.prog i) ((w.advance E x).prog i) := by
  cases hprog : w.prog x.1 with
  | ret a =>
    rw [advance_ret E hprog]
    exact .here _
  | call c next =>
    rcases hans : w.conn.answer E x.2 c with ⟨r, k⟩
    rw [advance_call E hprog hans]
    by_cases hix : i = x.1
    · subst hix
      simp only [Function.update_self, hprog]
      cases hfault : x.2 with
      | true =>
        rw [hfault, Conn.answer_fault] at hans
        obtain rfl : Reply.error = r := congrArg Prod.fst hans
        exact .error (.here _)
      | false =>
        rw [hfault, Conn.answer_quiet] at hans
        have hmoment : some (x.1, w.conn.committed) = w.moment x := by
          simp only [moment, hprog, Prog.nextCall, Option.map_some]
        obtain ⟨hsame, htaken⟩ :=
          hclean ⟨hi, hfault⟩ c (by simp only [hprog, Prog.nextCall, Option.mem_some_iff])
        rw [hans] at hsame htaken
        refine .reply hmoment ?_ ?_
        · rw [← hsame]
          exact htaken
        · rw [← hsame]
          exact .here _
    · simp only [Function.update_of_ne hix]
      exact .here _

end World

variable [DecidableEq ι]

/-- Every reply that a reader got so far is an error or a reply on data committed at one of its
calls. -/
theorem fed_run {calls : ι → Prog σ ρ α} {reader : ι → Bool} {d : δ} {sched : List (ι × Bool)}
    (hclean : Machine.Meets (World.advance E) (World.ReadsCommitted E T reader) (World.start calls d)
      sched) {i : ι} (hi : reader i = true) :
    Fed E T (fun d' => some (i, d') ∈
        Machine.trace (World.advance E) World.moment (World.start calls d) sched)
      (calls i) ((Machine.run (World.advance E) (World.start calls d) sched).prog i) := by
  let I : List (Option (ι × δ)) → World δ σ ρ α ι → Prop := fun seen w =>
    Fed E T (fun d' => some (i, d') ∈ seen) (calls i) (w.prog i)
  have hstep : ∀ seen w x, I seen w → w.ReadsCommitted E T reader x →
      I (seen ++ [w.moment x]) (w.advance E x) := by
    intro seen w x hfed hx
    apply (hfed.mono _).trans ((World.fed_advance hx hi).mono _)
    · intro d' hd'
      exact List.mem_append_left _ hd'
    · intro d' hd'
      rw [hd']
      simp
  have hstart : I [] (World.start calls d) := .here _
  exact Machine.trace_invariant hstep hstart hclean

end Txn
