import Mathlib.Tactic

/-!
# Runs of a deterministic machine driven by labels

A machine is a function `step : S → L → S`; a run folds it over a list of labels. Whatever the
environment chooses (an argument, a fault, the thread that moves next) is part of the label, so a
statement about every run is a statement about every list of labels. `Meets P s ls` restricts a run
to steps whose label is acceptable to `P` in the state in which it is taken.
-/

namespace Machine

variable {S L : Type*} (step : S → L → S)

def run (s : S) (ls : List L) : S := ls.foldl step s

def Meets (P : S → L → Prop) : S → List L → Prop
  | _, [] => True
  | s, l :: ls => P s l ∧ Meets P (step s l) ls

instance decidableMeets (P : S → L → Prop) [∀ s l, Decidable (P s l)] :
    ∀ s ls, Decidable (Meets step P s ls)
  | _, [] => isTrue trivial
  | s, l :: ls => @instDecidableAnd _ _ _ (decidableMeets P (step s l) ls)

/-- What `out` records of each step of a run. -/
def trace {O : Type*} (out : S → L → O) : S → List L → List O
  | _, [] => []
  | s, l :: ls => out s l :: trace out (step s l) ls

@[simp] theorem run_nil (s : S) : run step s [] = s := rfl

@[simp] theorem run_cons (s : S) (l : L) (ls : List L) :
    run step s (l :: ls) = run step (step s l) ls := rfl

@[simp] theorem meets_nil (P : S → L → Prop) (s : S) : Meets step P s [] := trivial

@[simp] theorem meets_cons (P : S → L → Prop) (s : S) (l : L) (ls : List L) :
    Meets step P s (l :: ls) ↔ P s l ∧ Meets step P (step s l) ls := Iff.rfl

theorem meets_true (s : S) (ls : List L) : Meets step (fun _ _ => True) s ls := by
  induction ls generalizing s with
  | nil => trivial
  | cons l ls ih => exact ⟨trivial, ih (step s l)⟩

variable {step}

/-- What holds at the start and is kept by every acceptable step holds at the end of the run. -/
theorem run_invariant {P : S → L → Prop} {I : S → Prop}
    (hstep : ∀ s l, I s → P s l → I (step s l)) {s : S} (hs : I s) {ls : List L}
    (hm : Meets step P s ls) : I (run step s ls) := by
  induction ls generalizing s with
  | nil => exact hs
  | cons l ls ih => exact ih (hstep s l hs hm.1) hm.2

/-- What every acceptable step from an invariant state satisfies holds of every step of the run. -/
theorem meets_of_invariant {P Q : S → L → Prop} {I : S → Prop}
    (hstep : ∀ s l, I s → P s l → I (step s l)) (hQ : ∀ s l, I s → P s l → Q s l) {s : S}
    (hs : I s) {ls : List L} (hm : Meets step P s ls) : Meets step Q s ls := by
  induction ls generalizing s with
  | nil => trivial
  | cons l ls ih => exact ⟨hQ s l hs hm.1, ih (hstep s l hs hm.1) hm.2⟩

theorem meets_of_forall {P : L → Prop} {s : S} {ls : List L} (h : ∀ l ∈ ls, P l) :
    Meets step (fun _ l => P l) s ls := by
  induction ls generalizing s with
  | nil => trivial
  | cons l ls ih =>
    exact ⟨h l List.mem_cons_self, ih fun l' hl' => h l' (List.mem_cons_of_mem l hl')⟩

theorem run_invariant_of_step {I : S → Prop} (hstep : ∀ s l, I s → I (step s l)) {s : S}
    (hs : I s) (ls : List L) : I (run step s ls) :=
  run_invariant (P := fun _ _ => True) (fun s l h _ => hstep s l h) hs (meets_true step s ls)

theorem run_append (s : S) (ls ls' : List L) :
    run step s (ls ++ ls') = run step (run step s ls) ls' := List.foldl_append

theorem meets_append {P : S → L → Prop} {s : S} {ls ls' : List L} :
    Meets step P s (ls ++ ls') ↔ Meets step P s ls ∧ Meets step P (run step s ls) ls' := by
  induction ls generalizing s with
  | nil => simp
  | cons l ls ih => simp only [List.cons_append, meets_cons, ih, run_cons, and_assoc]

theorem trace_labels (s : S) (ls : List L) : trace step (fun _ l => l) s ls = ls := by
  induction ls generalizing s with
  | nil => rfl
  | cons l ls ih => simp only [trace, ih]

/-- An invariant that also speaks of what was recorded so far. -/
theorem trace_invariant {O : Type*} {out : S → L → O} {P : S → L → Prop} {I : List O → S → Prop}
    (hstep : ∀ os s l, I os s → P s l → I (os ++ [out s l]) (step s l)) {os : List O} {s : S}
    (hs : I os s) {ls : List L} (hm : Meets step P s ls) :
    I (os ++ trace step out s ls) (run step s ls) := by
  induction ls generalizing os s with
  | nil => simpa only [trace, List.append_nil, run_nil] using hs
  | cons l ls ih =>
    have hrest := ih (hstep os s l hs hm.1) hm.2
    simpa only [trace, run_cons, List.append_assoc, List.singleton_append] using hrest

end Machine
