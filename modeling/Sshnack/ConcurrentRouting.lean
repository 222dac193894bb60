import Sshnack.RadixTree
import Sshnack.Machine

/-!
# Concurrent lookups in the route tree

`strtok` keeps its position in one cursor for the whole process, while every worker tokenizes its own
copy of its path. `Lookups.step` lets one thread make its next `strtok` call or `find_child` step. A
call of `strtok(NULL, ..)` continues wherever the cursor points, which is in the copy of the thread
that called `strtok` with a string last. The lookup of a thread is undisturbed as long as each such
call finds the cursor in the copy of its own thread.
-/

namespace Sshnack

open Machine

variable {π ι : Type}

/-- Where a call of `search_node` stands: before its first `strtok`, before `find_child` for a token,
before `strtok(NULL, ..)`, or returned. -/
inductive LookupAt (π : Type) where
  | starting (name : CString)
  | child (parent : TreeNode π) (token : CString)
  | next (parent : TreeNode π)
  | returned (payload : Option π)

/-- The cursor of `strtok`: the thread in whose copy it points, and the text from there on. -/
structure Lookups (π ι : Type) where
  cursor : Option (ι × CString)
  threads : ι → LookupAt π

/-- The rest of a round of the loop once `strtok` has returned. -/
def LookupAt.tokenized (parent : TreeNode π) : Option CString → LookupAt π
  | none => .returned parent.payload
  | some token => .child parent token

/-- The rest of a round once the child for the token has been looked up. -/
def LookupAt.descended : Option (TreeNode π) → LookupAt π
  | none => .returned none
  | some node => .next node

def LookupAt.continues : LookupAt π → Bool
  | .next _ => true
  | _ => false

namespace Lookups

variable [DecidableEq ι]

def start (names : ι → CString) : Lookups π ι := ⟨none, fun i => .starting (names i)⟩

def step (tree : RadixTree π) (s : Lookups π ι) (i : ι) : Lookups π ι :=
  match s.threads i with
  | .starting name =>
      ⟨some (i, (strtok tree.delimeter name).2), Function.update s.threads i
        (.tokenized tree.root (strtok tree.delimeter name).1)⟩
  | .child parent token =>
      ⟨s.cursor, Function.update s.threads i (.descended (tree.childFor parent token))⟩
  | .next parent => match s.cursor with
    | none => ⟨none, Function.update s.threads i (.tokenized parent none)⟩
    | some (owner, text) =>
        ⟨some (owner, (strtok tree.delimeter text).2), Function.update s.threads i
          (.tokenized parent (strtok tree.delimeter text).1)⟩
  | .returned _ => s

/-- If the next step of the thread is `strtok(NULL, ..)`, the cursor is in its own copy. -/
def OwnCursor (s : Lookups π ι) (i : ι) : Prop :=
  (s.threads i).continues = true → s.cursor.map Prod.fst = some i

instance (s : Lookups π ι) (i : ι) : Decidable (s.OwnCursor i) :=
  inferInstanceAs (Decidable (_ → _))

def result (s : Lookups π ι) (i : ι) : Option (Option π) :=
  match s.threads i with
  | .returned payload => some payload
  | _ => none

end Lookups

/-- The thread is on its way to the payload `p`; `text` is what it has left to tokenize. -/
def LookupAt.Leads (tree : RadixTree π) (text : CString) (p : Option π) : LookupAt π → Prop
  | .starting name => tree.searchNode name = p
  | .child parent token => ((tree.childFor parent token).bind fun child => tree.search child text) = p
  | .next parent => tree.search parent text = p
  | .returned payload => payload = p

theorem leads_tokenized (tree : RadixTree π) (parent : TreeNode π) (s : CString) :
    (LookupAt.tokenized parent (strtok tree.delimeter s).1).Leads tree (strtok tree.delimeter s).2
      (tree.search parent s) := by
  rcases htok : strtok tree.delimeter s with ⟨_ | token, rest⟩
  · exact (RadixTree.search_none htok parent).symm
  · exact (RadixTree.search_token htok parent).symm

theorem leads_descended (tree : RadixTree π) (o : Option (TreeNode π)) (text : CString) :
    (LookupAt.descended o).Leads tree text (o.bind fun node => tree.search node text) := by
  cases o <;> rfl

/-- A bound on the steps that the thread has left. -/
def LookupAt.left (text : CString) : LookupAt π → ℕ
  | .starting name => 2 * name.length + 3
  | .child _ _ => 2 * text.length + 2
  | .next _ => 2 * text.length + 1
  | .returned _ => 0

theorem left_tokenized (tree : RadixTree π) (parent : TreeNode π) (s : CString) :
    (LookupAt.tokenized parent (strtok tree.delimeter s).1).left (strtok tree.delimeter s).2 ≤
      2 * s.length := by
  rcases htok : strtok tree.delimeter s with ⟨_ | token, rest⟩
  · exact Nat.zero_le _
  · have hrest := strtok_length htok
    simp only [LookupAt.tokenized, LookupAt.left]
    omega

theorem left_descended (o : Option (TreeNode π)) (text : CString) :
    (LookupAt.descended o).left text ≤ 2 * text.length + 1 := by
  cases o with
  | none => exact Nat.zero_le _
  | some node => exact le_rfl

variable [DecidableEq ι]

/-- After the steps `past` every thread leads to the payload of its lookup alone and has moved towards
it with each of its steps; the cursor, if it is in the copy of the thread, points at the text that the
thread has left. -/
def Undisturbed (tree : RadixTree π) (names : ι → CString) (past : List ι) (s : Lookups π ι) : Prop :=
  ∀ i, ∃ text, (s.threads i).Leads tree text (tree.searchNode (names i)) ∧
    ((s.threads i).left text = 0 ∨
      (s.threads i).left text + past.count i ≤ 2 * (names i).length + 3) ∧
    ∀ t, s.cursor = some (i, t) → t = text

theorem undisturbed_start (tree : RadixTree π) (names : ι → CString) :
    Undisturbed tree names [] (Lookups.start names) := by
  intro i
  exact ⟨[], rfl, .inr le_rfl, fun t ht => (by cases ht)⟩

variable {tree : RadixTree π} {names : ι → CString} {past : List ι} {s : Lookups π ι} {i : ι}

/-- The thread moved on with `text` left, and the cursor is with another thread or at that text. -/
theorem Undisturbed.update (h : Undisturbed tree names past s) {phase : LookupAt π} {text : CString}
    {cursor : Option (ι × CString)} (hleads : phase.Leads tree text (tree.searchNode (names i)))
    (hleft : phase.left text = 0 ∨
      phase.left text + (past.count i + 1) ≤ 2 * (names i).length + 3)
    (hmine : ∀ t, cursor = some (i, t) → t = text)
    (hothers : ∀ j t, j ≠ i → cursor = some (j, t) → s.cursor = some (j, t)) :
    Undisturbed tree names (past ++ [i]) ⟨cursor, Function.update s.threads i phase⟩ := by
  intro j
  by_cases hj : j = i
  · subst hj
    have hcount : (past ++ [j]).count j = past.count j + 1 := by simp
    simp only [Function.update_self, hcount]
    exact ⟨text, hleads, hleft, hmine⟩
  · obtain ⟨text', hleads', hleft', hcursor⟩ := h j
    have hcount : (past ++ [i]).count j = past.count j := by
      simp [Ne.symm hj]
    simp only [Function.update_of_ne hj, hcount]
    exact ⟨text', hleads', hleft', fun t ht => hcursor t (hothers j t hj ht)⟩

theorem Undisturbed.step (h : Undisturbed tree names past s) (hown : s.OwnCursor i) :
    Undisturbed tree names (past ++ [i]) (s.step tree i) := by
  obtain ⟨text, hleads, hleft, hcursor⟩ := h i
  unfold Lookups.step
  cases hat : s.threads i with
  | returned payload =>
    rw [hat] at hleads
    have hsame : s = ⟨s.cursor, Function.update s.threads i (.returned payload)⟩ := by
      rw [← hat, Function.update_eq_self]
    rw [hsame]
    exact h.update hleads (.inl rfl) hcursor fun _ _ _ ht => ht
  | starting name =>
    rw [hat] at hleads hleft
    have htoken := leads_tokenized tree tree.root name
    have hshort := left_tokenized tree tree.root name
    rw [← RadixTree.searchNode, hleads] at htoken
    simp only [LookupAt.left] at hleft
    apply h.update htoken (.inr (by omega))
    · intro t ht
      simpa using ht.symm
    · intro j t hj ht
      cases ht
      exact absurd rfl hj
  | child parent token =>
    rw [hat] at hleads hleft
    have hchild := leads_descended tree (tree.childFor parent token) text
    have hshort := left_descended (tree.childFor parent token) text
    rw [show ((tree.childFor parent token).bind fun node => tree.search node text) =
      tree.searchNode (names i) from hleads] at hchild
    simp only [LookupAt.left] at hleft
    exact h.update hchild (.inr (by omega)) hcursor fun _ _ _ ht => ht
  | next parent =>
    rw [hat] at hleads hleft
    have hown := hown (by rw [hat]; rfl)
    cases hc : s.cursor with
    | none =>
      rw [hc] at hown
      cases hown
    | some c =>
      obtain ⟨owner, t⟩ := c
      rw [hc] at hown
      obtain rfl : owner = i := by simpa using hown
      obtain rfl := hcursor t hc
      have htoken := leads_tokenized tree parent t
      have hshort := left_tokenized tree parent t
      rw [show tree.search parent t = tree.searchNode (names owner) from hleads] at htoken
      simp only [LookupAt.left] at hleft
      apply h.update htoken (.inr (by omega))
      · intro t' ht'
        simpa using ht'.symm
      · intro j t' hj ht'
        cases ht'
        exact absurd rfl hj

theorem undisturbed_run (tree : RadixTree π) (names : ι → CString) {sched : List ι}
    (h : Meets (Lookups.step tree) Lookups.OwnCursor (Lookups.start names) sched) :
    Undisturbed tree names sched (run (Lookups.step tree) (Lookups.start names) sched) := by
  have hstep : ∀ past s i, Undisturbed tree names past s → s.OwnCursor i →
      Undisturbed tree names (past ++ [i]) (s.step tree i) := fun _ _ _ hs hown => hs.step hown
  have hrun := trace_invariant hstep (undisturbed_start tree names) h
  rwa [List.nil_append, trace_labels] at hrun

/-- As long as each `strtok(NULL, ..)` finds the cursor where its own thread left it, a lookup returns
nothing but what it returns alone, and it returns after finitely many of its steps. -/
theorem lookups_undisturbed (tree : RadixTree π) (names : ι → CString) (sched : List ι)
    (h : Meets (Lookups.step tree) Lookups.OwnCursor (Lookups.start names) sched) (i : ι) :
    (∀ payload, (run (Lookups.step tree) (Lookups.start names) sched).result i = some payload →
      payload = tree.searchNode (names i)) ∧
    (2 * (names i).length + 3 ≤ sched.count i →
      (run (Lookups.step tree) (Lookups.start names) sched).result i =
        some (tree.searchNode (names i))) := by
  obtain ⟨text, hleads, hleft, _⟩ := undisturbed_run tree names h i
  unfold Lookups.result
  cases hat : (run (Lookups.step tree) (Lookups.start names) sched).threads i with
  | returned p =>
    rw [hat] at hleads
    obtain rfl : p = tree.searchNode (names i) := hleads
    exact ⟨fun payload hp => (Option.some.inj hp).symm, fun _ => rfl⟩
  | starting name =>
    rw [hat] at hleft
    simp only [LookupAt.left] at hleft
    exact ⟨fun payload hp => (by cases hp), fun hcount => by omega⟩
  | child parent token =>
    rw [hat] at hleft
    simp only [LookupAt.left] at hleft
    exact ⟨fun payload hp => (by cases hp), fun hcount => by omega⟩
  | next parent =>
    rw [hat] at hleft
    simp only [LookupAt.left] at hleft
    exact ⟨fun payload hp => (by cases hp), fun hcount => by omega⟩

/-- Three routes of the server, numbered. -/
def threeRoutes : RadixTree ℕ :=
  (((RadixTree.init 47 58).addNode (ascii "/stock") (some 0)).addNode (ascii "/stock/:slot_id")
    (some 1)).addNode (ascii "/balance") (some 2)

def twoPaths : Bool → CString
  | false => ascii "/stock/11"
  | true => ascii "/balance"

/-- The second lookup starts when the first has returned. -/
theorem lookups_one_after_another :
    (run (Lookups.step threeRoutes) (Lookups.start twoPaths)
      (List.replicate 21 false ++ List.replicate 19 true)).result true =
        some (threeRoutes.searchNode (twoPaths true)) :=
  (lookups_undisturbed threeRoutes twoPaths (List.replicate 21 false ++ List.replicate 19 true)
    (by decide) true).2 (by decide)

/-- The second lookup moves the cursor to its own copy, and the first one stops at `/stock`. -/
theorem lookups_disturbed : ¬ ∀ (tree : RadixTree ℕ) (names : Bool → CString) (sched : List Bool)
    (i : Bool) (payload : Option ℕ),
    (run (Lookups.step tree) (Lookups.start names) sched).result i = some payload →
      payload = tree.searchNode (names i) := by
  intro h
  have hwrong := h threeRoutes twoPaths [false, true, false, false] false (some 0)
    (by decide)
  exact absurd hwrong (by decide)

end Sshnack
