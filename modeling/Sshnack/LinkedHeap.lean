import Mathlib.Tactic

/-!
# Singly linked lists in a heap

A heap maps the allocated addresses to nodes; an address is a number and NULL is `none`. `Listed h p q`
says that the list that starts at `p` has the nodes `q`, given by address and item, and ends in NULL.
Dereferencing an address that is not allocated has no result. `drain` walks a list and frees every
node of it.
-/

namespace Linked

variable {α : Type}

structure Node (α : Type) where
  item : α
  next : Option ℕ
  deriving DecidableEq

abbrev Heap (α : Type) := List (ℕ × Node α)

namespace Heap

def get (h : Heap α) (a : ℕ) : Option (Node α) := List.lookup a h

def free (h : Heap α) (a : ℕ) : Heap α := h.filter fun p => p.1 ≠ a

def set (h : Heap α) (a : ℕ) (n : Node α) : Heap α := (a, n) :: h.free a

theorem get_cons (a b : ℕ) (n : Node α) (h : Heap α) :
    get ((a, n) :: h) b = if b = a then some n else get h b := by
  unfold get
  rw [List.lookup_cons]
  by_cases hba : b = a
  · simp [hba]
  · have hbeq : (b == a) = false := by simpa using hba
    simp [hbeq, hba]

theorem get_free_of_ne (h : Heap α) {a b : ℕ} (hab : b ≠ a) : (h.free a).get b = h.get b := by
  induction h with
  | nil => rfl
  | cons p h ih =>
    obtain ⟨c, n⟩ := p
    by_cases hc : c = a
    · have hcons : free ((c, n) :: h) a = free h a := by simp [free, hc]
      have hbc : ¬ b = c := by rw [hc]; exact hab
      rw [hcons, ih, get_cons, if_neg hbc]
    · have hcons : free ((c, n) :: h) a = (c, n) :: free h a := by simp [free, hc]
      rw [hcons, get_cons, get_cons, ih]

@[simp] theorem get_set_self (h : Heap α) (a : ℕ) (n : Node α) : (h.set a n).get a = some n := by
  rw [set, get_cons, if_pos rfl]

theorem get_set_of_ne (h : Heap α) {a b : ℕ} (n : Node α) (hab : b ≠ a) :
    (h.set a n).get b = h.get b := by
  rw [set, get_cons, if_neg hab, get_free_of_ne h hab]

theorem mem_of_get {h : Heap α} {a : ℕ} {n : Node α} (hget : h.get a = some n) :
    a ∈ h.map Prod.fst := by
  induction h with
  | nil => cases hget
  | cons p h ih =>
    obtain ⟨c, k⟩ := p
    rw [get_cons] at hget
    by_cases hac : a = c
    · simp [hac]
    · rw [if_neg hac] at hget
      exact List.mem_cons_of_mem _ (ih hget)

end Heap

def Listed (h : Heap α) : Option ℕ → List (ℕ × α) → Prop
  | p, [] => p = none
  | p, (a, x) :: q => p = some a ∧ ∃ next, h.get a = some ⟨x, next⟩ ∧ Listed h next q

theorem Listed.frame {h h' : Heap α} {p : Option ℕ} {q : List (ℕ × α)} (hl : Listed h p q)
    (hsame : ∀ a ∈ q.map Prod.fst, h'.get a = h.get a) : Listed h' p q := by
  induction q generalizing p with
  | nil => exact hl
  | cons b q ih =>
    obtain ⟨a, x⟩ := b
    obtain ⟨hp, next, hget, hrest⟩ := hl
    have ha : h'.get a = h.get a := hsame a (by simp)
    exact ⟨hp, next, ha.trans hget, ih hrest fun b hb => hsame b (List.mem_cons_of_mem a hb)⟩

theorem Listed.get {h : Heap α} {p : Option ℕ} {q : List (ℕ × α)} (hl : Listed h p q) {a : ℕ} {x : α}
    (hmem : (a, x) ∈ q) : ∃ next, h.get a = some ⟨x, next⟩ := by
  induction q generalizing p with
  | nil => cases hmem
  | cons b q ih =>
    obtain ⟨c, y⟩ := b
    obtain ⟨_, next, hget, hrest⟩ := hl
    rcases List.mem_cons.1 hmem with heq | hmem
    · cases heq
      exact ⟨next, hget⟩
    · exact ih hrest hmem

theorem Listed.eq_nil {h : Heap α} {q : List (ℕ × α)} (hl : Listed h none q) : q = [] := by
  cases q with
  | nil => rfl
  | cons b q => cases hl.1

/-- The node at the end is linked to a new one. -/
theorem Listed.snoc {h : Heap α} {p : Option ℕ} {q : List (ℕ × α)} {l a : ℕ} {x y : α}
    (hl : Listed h p (q ++ [(l, x)])) (hdistinct : ((q ++ [(l, x)]).map Prod.fst).Nodup)
    (ha : h.get a = some ⟨y, none⟩) (hne : a ≠ l) :
    h.get l = some ⟨x, none⟩ ∧ Listed (h.set l ⟨x, some a⟩) p (q ++ [(l, x)] ++ [(a, y)]) := by
  induction q generalizing p with
  | nil =>
    obtain ⟨hp, next, hget, hnext⟩ := hl
    obtain rfl : next = none := hnext
    refine ⟨hget, hp, some a, Heap.get_set_self h l _, rfl, none, ?_, rfl⟩
    rw [Heap.get_set_of_ne h _ hne, ha]
  | cons b q ih =>
    obtain ⟨c, z⟩ := b
    obtain ⟨hp, next, hget, hrest⟩ := hl
    have hd : c ∉ (q ++ [(l, x)]).map Prod.fst ∧ ((q ++ [(l, x)]).map Prod.fst).Nodup := by
      simpa only [List.cons_append, List.map_cons, List.nodup_cons] using hdistinct
    have hcl : c ≠ l := by
      rintro rfl
      exact hd.1 (by simp)
    obtain ⟨hlast, hlisted⟩ := ih hrest hd.2
    refine ⟨hlast, hp, next, ?_, hlisted⟩
    rw [Heap.get_set_of_ne h _ hcl, hget]

/-- `while (p != NULL) { next = p->next; free(p); p = next; }`, with the items of the freed nodes. -/
def drain : ℕ → Heap α → Option ℕ → Option (Heap α × List α)
  | _, h, none => some (h, [])
  | 0, _, some _ => none
  | fuel + 1, h, some a => (h.get a).bind fun n =>
      (drain fuel (h.free a) n.next).map fun r => (r.1, n.item :: r.2)

theorem Listed.drain {h : Heap α} {p : Option ℕ} {q : List (ℕ × α)} (hl : Listed h p q)
    (hdistinct : (q.map Prod.fst).Nodup) {fuel : ℕ} (hfuel : q.length ≤ fuel) :
    ∃ h', drain fuel h p = some (h', q.map Prod.snd) ∧
      ∀ a, a ∉ q.map Prod.fst → h'.get a = h.get a := by
  induction q generalizing h p fuel with
  | nil =>
    obtain rfl : p = none := hl
    exact ⟨h, by cases fuel <;> rfl, fun _ _ => rfl⟩
  | cons b q ih =>
    obtain ⟨a, x⟩ := b
    obtain ⟨rfl, next, hget, hrest⟩ := hl
    rw [List.map_cons, List.nodup_cons] at hdistinct
    cases fuel with
    | zero => simp at hfuel
    | succ fuel =>
      have hframe : Listed (h.free a) next q := by
        apply hrest.frame
        intro c hc
        apply Heap.get_free_of_ne
        rintro rfl
        exact hdistinct.1 hc
      obtain ⟨h', hdrain, hkeep⟩ := ih hframe hdistinct.2 (by simpa using hfuel)
      refine ⟨h', ?_, ?_⟩
      · simp only [Linked.drain, hget, Option.bind_some, hdrain, Option.map_some, List.map_cons]
      · intro c hc
        rw [List.map_cons, List.mem_cons, not_or] at hc
        rw [hkeep c hc.2, Heap.get_free_of_ne h hc.1]

theorem Listed.length_le {h : Heap α} {p : Option ℕ} {q : List (ℕ × α)} (hl : Listed h p q)
    (hdistinct : (q.map Prod.fst).Nodup) : q.length ≤ h.length := by
  have hsub : q.map Prod.fst ⊆ h.map Prod.fst := by
    intro a ha
    obtain ⟨⟨b, x⟩, hmem, rfl⟩ := List.mem_map.1 ha
    obtain ⟨next, hget⟩ := hl.get hmem
    exact Heap.mem_of_get hget
  have hle := (List.subperm_of_subset hdistinct hsub).length_le
  simpa only [List.length_map] using hle

end Linked
