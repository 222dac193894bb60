import Mathlib.Tactic

/-!
# Routing over a list of routes

A route is a list of segments with a payload, which may be missing; the routes are listed in the order
in which they were registered. `walk` goes through a path segment by segment from a prefix of the
routes: to the segment itself if some route goes on with it, and otherwise to the segment that was
registered first among those accepted as a wildcard.

`under routes q` has what is left of the routes that start with `q`. Everything that `walk` looks at
from `q` on is determined by it.
-/

namespace Routing

variable {σ π : Type*} [DecidableEq σ]

abbrev Route (σ π : Type*) := List σ × Option π

/-- The segments with which the routes go on from `q`. -/
def nexts (routes : List (Route σ π)) (q : List σ) : List σ :=
  routes.filterMap fun r => (r.1.dropPrefix? q).bind List.head?

/-- The payload last registered for exactly `q`. -/
def payloadAt (routes : List (Route σ π)) (q : List σ) : Option π :=
  (routes.filter fun r => r.1 = q).getLast?.bind Prod.snd

def walk (wild : σ → Bool) (routes : List (Route σ π)) : List σ → List σ → Option π
  | q, [] => payloadAt routes q
  | q, s :: path =>
      if ∃ r ∈ routes, q ++ [s] <+: r.1 then walk wild routes (q ++ [s]) path
      else match (nexts routes q).find? wild with
        | some t => walk wild routes (q ++ [t]) path
        | none => none

/-- The segment that a walk chooses for `s` behind `q`. -/
def choice (wild : σ → Bool) (routes : List (Route σ π)) (q : List σ) (s : σ) : Option σ :=
  if s ∈ nexts routes q then some s else (nexts routes q).find? wild

/-- What is left behind `q` of the routes that start with it. -/
def under (routes : List (Route σ π)) (q : List σ) : List (Route σ π) :=
  routes.filterMap fun r => (r.1.dropPrefix? q).map fun rest => (rest, r.2)

variable {routes : List (Route σ π)} {q p : List σ} {s : σ}

theorem dropPrefix?_eq_some {l rest : List σ} : l.dropPrefix? q = some rest ↔ l = q ++ rest := by
  rw [List.dropPrefix?_eq_some_iff]
  constructor
  · rintro ⟨q', rfl, hq⟩
    rw [eq_of_beq hq]
  · rintro rfl
    exact ⟨q, rfl, beq_self_eq_true q⟩

theorem dropPrefix?_append (l q p : List σ) :
    l.dropPrefix? (q ++ p) = (l.dropPrefix? q).bind fun rest => rest.dropPrefix? p := by
  ext rest
  simp only [Option.bind_eq_some_iff, dropPrefix?_eq_some, List.append_assoc]
  constructor
  · intro h
    exact ⟨p ++ rest, h, rfl⟩
  · rintro ⟨_, h, rfl⟩
    exact h

theorem under_append (routes : List (Route σ π)) (q p : List σ) :
    under routes (q ++ p) = under (under routes q) p := by
  unfold under
  rw [List.filterMap_filterMap]
  congr 1
  funext r
  rw [dropPrefix?_append]
  cases r.1.dropPrefix? q <;> rfl

@[simp] theorem under_nil (routes : List (Route σ π)) : under routes [] = routes := by
  simp [under]

theorem nexts_under (routes : List (Route σ π)) (q p : List σ) :
    nexts (under routes q) p = nexts routes (q ++ p) := by
  unfold nexts under
  rw [List.filterMap_filterMap]
  congr 1
  funext r
  rw [dropPrefix?_append]
  cases r.1.dropPrefix? q <;> rfl

theorem choice_under (wild : σ → Bool) (routes : List (Route σ π)) (q : List σ) (s : σ) :
    choice wild (under routes q) [] s = choice wild routes q s := by
  rw [choice, nexts_under, List.append_nil, choice]

theorem payloadAt_under (routes : List (Route σ π)) (q p : List σ) :
    payloadAt (under routes q) p = payloadAt routes (q ++ p) := by
  have hfilter : (under routes q).filter (fun r => r.1 = p) =
      (routes.filter fun r => r.1 = q ++ p).map fun r => (p, r.2) := by
    unfold under
    rw [List.filter_filterMap, ← List.filterMap_eq_map, List.filterMap_filter]
    apply List.filterMap_congr
    rintro ⟨l, o⟩ _
    cases hdrop : l.dropPrefix? q with
    | none =>
      have hne : l ≠ q ++ p := by
        rintro rfl
        rw [dropPrefix?_eq_some.2 rfl] at hdrop
        cases hdrop
      simp [hne]
    | some rest =>
      obtain rfl := dropPrefix?_eq_some.1 hdrop
      by_cases hrest : rest = p <;> simp [hrest]
  unfold payloadAt
  rw [hfilter, List.getLast?_map]
  cases (routes.filter fun r => r.1 = q ++ p).getLast? <;> rfl

/-- Some route goes on with a segment exactly if the segment is listed. -/
theorem mem_nexts : s ∈ nexts routes q ↔ ∃ r ∈ routes, q ++ [s] <+: r.1 := by
  simp only [nexts, List.mem_filterMap, Option.bind_eq_some_iff, dropPrefix?_eq_some]
  constructor
  · rintro ⟨r, hr, rest, hrest, hhead⟩
    obtain ⟨tail, rfl⟩ := List.head?_eq_some_iff.1 hhead
    exact ⟨r, hr, tail, by rw [hrest]; simp⟩
  · rintro ⟨r, hr, tail, htail⟩
    exact ⟨r, hr, s :: tail, by rw [← htail]; simp, rfl⟩

theorem walk_cons (wild : σ → Bool) (routes : List (Route σ π)) (q path : List σ) (s : σ) :
    walk wild routes q (s :: path) =
      (choice wild routes q s).bind fun t => walk wild routes (q ++ [t]) path := by
  rw [walk, choice]
  by_cases hs : s ∈ nexts routes q
  · rw [if_pos hs, if_pos (mem_nexts.1 hs), Option.bind_some]
  · rw [if_neg hs, if_neg (fun h => hs (mem_nexts.2 h))]
    cases (nexts routes q).find? wild <;> rfl

/-- Where the routes go on with one wildcard only, it is chosen. -/
theorem choice_eq_of_single {wild : σ → Bool} {t : σ} (h : nexts routes q = [t])
    (ht : wild t = true) (s : σ) : choice wild routes q s = some t := by
  rw [choice, h]
  by_cases hs : s ∈ [t]
  · rw [if_pos hs, List.mem_singleton.1 hs]
  · rw [if_neg hs, List.find?_cons_of_pos ht]

/-- A walk along segments that the routes have literally. -/
theorem walk_literal {wild : σ → Bool} (h : ∃ r ∈ routes, q ++ p <+: r.1) :
    walk wild routes q p = payloadAt routes (q ++ p) := by
  induction p generalizing q with
  | nil => rw [walk, List.append_nil]
  | cons s p ih =>
    have hmore : ∃ r ∈ routes, q ++ [s] ++ p <+: r.1 := by
      simpa using h
    have hnext : ∃ r ∈ routes, q ++ [s] <+: r.1 := by
      obtain ⟨r, hr, hprefix⟩ := hmore
      exact ⟨r, hr, (List.prefix_append _ p).trans hprefix⟩
    rw [walk, if_pos hnext, ih hmore]
    simp

/-! ### Routes that match -/

/-- The route has the length of the path, and each of its segments is that of the path or a
wildcard. -/
def Matches (wild : σ → Bool) (route path : List σ) : Prop :=
  List.Forall₂ (fun t s => t = s ∨ wild t = true) route path

/-- Behind `q` the walk takes this route: each segment literally if some route goes on with it, and
otherwise the wildcard that was registered first. -/
inductive Chosen (wild : σ → Bool) (routes : List (Route σ π)) : List σ → List σ → List σ → Prop
  | done (q : List σ) : Chosen wild routes q [] []
  | literal {q route path : List σ} {s : σ} (h : ∃ r ∈ routes, q ++ [s] <+: r.1)
      (hrest : Chosen wild routes (q ++ [s]) route path) :
      Chosen wild routes q (s :: route) (s :: path)
  | wildcard {q route path : List σ} {s t : σ} (h : ¬ ∃ r ∈ routes, q ++ [s] <+: r.1)
      (ht : (nexts routes q).find? wild = some t)
      (hrest : Chosen wild routes (q ++ [t]) route path) :
      Chosen wild routes q (t :: route) (s :: path)

omit [DecidableEq σ] in
theorem Matches.uncons {wild : σ → Bool} {t : σ} {route path : List σ}
    (h : Matches wild (t :: route) path) : ∃ s rest, path = s :: rest ∧ Matches wild route rest := by
  cases h with
  | cons _ hrest => exact ⟨_, _, rfl, hrest⟩

omit [DecidableEq σ] in
theorem Matches.literal {wild : σ → Bool} {t : σ} {route path : List σ}
    (h : Matches wild (t :: route) path) (ht : wild t = false) :
    ∃ rest, path = t :: rest ∧ Matches wild route rest := by
  cases h with
  | cons hhead hrest =>
    rcases hhead with rfl | hwild
    · exact ⟨_, rfl, hrest⟩
    · rw [ht] at hwild
      cases hwild

theorem Chosen.matches {wild : σ → Bool} {route path : List σ}
    (h : Chosen wild routes q route path) : Matches wild route path := by
  induction h with
  | done q => exact .nil
  | literal _ _ ih => exact .cons (.inl rfl) ih
  | wildcard _ ht _ ih => exact .cons (.inr (List.find?_some ht)) ih

theorem Chosen.walk_eq {wild : σ → Bool} {route path : List σ}
    (h : Chosen wild routes q route path) :
    walk wild routes q path = payloadAt routes (q ++ route) := by
  induction h with
  | done q => rw [walk, List.append_nil]
  | literal hs _ ih =>
    rw [walk, if_pos hs, ih]
    simp
  | wildcard hs ht _ ih =>
    rw [walk, if_neg hs, ht]
    exact ih.trans (by simp)

theorem exists_chosen {wild : σ → Bool} {path : List σ} {o : π}
    (h : walk wild routes q path = some o) :
    ∃ route, Chosen wild routes q route path ∧ payloadAt routes (q ++ route) = some o := by
  induction path generalizing q with
  | nil => exact ⟨[], .done q, by rw [List.append_nil]; exact h⟩
  | cons s path ih =>
    rw [walk] at h
    split_ifs at h with hs
    · obtain ⟨route, hroute, hpayload⟩ := ih h
      exact ⟨s :: route, .literal hs hroute, by simpa using hpayload⟩
    · cases ht : (nexts routes q).find? wild with
      | none =>
        rw [ht] at h
        cases h
      | some t =>
        rw [ht] at h
        obtain ⟨route, hroute, hpayload⟩ := ih h
        exact ⟨t :: route, .wildcard hs ht hroute, by simpa using hpayload⟩

theorem payloadAt_eq_some {o : π} (h : payloadAt routes q = some o) : (q, some o) ∈ routes := by
  obtain ⟨r, hr, hsnd⟩ := Option.bind_eq_some_iff.1 h
  have hmem := List.mem_filter.1 (List.mem_of_getLast? hr)
  have hq : r.1 = q := by simpa using hmem.2
  rw [← hq, ← hsnd]
  exact hmem.1

/-- Where every payload is there, a registered route has one. -/
theorem payloadAt_isSome (hsome : ∀ r ∈ routes, r.2.isSome) (h : ∃ r ∈ routes, r.1 = q) :
    (payloadAt routes q).isSome := by
  obtain ⟨r, hr, rfl⟩ := h
  have hne : routes.filter (fun r' => r'.1 = r.1) ≠ [] :=
    List.ne_nil_of_mem (List.mem_filter.2 ⟨hr, by simp⟩)
  obtain ⟨last, hlast⟩ := Option.ne_none_iff_exists'.1 (mt List.getLast?_eq_none_iff.1 hne)
  have hmem := (List.mem_filter.1 (List.mem_of_getLast? hlast)).1
  rw [payloadAt, hlast, Option.bind_some]
  exact hsome last hmem

/-! ### One more route -/

theorem under_concat (routes : List (Route σ π)) (s : σ) (l : List σ) (o : Option π) :
    under (routes ++ [(s :: l, o)]) [s] = under routes [s] ++ [(l, o)] := by
  simp [under, List.dropPrefix?]

theorem under_concat_of_ne (routes : List (Route σ π)) {s : σ} {l : List σ} (o : Option π)
    (h : l.head? ≠ some s) : under (routes ++ [(l, o)]) [s] = under routes [s] := by
  have hdrop : l.dropPrefix? [s] = none := by
    cases l with
    | nil => rfl
    | cons t l =>
      have hts : t ≠ s := fun heq => h (by rw [heq]; rfl)
      simp [List.dropPrefix?, hts]
  simp [under, hdrop]

theorem nexts_concat (routes : List (Route σ π)) (l : List σ) (o : Option π) :
    nexts (routes ++ [(l, o)]) [] = nexts routes [] ++ l.head?.toList := by
  cases l <;> simp [nexts]

theorem payloadAt_concat (routes : List (Route σ π)) (l : List σ) (o : Option π) :
    payloadAt (routes ++ [(l, o)]) [] = if l = [] then o else payloadAt routes [] := by
  split_ifs with hl <;> simp [payloadAt, hl]

theorem under_eq_nil (h : s ∉ nexts routes []) : under routes [s] = [] := by
  unfold under
  rw [List.filterMap_eq_nil_iff]
  intro r hr
  rw [Option.map_eq_none_iff]
  by_contra hsome
  obtain ⟨rest, hrest⟩ := Option.ne_none_iff_exists'.1 hsome
  rw [dropPrefix?_eq_some] at hrest
  exact h (mem_nexts.2 ⟨r, hr, rest, by rw [hrest]; rfl⟩)

end Routing
