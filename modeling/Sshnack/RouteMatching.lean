import Sshnack.RouteTree

/-!
# Matching a path against the registered routes

`registered` is the tree after a sequence of `add_node` calls. A search in it is the walk over the
list of these calls, so a search prefers a literal segment, falls back to the wildcard that was
registered first, and never returns to a choice it made.
-/

namespace Sshnack

open Routing TreeNode

variable {π : Type}

def registered (delim wild : UInt8) (calls : List (CString × Option π)) : RadixTree π :=
  calls.foldl (fun tree call => tree.addNode call.1 call.2) (.init delim wild)

def routesOf (delim : UInt8) (calls : List (CString × Option π)) : List (Route CString π) :=
  calls.map fun call => (segments delim call.1, call.2)

def isWild (wild : UInt8) (segment : CString) : Bool := segment.headD 0 = wild

/-- The same path with one more delimiter in front, at the end, or beside another one. -/
inductive Respelled (delim : UInt8) : CString → CString → Prop
  | leading (s : CString) : Respelled delim s (delim :: s)
  | trailing (s : CString) : Respelled delim s (s ++ [delim])
  | repeated (s t : CString) : Respelled delim (s ++ delim :: t) (s ++ delim :: delim :: t)

theorem Respelled.segments {delim : UInt8} {s t : CString} (h : Respelled delim s t) :
    segments delim t = Sshnack.segments delim s := by
  cases h with
  | leading => exact segments_delim delim s
  | trailing => rw [segments_append, segments_nil, List.append_nil]
  | repeated s t => rw [segments_append, segments_append, segments_delim]

theorem stores_registered (delim wild : UInt8) (calls : List (CString × Option π)) :
    (registered delim wild calls).delimeter = delim ∧
      (registered delim wild calls).wildcard = wild ∧
      Stores (registered delim wild calls).root (routesOf delim calls) := by
  induction calls using List.reverseRecOn with
  | nil => exact ⟨rfl, rfl, stores_create []⟩
  | append_singleton calls call ih =>
    obtain ⟨hdelim, hwild, hstores⟩ := ih
    have hadd : registered delim wild (calls ++ [call]) =
        (registered delim wild calls).addNode call.1 call.2 := List.foldl_append
    rw [hadd]
    refine ⟨hdelim, hwild, ?_⟩
    rw [RadixTree.addNode, addLoop_eq_insert (Nat.lt_succ_self _), hdelim, routesOf, List.map_append]
    exact hstores.insert call.2 (segments delim call.1)

theorem name_childFor {tree : RadixTree π} {node : TreeNode π} {routes : List (Route CString π)}
    (h : Stores node routes) (hwild : tree.wildcard ≠ 0) (s : CString) :
    (tree.childFor node s).map name = choice (isWild tree.wildcard) routes [] s := by
  have hmem := h.mem_names s
  cases h with
  | mk _ _ first _ =>
    have hfind : ∀ p : CString → Bool, (node.children.find? fun child => p child.name).map name =
        (nexts routes []).find? p := by
      intro p
      rw [← first p, List.find?_map]
      rfl
    unfold RadixTree.childFor choice
    cases hchild : node.findChild s with
    | some child =>
      have hname : child.name = s := by simpa using List.find?_some hchild
      have hs : s ∈ node.children.map name :=
        hname ▸ List.mem_map_of_mem (List.mem_of_find?_eq_some hchild)
      rw [if_pos (hmem.1 hs), Option.map_some, hname]
    | none =>
      have hs : s ∉ node.children.map name := by
        intro hs
        obtain ⟨child, hchild', hname⟩ := List.mem_map.1 hs
        have hnot := List.find?_eq_none.1 hchild child hchild'
        simp [hname] at hnot
      rw [if_neg (fun hnext => hs (hmem.2 hnext))]
      simp only [ne_eq, hwild, not_false_eq_true, if_true]
      exact hfind (isWild tree.wildcard)

theorem follow_eq_walk {tree : RadixTree π} (hwild : tree.wildcard ≠ 0)
    (routes : List (Route CString π)) {q : List CString} {node : TreeNode π}
    (h : Stores node (under routes q)) (path : List CString) :
    tree.follow node path = walk (isWild tree.wildcard) routes q path := by
  induction path generalizing q node with
  | nil =>
    cases h with
    | mk hpayload _ _ _ => rw [RadixTree.follow, hpayload, payloadAt_under, List.append_nil, walk]
  | cons s path ih =>
    have hname := name_childFor h hwild s
    rw [choice_under] at hname
    rw [RadixTree.follow, walk_cons, ← hname]
    cases hchild : tree.childFor node s with
    | none => rfl
    | some child =>
      cases h with
      | mk _ _ _ children =>
        have hstores := children child (RadixTree.childFor_mem hchild)
        rw [← under_append] at hstores
        exact ih hstores

theorem searchNode_eq_walk {delim wild : UInt8} (hwild : wild ≠ 0)
    (calls : List (CString × Option π)) (path : CString) :
    (registered delim wild calls).searchNode path =
      walk (isWild wild) (routesOf delim calls) [] (segments delim path) := by
  obtain ⟨hdelim, hwildcard, hstores⟩ := stores_registered delim wild calls
  rw [← under_nil (routesOf delim calls)] at hstores
  have hwild' : (registered delim wild calls).wildcard ≠ 0 := by rwa [hwildcard]
  rw [RadixTree.searchNode, search_eq_follow, follow_eq_walk hwild' _ hstores, hdelim, hwildcard]

/-- The walk along a route that is registered ends at the payload last registered for it. -/
theorem walk_last {delim : UInt8} {wild : CString → Bool} {before after : List (CString × Option π)}
    {name : CString} {payload : Option π}
    (h : ∀ call ∈ after, segments delim call.1 ≠ segments delim name) :
    walk wild (routesOf delim (before ++ (name, payload) :: after)) [] (segments delim name) =
      payload := by
  have hafter : (routesOf delim after).filter (fun r => r.1 = segments delim name) = [] := by
    rw [List.filter_eq_nil_iff]
    intro r hr
    obtain ⟨call, hcall, rfl⟩ := List.mem_map.1 hr
    simpa using h call hcall
  have hroutes : routesOf delim (before ++ (name, payload) :: after) =
      routesOf delim before ++ (segments delim name, payload) :: routesOf delim after := by
    simp [routesOf]
  rw [hroutes, walk_literal ⟨(segments delim name, payload), by simp, List.prefix_refl _⟩,
    List.nil_append, payloadAt, List.filter_append, List.filter_cons_of_pos (by simp), hafter]
  simp

/-- A search in a tree built by `add_node` is the walk over the registered routes. So a registered
path finds its last payload, and more delimiters change nothing. -/
theorem searchNode_refines (delim wild : UInt8) (hwild : wild ≠ 0)
    (calls : List (CString × Option π)) (path : CString) :
    (registered delim wild calls).searchNode path =
        walk (isWild wild) (routesOf delim calls) [] (segments delim path) ∧
      (∀ before name payload after, calls = before ++ (name, payload) :: after →
        (∀ call ∈ after, segments delim call.1 ≠ segments delim name) →
        (registered delim wild calls).searchNode name = payload) ∧
      (∀ path', Respelled delim path path' →
        (registered delim wild calls).searchNode path' =
          (registered delim wild calls).searchNode path) ∧
      ∀ before name name' payload after, calls = before ++ (name, payload) :: after →
        Respelled delim name name' →
        (registered delim wild (before ++ (name', payload) :: after)).searchNode path =
          (registered delim wild calls).searchNode path := by
  refine ⟨searchNode_eq_walk hwild calls path, ?_, ?_, ?_⟩
  · rintro before name payload after rfl hlast
    rw [searchNode_eq_walk hwild, walk_last hlast]
  · intro path' hpath
    rw [searchNode_eq_walk hwild, searchNode_eq_walk hwild, hpath.segments]
  · rintro before name name' payload after rfl hname
    rw [searchNode_eq_walk hwild, searchNode_eq_walk hwild]
    simp only [routesOf, List.map_append, List.map_cons, hname.segments]

def stockRoutes : List (CString × Option ℕ) :=
  [(ascii "/stock", some 1), (ascii "/stock/:slot_id", some 2)]

theorem searchNode_refines_stockRoutes :
    (registered 47 58 stockRoutes).searchNode (ascii "//stock/11/") = some 2 := by
  rw [(searchNode_refines 47 58 (by decide) stockRoutes _).1]
  decide

def payloadCalls (routes : List (CString × π)) : List (CString × Option π) :=
  routes.map fun r => (r.1, some r.2)

/-- A search finds a payload exactly if some route is chosen segment by segment, and what it finds
is a payload of a route that matches the path. -/
theorem searchNode_complete (delim wild : UInt8) (hwild : wild ≠ 0) (routes : List (CString × π))
    (path : CString) :
    ((∃ p, (registered delim wild (payloadCalls routes)).searchNode path = some p) ↔
      ∃ r ∈ routes, Chosen (isWild wild) (routesOf delim (payloadCalls routes)) []
        (segments delim r.1) (segments delim path)) ∧
    ∀ p, (registered delim wild (payloadCalls routes)).searchNode path = some p →
      ∃ r ∈ routes, r.2 = p ∧ Matches (isWild wild) (segments delim r.1) (segments delim path) := by
  have hfound : ∀ p, (registered delim wild (payloadCalls routes)).searchNode path = some p →
      ∃ r ∈ routes, r.2 = p ∧ Chosen (isWild wild) (routesOf delim (payloadCalls routes)) []
        (segments delim r.1) (segments delim path) := by
    intro p hp
    rw [searchNode_eq_walk hwild] at hp
    obtain ⟨route, hchosen, hpayload⟩ := exists_chosen hp
    obtain ⟨call, hcall, heq⟩ := List.mem_map.1 (payloadAt_eq_some hpayload)
    obtain ⟨r, hr, rfl⟩ := List.mem_map.1 hcall
    obtain ⟨hroute, hsnd⟩ := Prod.mk.inj heq
    rw [List.nil_append] at hroute
    rw [← hroute] at hchosen
    exact ⟨r, hr, Option.some.inj hsnd, hchosen⟩
  refine ⟨⟨?_, ?_⟩, ?_⟩
  · rintro ⟨p, hp⟩
    obtain ⟨r, hr, _, hchosen⟩ := hfound p hp
    exact ⟨r, hr, hchosen⟩
  · rintro ⟨r, hr, hchosen⟩
    have hsome : ∀ r' ∈ routesOf delim (payloadCalls routes), r'.2.isSome := by
      intro r' hr'
      obtain ⟨call, hcall, rfl⟩ := List.mem_map.1 hr'
      obtain ⟨r₀, _, rfl⟩ := List.mem_map.1 hcall
      rfl
    have hmem : ∃ r' ∈ routesOf delim (payloadCalls routes), r'.1 = segments delim r.1 :=
      ⟨_, List.mem_map_of_mem (List.mem_map_of_mem hr), rfl⟩
    rw [searchNode_eq_walk hwild, hchosen.walk_eq]
    exact Option.isSome_iff_exists.1 (payloadAt_isSome hsome hmem)
  · intro p hp
    obtain ⟨r, hr, hpayload, hchosen⟩ := hfound p hp
    exact ⟨r, hr, hpayload, hchosen.matches⟩

theorem searchNode_complete_stockRoutes :
    ∃ p, (registered 47 58 (payloadCalls [(ascii "/stock", 1), (ascii "/stock/:slot_id", 2)])).searchNode
      (ascii "/stock/11") = some p := by
  refine (searchNode_complete 47 58 (by decide) _ _).1.2 ⟨(ascii "/stock/:slot_id", 2), by simp, ?_⟩
  exact .literal (by decide) (.wildcard (by decide) (by decide) (.done _))

/-- The literal segment hides the route that matches. -/
theorem searchNode_not_complete : ¬ ∀ (delim wild : UInt8), delim ≠ wild → delim ≠ 0 → wild ≠ 0 →
    ∀ (routes : List (CString × ℕ)) (path : CString),
      (∃ r ∈ routes, Matches (isWild wild) (segments delim r.1) (segments delim path)) →
      ∃ p, (registered delim wild (payloadCalls routes)).searchNode path = some p ∧
        ∃ r ∈ routes, r.2 = p ∧ Matches (isWild wild) (segments delim r.1) (segments delim path) := by
  intro h
  have hmatches : Matches (isWild 58) (segments 47 (ascii "/:shelf/price"))
      (segments 47 (ascii "/stock/price")) :=
    .cons (.inr (by decide)) (.cons (.inl (by decide)) .nil)
  obtain ⟨p, hp, _⟩ := h 47 58 (by decide) (by decide) (by decide)
    [(ascii "/stock/list", 1), (ascii "/:shelf/price", 2)] (ascii "/stock/price")
    ⟨(ascii "/:shelf/price", 2), by simp, hmatches⟩
  have hnone : (registered 47 58 (payloadCalls [(ascii "/stock/list", 1),
      (ascii "/:shelf/price", 2)])).searchNode (ascii "/stock/price") = none := by
    decide
  rw [hnone] at hp
  cases hp

end Sshnack
