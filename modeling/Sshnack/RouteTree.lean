import Sshnack.RadixTree
import Sshnack.RouteLists

/-!
# The route tree refines the list of its routes

A path stands for its segments, and the two loops of the tree go through the segments. `Stores` says
what a node knows of the routes below it: the payload of the empty route, one child for each segment
with which a route goes on, in the order of the first registrations, and in each child the rest of
those routes. `add_node` keeps this with one more route, and then `search_node` is the walk over the
routes.
-/

namespace Sshnack

open Routing

variable {π : Type}

/-! ### Segments -/

/-- The segments of a path that are not empty. -/
def segments (delim : UInt8) (s : CString) : List CString := (s.splitOn delim).filter (· ≠ [])

theorem segments_nil (delim : UInt8) : segments delim [] = [] := by
  simp [segments]

theorem segments_append (delim : UInt8) (s t : CString) :
    segments delim (s ++ delim :: t) = segments delim s ++ segments delim t := by
  rw [segments, List.splitOn_append_cons_self, List.filter_append]
  rfl

@[simp] theorem segments_delim (delim : UInt8) (s : CString) :
    segments delim (delim :: s) = segments delim s := by
  have h := segments_append delim [] s
  rwa [segments_nil] at h

theorem segments_word {delim : UInt8} {w : CString} (hne : w ≠ []) (hw : delim ∉ w) :
    segments delim w = [w] := by
  simp [segments, List.splitOn_eq_singleton hw, hne]

theorem segments_append_replicate (delim : UInt8) (s : CString) (k : ℕ) :
    segments delim (s ++ List.replicate k delim) = segments delim s := by
  induction k with
  | zero => rw [List.replicate_zero, List.append_nil]
  | succ k ih =>
    rw [List.replicate_succ', ← List.append_assoc, segments_append, segments_nil, List.append_nil, ih]

theorem eq_replicate_of_segments {delim : UInt8} {s : CString} (h : segments delim s = []) :
    s = List.replicate s.length delim := by
  induction s with
  | nil => rfl
  | cons c s ih =>
    by_cases hc : c = delim
    · rw [hc, segments_delim] at h
      rw [hc, List.length_cons, List.replicate_succ, ← ih h]
    · exfalso
      by_cases hmem : delim ∈ s
      · obtain ⟨w, rest, rfl, hw⟩ := List.eq_append_cons_of_mem hmem
        have hclean : delim ∉ c :: w := by simp [Ne.symm hc, hw]
        rw [← List.cons_append, segments_append, segments_word (List.cons_ne_nil c w) hclean] at h
        cases h
      · rw [segments_word (List.cons_ne_nil c s) (by simp [Ne.symm hc, hmem])] at h
        cases h

/-- A path that starts with its only segment. -/
theorem eq_append_of_segments {delim : UInt8} {s x : CString} (h : segments delim s = [x])
    (hhead : s.head? ≠ some delim) : ∃ k, s = x ++ List.replicate k delim := by
  have hne : s ≠ [] := by
    rintro rfl
    rw [segments_nil] at h
    cases h
  by_cases hmem : delim ∈ s
  · obtain ⟨w, rest, rfl, hw⟩ := List.eq_append_cons_of_mem hmem
    have hword : w ≠ [] := by
      rintro rfl
      exact hhead rfl
    rw [segments_append, segments_word hword hw] at h
    obtain ⟨rfl, hrest⟩ := List.cons.inj h
    rw [eq_replicate_of_segments hrest]
    exact ⟨rest.length + 1, rfl⟩
  · rw [segments_word hne hmem] at h
    exact ⟨0, by rw [List.cons.inj h |>.1]; simp⟩

theorem segments_dropWhile (delim : UInt8) (s : CString) :
    segments delim (s.dropWhile (· = delim)) = segments delim s := by
  induction s with
  | nil => rfl
  | cons c s ih =>
    by_cases hc : c = delim
    · rw [List.dropWhile_cons_of_pos (by simpa using hc), ih, hc, segments_delim]
    · rw [List.dropWhile_cons_of_neg (by simpa using hc)]

theorem segments_of_strtok_none {delim : UInt8} {s rest : CString}
    (h : strtok delim s = (none, rest)) : segments delim s = [] := by
  rw [← segments_dropWhile]
  unfold strtok at h
  cases hs : s.dropWhile (· = delim) with
  | nil => exact segments_nil delim
  | cons c t =>
    rw [hs] at h
    cases h

theorem segments_of_strtok_some {delim : UInt8} {s token rest : CString}
    (h : strtok delim s = (some token, rest)) :
    segments delim s = token :: segments delim rest := by
  rw [← segments_dropWhile]
  unfold strtok at h
  cases hs : s.dropWhile (· = delim) with
  | nil =>
    rw [hs] at h
    cases h
  | cons c t =>
    rw [hs] at h
    obtain ⟨htoken, hrest⟩ := Prod.mk.inj h
    have hc : c ≠ delim := by simpa using dropWhile_head hs
    have hne : token ≠ [] := by
      rw [← Option.some.inj htoken]
      simp [hc]
    have hclean : delim ∉ token := by
      rw [← Option.some.inj htoken]
      intro hmem
      have hnot := List.all_eq_true.1 List.all_takeWhile delim hmem
      simp at hnot
    have hsplit : c :: t = token ++ (c :: t).dropWhile (· ≠ delim) := by
      rw [← Option.some.inj htoken]
      exact List.takeWhile_append_dropWhile.symm
    rw [hsplit, ← hrest]
    cases hstop : (c :: t).dropWhile (· ≠ delim) with
    | nil => rw [List.append_nil, segments_word hne hclean, List.drop_nil, segments_nil]
    | cons b u =>
      have hb : b = delim := by simpa using dropWhile_head hstop
      rw [hb, segments_append, segments_word hne hclean]
      rfl

/-! ### The loops along the segments -/

/-- `add_node` below a node. -/
def TreeNode.insert (payload : Option π) : List CString → TreeNode π → TreeNode π
  | [], node => node.setPayload payload
  | s :: path, node =>
      .mk node.name node.payload (updateChild s (insert payload path) node.children)

/-- `search_node` below a node. -/
def RadixTree.follow (tree : RadixTree π) : TreeNode π → List CString → Option π
  | node, [] => node.payload
  | node, s :: path => (tree.childFor node s).bind fun child => follow tree child path

theorem addLoop_eq_insert {delim : UInt8} {payload : Option π} {fuel : ℕ} {s : CString}
    (h : s.length < fuel) : RadixTree.addLoop delim payload fuel s =
      TreeNode.insert payload (segments delim s) := by
  induction fuel generalizing s with
  | zero => omega
  | succ fuel ih =>
    funext node
    rcases htok : strtok delim s with ⟨_ | token, rest⟩
    · rw [segments_of_strtok_none htok]
      simp only [RadixTree.addLoop, htok, TreeNode.insert]
    · have hrest := strtok_length htok
      rw [segments_of_strtok_some htok]
      simp only [RadixTree.addLoop, htok, TreeNode.insert]
      rw [ih (by omega)]

theorem search_eq_follow (tree : RadixTree π) (node : TreeNode π) (s : CString) :
    tree.search node s = tree.follow node (segments tree.delimeter s) := by
  induction hn : s.length using Nat.strong_induction_on generalizing s node with
  | _ n ih =>
    rcases htok : strtok tree.delimeter s with ⟨_ | token, rest⟩
    · rw [RadixTree.search_none htok, segments_of_strtok_none htok, RadixTree.follow]
    · have hrest := strtok_length htok
      rw [RadixTree.search_token htok, segments_of_strtok_some htok, RadixTree.follow]
      congr 1
      funext child
      exact ih rest.length (by omega) child rest rfl

/-! ### What a node stores -/

namespace TreeNode

@[simp] theorem name_insert (payload : Option π) (path : List CString) (node : TreeNode π) :
    (insert payload path node).name = node.name := by
  cases path <;> rfl

@[simp] theorem name_create (s : CString) (payload : Option π) : (create s payload).name = s := rfl

theorem updateChild_of_not_mem {s : CString} {f : TreeNode π → TreeNode π}
    {children : List (TreeNode π)} (h : s ∉ children.map name) :
    updateChild s f children = children ++ [f (create s none)] := by
  induction children with
  | nil => rfl
  | cons child children ih =>
    rw [List.map_cons, List.mem_cons, not_or] at h
    rw [updateChild, if_neg (Ne.symm h.1), ih h.2, List.cons_append]

theorem updateChild_of_mem {s : CString} {f : TreeNode π → TreeNode π}
    {children : List (TreeNode π)} (h : s ∈ children.map name) :
    ∃ before child after, children = before ++ child :: after ∧ child.name = s ∧
      updateChild s f children = before ++ f child :: after := by
  induction children with
  | nil => cases h
  | cons child children ih =>
    by_cases hs : child.name = s
    · exact ⟨[], child, children, rfl, hs, by rw [updateChild, if_pos hs, List.nil_append]⟩
    · obtain ⟨before, child', after, rfl, hname, hupdate⟩ :=
        ih ((List.mem_cons.1 h).resolve_left (Ne.symm hs))
      exact ⟨child :: before, child', after, rfl, hname, by
        rw [updateChild, if_neg hs, hupdate, List.cons_append]⟩

/-- The node has exactly what the routes say. -/
inductive Stores : TreeNode π → List (Route CString π) → Prop
  | mk {node : TreeNode π} {routes : List (Route CString π)}
      (payload : node.payload = payloadAt routes [])
      (distinct : (node.children.map name).Nodup)
      (first : ∀ p, (node.children.map name).find? p = (nexts routes []).find? p)
      (children : ∀ child ∈ node.children, Stores child (under routes [child.name])) :
      Stores node routes

theorem stores_create (s : CString) : Stores (create s none : TreeNode π) [] :=
  .mk rfl List.nodup_nil (fun _ => rfl) fun _ h => absurd h List.not_mem_nil

theorem Stores.mem_names {node : TreeNode π} {routes : List (Route CString π)}
    (h : Stores node routes) (s : CString) :
    s ∈ node.children.map name ↔ s ∈ nexts routes [] := by
  cases h with
  | mk _ _ first _ =>
    have hfind := congrArg Option.isSome (first fun t => t = s)
    rw [Bool.eq_iff_iff, List.find?_isSome, List.find?_isSome] at hfind
    simpa using hfind

theorem Stores.setPayload {node : TreeNode π} {routes : List (Route CString π)}
    (h : Stores node routes) (payload : Option π) :
    Stores (node.setPayload payload) (routes ++ [([], payload)]) := by
  cases h with
  | mk _ distinct first children =>
    refine .mk ?_ distinct ?_ ?_
    · rw [payloadAt_concat, if_pos rfl]
      rfl
    · intro p
      rw [nexts_concat, List.head?_nil, Option.toList_none, List.append_nil]
      exact first p
    · intro child hchild
      rw [under_concat_of_ne routes payload (by simp)]
      exact children child hchild

/-- What the new route `s :: path` leaves alone in a node. -/
theorem Stores.concat {node : TreeNode π} {routes : List (Route CString π)} (h : Stores node routes)
    (s : CString) (path : List CString) (payload : Option π) :
    node.payload = payloadAt (routes ++ [(s :: path, payload)]) [] ∧
      ∀ child ∈ node.children, child.name ≠ s →
        Stores child (under (routes ++ [(s :: path, payload)]) [child.name]) := by
  cases h with
  | mk hpayload _ _ children =>
    constructor
    · rw [payloadAt_concat, if_neg (List.cons_ne_nil s path)]
      exact hpayload
    · intro child hchild hne
      rw [under_concat_of_ne routes payload (by simpa using hne.symm)]
      exact children child hchild

section

variable {node : TreeNode π} {routes : List (Route CString π)} {f : TreeNode π → TreeNode π}
  {s : CString} {path : List CString} {payload : Option π}

/-- The route goes on in a child that is there. -/
theorem Stores.replaceChild (h : Stores node routes) (hs : s ∈ node.children.map name)
    (hname : ∀ child, (f child).name = child.name)
    (hf : ∀ child rest, Stores child rest → Stores (f child) (rest ++ [(path, payload)])) :
    Stores (.mk node.name node.payload (updateChild s f node.children))
      (routes ++ [(s :: path, payload)]) := by
  obtain ⟨hpayload, hother⟩ := h.concat s path payload
  have hmem := (h.mem_names s).1 hs
  obtain ⟨before, child, after, hchildren, rfl, hupdate⟩ := updateChild_of_mem (f := f) hs
  have hnames : (before ++ f child :: after).map name = node.children.map name := by
    simp [hchildren, hname]
  cases h with
  | mk _ distinct first children =>
    refine .mk hpayload ?_ ?_ ?_
    · rwa [TreeNode.children, hupdate, hnames]
    · intro p
      rw [TreeNode.children, hupdate, hnames, nexts_concat, List.head?_cons, Option.toList_some,
        List.find?_append, first p]
      -- The new route adds nothing in front of the first registrations.
      cases hp : (nexts routes []).find? p with
      | some t => rfl
      | none =>
        have hnot := List.find?_eq_none.1 hp child.name hmem
        simp [hnot]
    · rw [TreeNode.children, hupdate]
      intro child' hchild'
      rw [hchildren, List.map_append, List.map_cons, List.nodup_append] at distinct
      obtain ⟨_, hafter, hbefore⟩ := distinct
      rcases List.mem_append.1 hchild' with hmem' | hmem'
      · refine hother child' (by rw [hchildren]; exact List.mem_append_left _ hmem') ?_
        exact hbefore _ (List.mem_map_of_mem hmem') _ List.mem_cons_self
      · rcases List.mem_cons.1 hmem' with rfl | hmem'
        · rw [hname, under_concat]
          apply hf
          exact children child (by rw [hchildren]; simp)
        · refine hother child' (by rw [hchildren]; simp [hmem']) ?_
          intro heq
          exact (List.nodup_cons.1 hafter).1 (heq ▸ List.mem_map_of_mem hmem')

/-- The route goes on in a new child. -/
theorem Stores.appendChild (h : Stores node routes) (hs : s ∉ node.children.map name)
    (hname : ∀ child, (f child).name = child.name)
    (hf : ∀ child rest, Stores child rest → Stores (f child) (rest ++ [(path, payload)])) :
    Stores (.mk node.name node.payload (updateChild s f node.children))
      (routes ++ [(s :: path, payload)]) := by
  obtain ⟨hpayload, hother⟩ := h.concat s path payload
  have hnone : under routes [s] = [] := under_eq_nil fun hnext => hs ((h.mem_names s).2 hnext)
  have hnames : (node.children ++ [f (create s none)]).map name = node.children.map name ++ [s] := by
    simp [hname]
  rw [updateChild_of_not_mem hs]
  cases h with
  | mk _ distinct first children =>
    refine .mk hpayload ?_ ?_ ?_
    · rw [TreeNode.children, hnames]
      refine List.nodup_append.2 ⟨distinct, List.nodup_singleton s, ?_⟩
      rintro t ht u hu rfl
      exact hs (List.mem_singleton.1 hu ▸ ht)
    · intro p
      rw [TreeNode.children, hnames, nexts_concat, List.head?_cons, Option.toList_some,
        List.find?_append, List.find?_append, first p]
    · intro child hchild
      rcases List.mem_append.1 hchild with hmem | hmem
      · refine hother child hmem ?_
        rintro rfl
        exact hs (List.mem_map_of_mem hmem)
      · have hnew := hf (create s none) [] (stores_create s)
        rw [List.mem_singleton.1 hmem, hname, name_create, under_concat, hnone]
        exact hnew

end

/-- `add_node` registers one more route. -/
theorem Stores.insert {node : TreeNode π} {routes : List (Route CString π)} (h : Stores node routes)
    (payload : Option π) (path : List CString) :
    Stores (TreeNode.insert payload path node) (routes ++ [(path, payload)]) := by
  induction path generalizing node routes with
  | nil => exact h.setPayload payload
  | cons s path ih =>
    rw [TreeNode.insert]
    by_cases hs : s ∈ node.children.map name
    · exact h.replaceChild hs (name_insert payload path) fun _ _ => ih
    · exact h.appendChild hs (name_insert payload path) fun _ _ => ih

end TreeNode
end Sshnack
