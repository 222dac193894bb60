import Sshnack.CStrings

/-!
# The route tree

`add_node` and `search_node` walk the tree along the tokens that `strtok` gives. Both loops end because
each token moves the cursor forward; `fuel` bounds their rounds and `search_eq` is the loop equation
without it. A NULL payload is `none`.
-/

namespace Sshnack

variable {π : Type}

inductive TreeNode (π : Type) where
  | mk (name : CString) (payload : Option π) (children : List (TreeNode π))

namespace TreeNode

def name : TreeNode π → CString
  | .mk name _ _ => name

def payload : TreeNode π → Option π
  | .mk _ payload _ => payload

def children : TreeNode π → List (TreeNode π)
  | .mk _ _ children => children

def create (name : CString) (payload : Option π) : TreeNode π := .mk name payload []

def findChild (parent : TreeNode π) (name : CString) : Option (TreeNode π) :=
  parent.children.find? fun child => child.name = name

def setPayload (node : TreeNode π) (payload : Option π) : TreeNode π :=
  .mk node.name payload node.children

/-- Replace the first child with this name, or append one. -/
def updateChild (name : CString) (f : TreeNode π → TreeNode π) : List (TreeNode π) → List (TreeNode π)
  | [] => [f (create name none)]
  | child :: children =>
      if child.name = name then f child :: children else child :: updateChild name f children

mutual

/-- The payloads in the tree below a node, its own included. -/
def payloads : TreeNode π → List π
  | .mk _ payload children => payload.toList ++ payloadsAll children

def payloadsAll : List (TreeNode π) → List π
  | [] => []
  | child :: children => payloads child ++ payloadsAll children

end

theorem payloads_eq (node : TreeNode π) :
    node.payloads = node.payload.toList ++ payloadsAll node.children := by
  cases node with
  | mk name payload children => rw [payloads, TreeNode.payload, TreeNode.children]

theorem mem_payloadsAll {child : TreeNode π} {p : π} (hp : p ∈ child.payloads) :
    ∀ {children : List (TreeNode π)}, child ∈ children → p ∈ payloadsAll children
  | first :: children, hchild => by
    rw [payloadsAll]
    rcases List.mem_cons.1 hchild with rfl | hchild
    · exact List.mem_append_left _ hp
    · exact List.mem_append_right _ (mem_payloadsAll hp hchild)

end TreeNode

structure RadixTree (π : Type) where
  root : TreeNode π
  delimeter : UInt8
  wildcard : UInt8

namespace RadixTree

def init (delimeter wildcard : UInt8) : RadixTree π := ⟨.create [] none, delimeter, wildcard⟩

def addLoop (delim : UInt8) (payload : Option π) : ℕ → CString → TreeNode π → TreeNode π
  | 0, _, parent => parent
  | fuel + 1, s, parent => match strtok delim s with
    | (none, _) => parent.setPayload payload
    | (some token, rest) => .mk parent.name parent.payload
        (TreeNode.updateChild token (addLoop delim payload fuel rest) parent.children)

def addNode (tree : RadixTree π) (name : CString) (payload : Option π) : RadixTree π :=
  { tree with root := addLoop tree.delimeter payload (name.length + 1) name tree.root }

/-- The child of `parent` for a token: the one with this name, or else the first one whose name starts
with the wildcard. -/
def childFor (tree : RadixTree π) (parent : TreeNode π) (token : CString) : Option (TreeNode π) :=
  match parent.findChild token with
  | some child => some child
  | none =>
      if tree.wildcard ≠ 0 then
        parent.children.find? fun child => child.name.headD 0 = tree.wildcard
      else none

def searchLoop (tree : RadixTree π) : ℕ → TreeNode π → CString → Option π
  | 0, _, _ => none
  | fuel + 1, parent, s => match strtok tree.delimeter s with
    | (none, _) => parent.payload
    | (some token, rest) => match tree.childFor parent token with
      | none => none
      | some child => searchLoop tree fuel child rest

/-- The loop of `search_node` from a node, with the text `s` left to tokenize. -/
def search (tree : RadixTree π) (parent : TreeNode π) (s : CString) : Option π :=
  tree.searchLoop (s.length + 1) parent s

def searchNode (tree : RadixTree π) (name : CString) : Option π := tree.search tree.root name

theorem searchLoop_fuel (tree : RadixTree π) (parent : TreeNode π) (s : CString) {fuel : ℕ}
    (h : s.length < fuel) : tree.searchLoop fuel parent s = tree.search parent s := by
  have hmore : ∀ n fuel (parent : TreeNode π) (s : CString), s.length < n → s.length < fuel →
      tree.searchLoop n parent s = tree.searchLoop fuel parent s := by
    intro n
    induction n with
    | zero =>
      intro fuel parent s hs
      omega
    | succ n ih =>
      intro fuel parent s hs hfuel
      cases fuel with
      | zero => omega
      | succ fuel =>
        rcases htok : strtok tree.delimeter s with ⟨_ | token, rest⟩
        · simp only [searchLoop, htok]
        · have hrest := strtok_length htok
          simp only [searchLoop, htok]
          cases tree.childFor parent token with
          | none => rfl
          | some child => exact ih fuel child rest (by omega) (by omega)
  exact hmore fuel (s.length + 1) parent s h (Nat.lt_succ_self _)

theorem search_none {tree : RadixTree π} {s rest : CString}
    (h : strtok tree.delimeter s = (none, rest)) (parent : TreeNode π) :
    tree.search parent s = parent.payload := by
  simp only [search, searchLoop, h]

theorem search_token {tree : RadixTree π} {s token rest : CString}
    (h : strtok tree.delimeter s = (some token, rest)) (parent : TreeNode π) :
    tree.search parent s = (tree.childFor parent token).bind fun child => tree.search child rest := by
  have hrest := strtok_length h
  simp only [search, searchLoop, h]
  cases tree.childFor parent token with
  | none => rfl
  | some child => exact tree.searchLoop_fuel child rest hrest

theorem childFor_mem {tree : RadixTree π} {parent child : TreeNode π} {token : CString}
    (h : tree.childFor parent token = some child) : child ∈ parent.children := by
  unfold childFor at h
  cases hfind : parent.findChild token with
  | some c =>
    rw [hfind] at h
    cases h
    exact List.mem_of_find?_eq_some hfind
  | none =>
    rw [hfind] at h
    split_ifs at h
    exact List.mem_of_find?_eq_some h

/-- A search finds only what was registered below the node it starts from. -/
theorem search_mem {tree : RadixTree π} {p : π} {s : CString} {parent : TreeNode π}
    (h : tree.search parent s = some p) : p ∈ parent.payloads := by
  induction hn : s.length using Nat.strong_induction_on generalizing s parent with
  | _ n ih =>
    rw [TreeNode.payloads_eq]
    rcases htok : strtok tree.delimeter s with ⟨_ | token, rest⟩
    · rw [search_none htok] at h
      apply List.mem_append_left
      rw [h]
      exact List.mem_singleton_self p
    · rw [search_token htok] at h
      obtain ⟨child, hchild, hsearch⟩ := Option.bind_eq_some_iff.1 h
      have hlt : rest.length < n := by
        rw [← hn]
        exact strtok_length htok
      apply List.mem_append_right
      exact TreeNode.mem_payloadsAll (ih rest.length hlt hsearch rfl) (childFor_mem hchild)

end RadixTree
end Sshnack
