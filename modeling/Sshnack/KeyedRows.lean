import Mathlib.Tactic

/-!
# Edits of keyed rows

A table is a list of rows, and `key` is what identifies a row. An edit changes the row of one key,
adds a row, or does nothing. Edits with different targets commute: exactly, unless both add a row,
and then up to the order of the rows.
-/

namespace Keyed

variable {κ ρ : Type} [DecidableEq κ] {key : ρ → κ} {k k' : κ} {f g : ρ → ρ} {rows : List ρ}

def find (key : ρ → κ) (k : κ) (rows : List ρ) : Option ρ := rows.find? fun r => key r = k

def update (key : ρ → κ) (k : κ) (f : ρ → ρ) (rows : List ρ) : List ρ :=
  rows.map fun r => if key r = k then f r else r

theorem find_eq_some {r : ρ} (h : find key k rows = some r) : r ∈ rows ∧ key r = k :=
  ⟨List.mem_of_find?_eq_some h, by simpa using List.find?_some h⟩

theorem find_eq_some_iff (hkeys : (rows.map key).Nodup) {r : ρ} :
    find key k rows = some r ↔ r ∈ rows ∧ key r = k := by
  constructor
  · exact find_eq_some
  · rintro ⟨hr, rfl⟩
    cases hfind : find key (key r) rows with
    | none =>
      have hnot := List.find?_eq_none.1 hfind r hr
      simp at hnot
    | some s =>
      obtain ⟨hs, hkey⟩ := find_eq_some hfind
      rw [List.inj_on_of_nodup_map hkeys hs hr hkey]

theorem find_update (hf : ∀ r, key (f r) = key r) :
    find key k' (update key k f rows) =
      (find key k' rows).map fun r => if key r = k then f r else r := by
  unfold find update
  rw [List.find?_map]
  congr 2
  funext r
  simp only [Function.comp_apply]
  split_ifs
  · rw [hf]
  · rfl

theorem find_update_of_ne (hf : ∀ r, key (f r) = key r) (hne : k' ≠ k) :
    find key k' (update key k f rows) = find key k' rows := by
  rw [find_update hf]
  cases hfind : find key k' rows with
  | none => rfl
  | some r =>
    rw [Option.map_some, if_neg (by rwa [(find_eq_some hfind).2])]

theorem find_insert_of_ne {r : ρ} (hne : k ≠ key r) : find key k (rows ++ [r]) = find key k rows := by
  unfold find
  rw [List.find?_append, List.find?_cons_of_neg (by simpa using hne.symm), List.find?_nil,
    Option.or_none]

/-- A part of the rows that the update leaves as it is. -/
theorem map_update {α : Type} {p : ρ → α} (hp : ∀ r, p (f r) = p r) :
    (update key k f rows).map p = rows.map p := by
  unfold update
  rw [List.map_map]
  apply List.map_congr_left
  intro r _
  simp only [Function.comp_apply]
  split_ifs
  · exact hp r
  · rfl

/-- A condition that all rows meet is kept by an update if the row of its key meets it after. -/
theorem forall_update_iff (hkeys : (rows.map key).Nodup) {P : ρ → Prop} (h : ∀ r ∈ rows, P r) :
    (∀ r ∈ update key k f rows, P r) ↔ ∀ r, find key k rows = some r → P (f r) := by
  constructor
  · intro hall r hr
    obtain ⟨hmem, hkey⟩ := (find_eq_some_iff hkeys).1 hr
    exact hall _ (List.mem_map.2 ⟨r, hmem, if_pos hkey⟩)
  · intro hfound r hr
    obtain ⟨s, hs, rfl⟩ := List.mem_map.1 hr
    split_ifs with hkey
    · exact hfound s ((find_eq_some_iff hkeys).2 ⟨hs, hkey⟩)
    · exact h s hs

theorem update_comm (hf : ∀ r, key (f r) = key r) (hg : ∀ r, key (g r) = key r) (hne : k ≠ k') :
    update key k f (update key k' g rows) = update key k' g (update key k f rows) := by
  unfold update
  rw [List.map_map, List.map_map]
  apply List.map_congr_left
  intro r _
  simp only [Function.comp_apply]
  by_cases hk : key r = k
  · have hk' : key r ≠ k' := fun h => hne (hk.symm.trans h)
    simp only [hk, hf, if_pos, if_neg hne]
  · by_cases hk' : key r = k'
    · simp only [hk', hg, if_pos, if_neg hne.symm]
    · simp only [if_neg hk, if_neg hk']

theorem update_insert {r : ρ} (hne : key r ≠ k) :
    update key k f (rows ++ [r]) = update key k f rows ++ [r] := by
  unfold update
  rw [List.map_append, List.map_singleton, if_neg hne]

inductive Edit (κ ρ : Type) where
  | keep
  | update (k : κ) (f : ρ → ρ)
  | insert (r : ρ)

namespace Edit

variable {e e' : Edit κ ρ} {o o' : Option κ}

def apply (key : ρ → κ) : Edit κ ρ → List ρ → List ρ
  | keep, rows => rows
  | update k f, rows => Keyed.update key k f rows
  | insert r, rows => rows ++ [r]

/-- The edit changes or adds at most the row of the key `o`, and an update leaves the key as it is. -/
def About (key : ρ → κ) (o : Option κ) : Edit κ ρ → Prop
  | keep => True
  | update k f => o = some k ∧ ∀ r, key (f r) = key r
  | insert r => o = some (key r)

def inserts : Edit κ ρ → Bool
  | insert _ => true
  | _ => false

theorem find_apply (he : e.About key o) (hne : o ≠ some k) :
    find key k (e.apply key rows) = find key k rows := by
  cases e with
  | keep => rfl
  | update k' f => exact find_update_of_ne he.2 fun h => hne (h ▸ he.1)
  | insert r => exact find_insert_of_ne fun h => hne (h ▸ he)

theorem keys_apply (he : e.About key o) (hkind : e.inserts = false) :
    (e.apply key rows).map key = rows.map key := by
  cases e with
  | keep => rfl
  | update k f => exact map_update he.2
  | insert r => cases hkind

theorem apply_comm (he : e.About key o) (he' : e'.About key o')
    (hne : ∀ k, o = some k → o' ≠ some k) (hkind : e.inserts = false ∨ e'.inserts = false) :
    e.apply key (e'.apply key rows) = e'.apply key (e.apply key rows) := by
  cases e with
  | keep => rfl
  | update k f =>
    cases e' with
    | keep => rfl
    | update k' g => exact update_comm he.2 he'.2 fun h => hne k he.1 (h ▸ he'.1)
    | insert r => exact update_insert fun h => hne k he.1 (h ▸ he')
  | insert r =>
    cases e' with
    | keep => rfl
    | update k' g =>
      have hkey : key r ≠ k' := fun h => hne (key r) he (h ▸ he'.1)
      exact (update_insert hkey).symm
    | insert r' => simp [inserts] at hkind

theorem apply_perm (he : e.About key o) (he' : e'.About key o')
    (hne : ∀ k, o = some k → o' ≠ some k) :
    (e.apply key (e'.apply key rows)).Perm (e'.apply key (e.apply key rows)) := by
  cases hkind : e.inserts && e'.inserts with
  | false => rw [apply_comm he he' hne (Bool.and_eq_false_iff.1 hkind)]
  | true =>
    cases e <;> cases e' <;> simp only [inserts, Bool.and_eq_true, reduceCtorEq, and_false,
      false_and] at hkind
    simp only [apply, List.append_assoc]
    exact (List.Perm.swap _ _ []).append_left rows

end Edit

end Keyed
