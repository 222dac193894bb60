import Sshnack.Machine

/-!
# Progress under a fair schedule

A schedule gives the label of every step of an infinite run. It is fair to a kind of steps that it takes
again and again (`Recurs`). Such a run reaches a goal when no step raises a rank and every step of the
kind lowers it.
-/

namespace Machine

variable {S L : Type*} {step : S → L → S} {s : S} {σ : ℕ → L}

def stateAt (step : S → L → S) (s : S) (σ : ℕ → L) (t : ℕ) : S := run step s ((List.range t).map σ)

theorem stateAt_succ (step : S → L → S) (s : S) (σ : ℕ → L) (t : ℕ) :
    stateAt step s σ (t + 1) = step (stateAt step s σ t) (σ t) := by
  rw [stateAt, List.range_succ, List.map_append, run_append]
  rfl

def Reaches (step : S → L → S) (s : S) (σ : ℕ → L) (P : S → Prop) (t : ℕ) : Prop :=
  ∃ t' ≥ t, P (stateAt step s σ t')

/-- Steps of a kind are taken again and again. -/
def Recurs (step : S → L → S) (s : S) (σ : ℕ → L) (A : S → L → Prop) : Prop :=
  ∀ t, ∃ t' ≥ t, A (stateAt step s σ t') (σ t')

variable {P Q I G : S → Prop} {t : ℕ}

theorem Reaches.now (h : P (stateAt step s σ t)) : Reaches step s σ P t := ⟨t, le_rfl, h⟩

theorem Reaches.later {t' : ℕ} (h : Reaches step s σ P t') (ht : t ≤ t') : Reaches step s σ P t := by
  obtain ⟨u, hu, hP⟩ := h
  exact ⟨u, ht.trans hu, hP⟩

theorem Reaches.trans (h : Reaches step s σ P t)
    (hnext : ∀ t' ≥ t, P (stateAt step s σ t') → Reaches step s σ Q t') : Reaches step s σ Q t := by
  obtain ⟨t', ht', hP⟩ := h
  exact (hnext t' ht' hP).later ht'

theorem Reaches.mono (h : Reaches step s σ P t) (hPQ : ∀ s, P s → Q s) : Reaches step s σ Q t := by
  obtain ⟨t', ht', hP⟩ := h
  exact ⟨t', ht', hPQ _ hP⟩

theorem stateAt_stable (hkeep : ∀ s l, P s → P (step s l)) {t' : ℕ} (ht : t ≤ t')
    (h : P (stateAt step s σ t)) : P (stateAt step s σ t') := by
  induction t', ht using Nat.le_induction with
  | base => exact h
  | succ u _ ih =>
    rw [stateAt_succ]
    exact hkeep _ _ ih

/-- Finitely many goals, none of which is left again, are reached together. -/
theorem reaches_all {ι : Type*} [Finite ι] {P : ι → S → Prop}
    (hkeep : ∀ i u, t ≤ u → P i (stateAt step s σ u) → P i (stateAt step s σ (u + 1)))
    (h : ∀ i, Reaches step s σ (P i) t) : Reaches step s σ (fun s => ∀ i, P i s) t := by
  choose f hf hP using h
  obtain ⟨u, hu⟩ := Finite.exists_le f
  have hstay : ∀ i v, f i ≤ v → P i (stateAt step s σ v) := by
    intro i v hv
    induction v, hv using Nat.le_induction with
    | base => exact hP i
    | succ v hv ih => exact hkeep i v ((hf i).trans hv) ih
  exact ⟨max u t, le_max_right u t, fun i => hstay i _ ((hu i).trans (le_max_left u t))⟩

section Rank

variable {α : Type*} [PartialOrder α] {A : S → L → Prop} {rank : S → α}

/-- Until the awaited step is taken, the rank is lowered or stays as it is. -/
theorem waits (hstep : ∀ s l, I s → ¬ G s → G (step s l) ∨ I (step s l) ∧ rank (step s l) ≤ rank s)
    (hI : I (stateAt step s σ t)) (hG : ¬ G (stateAt step s σ t)) {u : ℕ} (hu : t ≤ u) :
    (∃ v ≥ t, G (stateAt step s σ v) ∨
        I (stateAt step s σ v) ∧ rank (stateAt step s σ v) < rank (stateAt step s σ t)) ∨
      I (stateAt step s σ u) ∧ ¬ G (stateAt step s σ u) ∧
        rank (stateAt step s σ u) = rank (stateAt step s σ t) := by
  induction u, hu using Nat.le_induction with
  | base => exact .inr ⟨hI, hG, rfl⟩
  | succ u hu ih =>
    rcases ih with hdone | ⟨hIu, hGu, hrank⟩
    · exact .inl hdone
    have hlate : u + 1 ≥ t := Nat.le_succ_of_le hu
    by_cases hG' : G (stateAt step s σ (u + 1))
    · exact .inl ⟨u + 1, hlate, .inl hG'⟩
    have hnext := hstep _ (σ u) hIu hGu
    rw [← stateAt_succ step s σ u, hrank] at hnext
    obtain ⟨hI', hle⟩ := hnext.resolve_left hG'
    rcases lt_or_eq_of_le hle with hlow | hsame
    · exact .inl ⟨u + 1, hlate, .inr ⟨hI', hlow⟩⟩
    · exact .inr ⟨hI', hG', hsame⟩

/-- No step raises the rank, and the awaited ones lower it. -/
theorem reaches_of_rank [WellFoundedLT α] (rank : S → α)
    (hstep : ∀ s l, I s → ¬ G s → G (step s l) ∨ I (step s l) ∧ rank (step s l) ≤ rank s)
    (hawait : ∀ s l, I s → ¬ G s → A s l → G (step s l) ∨ rank (step s l) < rank s)
    (hfair : Recurs step s σ A) (hI : I (stateAt step s σ t)) : Reaches step s σ G t := by
  induction hr : rank (stateAt step s σ t) using WellFoundedLT.induction generalizing t with
  | ind r ih =>
    by_cases hG : G (stateAt step s σ t)
    · exact .now hG
    have hlower : ∃ v ≥ t, G (stateAt step s σ v) ∨
        I (stateAt step s σ v) ∧ rank (stateAt step s σ v) < rank (stateAt step s σ t) := by
      obtain ⟨u, hu, hA⟩ := hfair t
      rcases waits hstep hI hG hu with hdone | ⟨hIu, hGu, hrank⟩
      · exact hdone
      have hkept := hstep _ (σ u) hIu hGu
      have hlow := hawait _ (σ u) hIu hGu hA
      rw [← stateAt_succ step s σ u] at hkept hlow
      refine ⟨u + 1, Nat.le_succ_of_le hu, ?_⟩
      rcases hkept with hgoal | ⟨hI', -⟩
      · exact .inl hgoal
      · exact hlow.imp_right fun hlt => ⟨hI', hrank ▸ hlt⟩
    obtain ⟨v, hv, hgoal | ⟨hIv, hlow⟩⟩ := hlower
    · exact ⟨v, hv, hgoal⟩
    · exact (ih _ (hr ▸ hlow) hIv rfl).later hv

/-- The awaited step leads to the goal at once. -/
theorem reaches_of_next (hstep : ∀ s l, I s → ¬ G s → G (step s l) ∨ I (step s l))
    (hnext : ∀ s l, I s → ¬ G s → A s l → G (step s l)) (hfair : Recurs step s σ A)
    (hI : I (stateAt step s σ t)) : Reaches step s σ G t :=
  reaches_of_rank (fun _ => (0 : ℕ))
    (fun s l hI hG => (hstep s l hI hG).imp_right fun hI' => ⟨hI', le_rfl⟩)
    (fun s l hI hG hA => .inl (hnext s l hI hG hA)) hfair hI

end Rank

end Machine
