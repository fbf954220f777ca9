import Mathlib.Logic.Basic

namespace Automata

/-- The rows of a journal follow one another: each leaves the state that the one
before it entered, by a step of the table. -/
inductive Path {σ ρ : Type} (source target : ρ → σ) (allowed : σ → List σ) :
    σ → List ρ → σ → Prop where
  | nil {s : σ} : Path source target allowed s [] s
  | snoc {s : σ} {rows : List ρ} {row : ρ} (path : Path source target allowed s rows (source row))
      (step : target row ∈ allowed (source row)) :
      Path source target allowed s (rows ++ [row]) (target row)

section Paths
variable {σ ρ : Type} {source target : ρ → σ} {allowed : σ → List σ} {s t u : σ}
variable {rows rows' : List ρ}

theorem Path.single {row : ρ} (step : target row ∈ allowed (source row)) :
    Path source target allowed (source row) [row] (target row) := by
  have hnil : Path source target allowed (source row) [] (source row) := .nil
  exact hnil.snoc step

theorem Path.append (h : Path source target allowed s rows t)
    (h' : Path source target allowed t rows' u) : Path source target allowed s (rows ++ rows') u := by
  induction h' with
  | nil => simpa using h
  | snoc _ step ih =>
    rw [← List.append_assoc]
    exact ih.snoc step

/-- Without a row there is no way anywhere. -/
theorem Path.of_nil (h : Path source target allowed s rows t) (hrows : rows = []) : t = s := by
  cases h with
  | nil => rfl
  | snoc => simp at hrows

/-- A path ends where its last row leads. -/
theorem Path.ends (h : Path source target allowed s rows t) {row : ρ}
    (hlast : rows.getLast? = some row) : t = target row := by
  cases h with
  | nil => cases hlast
  | snoc => rw [List.getLast?_concat] at hlast; cases hlast; rfl

/-- A set of states that no step leaves is never left. -/
theorem Path.closed {P : σ → Prop} (h : Path source target allowed s rows t)
    (hstep : ∀ x y, P x → y ∈ allowed x → P y) (hs : P s) : P t := by
  induction h with
  | nil => exact hs
  | snoc _ step ih => exact hstep _ _ ih step

/-- From a state without steps there is no way on. -/
theorem Path.stuck (h : Path source target allowed s rows t) (hs : allowed s = []) :
    rows = [] ∧ t = s := by
  induction h with
  | nil => exact ⟨rfl, rfl⟩
  | snoc _ step ih =>
    rw [ih.2, hs] at step
    cases step

/-- A path into `Q` from outside contains a step into `Q`. -/
theorem Path.enters {Q : σ → Prop} (h : Path source target allowed s rows t) (hs : ¬ Q s)
    (ht : Q t) : ∃ row ∈ rows, target row ∈ allowed (source row) ∧ ¬ Q (source row) ∧
      Q (target row) := by
  induction h with
  | nil => exact absurd ht hs
  | @snoc rows row path step ih =>
    by_cases hq : Q (source row)
    · obtain ⟨r, hr, hrest⟩ := ih hq
      exact ⟨r, List.mem_append_left _ hr, hrest⟩
    · exact ⟨row, List.mem_append_right _ (List.mem_singleton_self row), step, hq, ht⟩

end Paths

end Automata
