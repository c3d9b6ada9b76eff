import Mathlib.Data.List.Forall2

/-!
# Outcomes of fallible steps

When a chain of steps that may fail ends well, so does each of its steps.
-/

namespace TypeAtlas.Outcome

theorem bind_eq_ok {step : Except ε α} {next : α → Except ε β} {result : β} :
    (step >>= next) = .ok result ↔ ∃ value, step = .ok value ∧ next value = .ok result := by
  cases step with
  | error fault => simp [bind, Except.bind]
  | ok value => simp [bind, Except.bind]

theorem map_eq_ok {step : Except ε α} {f : α → β} {result : β} :
    step.map f = .ok result ↔ ∃ value, step = .ok value ∧ f value = result := by
  cases step with
  | error fault => simp [Except.map]
  | ok value => simp [Except.map]

theorem pure_eq_ok {value result : α} :
    (pure value : Except ε α) = .ok result ↔ value = result := by
  simp [pure, Except.pure]

theorem bind_eq_error {step : Except ε α} {next : α → Except ε β} {fault : ε} :
    (step >>= next) = .error fault ↔
      step = .error fault ∨ ∃ value, step = .ok value ∧ next value = .error fault := by
  cases step with
  | error other => simp [bind, Except.bind]
  | ok value => simp [bind, Except.bind]

theorem map_eq_error {step : Except ε α} {f : α → β} {fault : ε} :
    step.map f = .error fault ↔ step = .error fault := by
  cases step with
  | error other => simp [Except.map]
  | ok value => simp [Except.map]

def fault? : Except ε α → Option ε
  | .ok _ => none
  | .error fault => some fault

theorem fault?_eq_none_iff {step : Except ε α} :
    fault? step = none ↔ ∃ value, step = .ok value := by
  cases step with
  | error fault => simp [fault?]
  | ok value => simp [fault?]

theorem fault?_eq_some_iff {step : Except ε α} {fault : ε} :
    fault? step = some fault ↔ step = .error fault := by
  cases step with
  | error other => simp [fault?]
  | ok value => simp [fault?]

@[simp] theorem fault?_map (step : Except ε α) (f : α → β) :
    fault? (step.map f) = fault? step := by
  cases step <;> rfl

theorem forall₂_of_mapM {step : α → Except ε β} {inputs : List α} {results : List β}
    (h : inputs.mapM step = .ok results) :
    List.Forall₂ (fun input result => step input = .ok result) inputs results := by
  induction inputs generalizing results with
  | nil =>
    cases pure_eq_ok.mp h
    exact .nil
  | cons input rest ih =>
    rw [List.mapM_cons] at h
    obtain ⟨first, hfirst, h⟩ := bind_eq_ok.mp h
    obtain ⟨more, hmore, h⟩ := bind_eq_ok.mp h
    cases pure_eq_ok.mp h
    exact .cons hfirst (ih hmore)

theorem mapM_of_forall₂ {step : α → Except ε β} {inputs : List α} {results : List β}
    (h : List.Forall₂ (fun input result => step input = .ok result) inputs results) :
    inputs.mapM step = .ok results := by
  induction h with
  | nil => rfl
  | cons hfirst _ ih =>
    rw [List.mapM_cons]
    exact bind_eq_ok.mpr ⟨_, hfirst, bind_eq_ok.mpr ⟨_, ih, rfl⟩⟩

theorem exists_error_of_mapM {step : α → Except ε β} {inputs : List α} {fault : ε}
    (h : inputs.mapM step = .error fault) : ∃ input ∈ inputs, step input = .error fault := by
  induction inputs with
  | nil => cases h
  | cons input rest ih =>
    rw [List.mapM_cons, bind_eq_error] at h
    rcases h with hfirst | ⟨first, -, h⟩
    · exact ⟨input, List.mem_cons_self, hfirst⟩
    · rcases bind_eq_error.mp h with hrest | ⟨more, -, hpure⟩
      · obtain ⟨other, hmem, hother⟩ := ih hrest
        exact ⟨other, List.mem_cons_of_mem input hmem, hother⟩
      · cases hpure

end TypeAtlas.Outcome
