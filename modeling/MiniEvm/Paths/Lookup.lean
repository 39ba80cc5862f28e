import Mathlib.Logic.Function.Basic

/-! Partial maps from paths, and what they become below a shared run of steps. -/

namespace Paths

variable {α β : Type} [DecidableEq α]

/-- A partial map as it is read from above a run of steps. -/
def below (shared : List α) (lookup : List α → Option β) : List α → Option β := fun path =>
  if shared.isPrefixOf path then lookup (path.drop shared.length) else none

/-- A path that starts with the run reads on behind it. -/
theorem below_append (shared rest : List α) (lookup : List α → Option β) :
    below shared lookup (shared ++ rest) = lookup rest := by
  simp [below]

/-- A path that does not start with the run finds nothing. -/
theorem below_of_apart {shared path : List α} (lookup : List α → Option β)
    (other : ¬ shared <+: path) : below shared lookup path = none := by
  simp [below, other]

@[simp] theorem below_nil (lookup : List α → Option β) : below [] lookup = lookup := by
  funext path
  simp [below]

/-- Nothing lies below a run of steps when nothing is there. -/
@[simp] theorem below_empty (shared : List α) :
    below shared (fun _ => (none : Option β)) = fun _ => none := by
  funext path
  simp [below]

/-- Two runs of steps, one below the other, are one run. -/
theorem below_below (first second : List α) (lookup : List α → Option β) :
    below first (below second lookup) = below (first ++ second) lookup := by
  funext path
  by_cases starts : first <+: path
  · obtain ⟨rest, rfl⟩ := starts
    rw [below_append]
    simp [below, List.prefix_append_right_inj]
  · rw [below_of_apart _ starts, below_of_apart]
    exact fun longer => starts ((List.prefix_append first second).trans longer)

/-- An update below a run of steps is one behind that run. -/
theorem below_update (shared rest : List α) (lookup : List α → Option β) (value : Option β) :
    below shared (Function.update lookup rest value) =
      Function.update (below shared lookup) (shared ++ rest) value := by
  funext path
  by_cases starts : shared <+: path
  · obtain ⟨tail, rfl⟩ := starts
    simp only [Function.update_apply, below_append, List.append_cancel_left_eq]
  · -- The updated path starts with the run, and this one does not.
    rw [below_of_apart _ starts, Function.update_of_ne, below_of_apart _ starts]
    rintro rfl
    exact starts (List.prefix_append shared rest)

/-- Something is found on a path that starts with the run only. -/
theorem prefix_of_below {shared path : List α} {lookup : List α → Option β}
    (found : below shared lookup path ≠ none) : shared <+: path := by
  by_contra other
  exact found (below_of_apart lookup other)

/-- Two entries part at the very first step: they share none, and at most one is at the start. -/
def Diverges (lookup : List α → Option β) : Prop :=
  ∃ left right, lookup left ≠ none ∧ lookup right ≠ none ∧ left ≠ right ∧
    ∀ step leftRest rightRest, left = step :: leftRest → right ≠ step :: rightRest

/-- Below a run of steps there is still more than one entry. -/
theorem below_ne_update {shared path : List α} {lookup : List α → Option β} {value : Option β}
    (diverges : Diverges lookup) :
    below shared lookup ≠ Function.update (fun _ => none) path value := by
  obtain ⟨left, right, foundLeft, foundRight, different, _⟩ := diverges
  intro same
  have only : ∀ query, lookup query ≠ none → shared ++ query = path := by
    intro query found
    by_contra other
    apply found
    rw [← below_append shared query lookup, same, Function.update_of_ne other]
  exact different (List.append_cancel_left
    ((only left foundLeft).trans (only right foundRight).symm))

/-- No run of steps is longer than the one below which the entries part. -/
theorem prefix_of_diverges {first second : List α} {lookup other : List α → Option β}
    (diverges : Diverges lookup) (same : below first lookup = below second other) :
    second <+: first := by
  obtain ⟨left, right, foundLeft, foundRight, different, apart⟩ := diverges
  -- Both entries start with either run.
  have starts : ∀ path, lookup path ≠ none → second <+: first ++ path := by
    intro path found
    have found' : below second other (first ++ path) ≠ none := by
      rw [← same, below_append]
      exact found
    exact prefix_of_below found'
  rcases List.prefix_or_prefix_of_prefix (starts left foundLeft)
    (List.prefix_append first left) with shorter | ⟨more, rfl⟩
  · exact shorter
  · cases more with
    | nil => simp
    | cons step more =>
      -- A longer run would be one more step that the two share.
      obtain ⟨leftRest, continuesLeft⟩ :=
        (List.prefix_append_right_inj first).mp (starts left foundLeft)
      obtain ⟨rightRest, continuesRight⟩ :=
        (List.prefix_append_right_inj first).mp (starts right foundRight)
      exact absurd continuesRight.symm (apart step _ _ continuesLeft.symm)

/-- A run of steps and what diverges below it can be read off the whole. -/
theorem below_inj {first second : List α} {lookup other : List α → Option β}
    (diverges : Diverges lookup) (diverges' : Diverges other)
    (same : below first lookup = below second other) : first = second ∧ lookup = other := by
  have le := prefix_of_diverges diverges same
  have ge := prefix_of_diverges diverges' same.symm
  obtain rfl : first = second := ge.eq_of_length (Nat.le_antisymm ge.length_le le.length_le)
  refine ⟨rfl, ?_⟩
  funext path
  rw [← below_append first path lookup, same, below_append]

end Paths
