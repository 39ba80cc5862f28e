import MiniEvm.Frames.Rules

/-! Checking every state that a concrete run visits, together with what has happened before it. -/

namespace Frames

variable {σ ρ ε : Type}

/-- Whether every frame that a tree opens passes a test, given what happened in those before it. -/
def Tree.opensOnly (run : σ → Outcome ε (History σ ρ × ρ × σ)) (test : History σ ρ → σ → Bool) :
    History σ ρ → Tree σ ρ ε Unit → Bool
  | past, enter child survives resume => test past child && match run child with
    | .value (kept, result, last) =>
      (resume result last).opensOnly run test (past ++ if survives result last then kept else [])
    -- What comes behind an unfinished frame is unknown.
    | _ => false
  | _, _ => true

/-- The test passed for every frame that can be opened. -/
theorem Tree.passes_of_opensOnly {run : σ → Outcome ε (History σ ρ × ρ × σ)}
    {test : History σ ρ → σ → Bool} {nested : σ → History σ ρ → ρ → σ → Prop}
    (unique : ∀ {child kept kept' result result' last last'},
      run child = .value (kept, result, last) → nested child kept' result' last' →
        kept' = kept ∧ result' = result ∧ last' = last)
    {tree : Tree σ ρ ε Unit} {past history : History σ ρ} {child : σ}
    (checked : tree.opensOnly run test past = true) (enters : tree.Enters nested history child) :
    test (past ++ history) child = true := by
  -- Follow the tree to the frame in question.
  induction tree generalizing past history with
  | fault cause => exact enters.elim
  | exit result state => exact enters.elim
  | next value state => exact enters.elim
  | enter opened survives resume ih =>
    simp only [opensOnly, Bool.and_eq_true] at checked
    obtain ⟨here, behind⟩ := checked
    rcases enters with ⟨rfl, rfl⟩ | ⟨kept, result, last, later, ran, enters, rfl⟩
    · rwa [List.append_nil]
    · split at behind
      · rename_i finished
        obtain ⟨rfl, rfl, rfl⟩ := unique finished ran
        rw [← List.append_assoc]
        exact ih _ _ behind enters
      · cases behind

namespace Machine

variable [DecidableEq ρ] (M : Machine σ ρ ε)

/-- Whether every running state that a loop visits, in frames below too, passes a test. -/
def visitsOnly (test : History σ ρ → σ → Bool) : Nat → History σ ρ → σ → Bool
  | 0, _, _ => false
  | fuel + 1, past, state =>
    if M.running state then
      test past state && (M.step state).opensOnly (M.nested (M.trace fuel))
          (fun past child => visitsOnly test fuel past (M.opening child)) past &&
        match (M.step state).resolve M.halt (M.nested (M.trace fuel)) with
        | .value (kept, result, after) =>
          if result = M.halt then
            visitsOnly test fuel (past ++ (kept ++ [⟨state, result, after⟩])) after
          else true
        | _ => false
    else true

/-- A visited state is the first one, or lies behind the first step, or in the first frame. -/
theorem Reaches.head {M : Machine σ ρ ε} {start state : σ} {history : History σ ρ}
    (reaches : M.Reaches start history state) :
    (history = [] ∧ state = start) ∨
      (∃ kept after later, M.Steps start kept M.halt after ∧ M.Reaches after later state ∧
        history = (kept ++ [⟨start, M.halt, after⟩]) ++ later) ∨
      ∃ kept child later, M.Opens start kept child ∧ M.Reaches (M.opening child) later state ∧
        history = kept ++ later := by
  induction reaches with
  | refl => exact .inl ⟨rfl, rfl⟩
  | step _ steps ih =>
    rcases ih with ⟨rfl, rfl⟩ | ⟨kept, after, later, first, rest, rfl⟩ |
      ⟨kept, child, later, first, rest, rfl⟩
    · exact .inr (.inl ⟨_, _, [], steps, .refl, (List.append_nil _).symm⟩)
    · exact .inr (.inl ⟨kept, after, _, first, rest.step steps, List.append_assoc _ _ _⟩)
    · exact .inr (.inr ⟨kept, child, _, first, rest.step steps, List.append_assoc _ _ _⟩)
  | enter _ opens ih =>
    rcases ih with ⟨rfl, rfl⟩ | ⟨kept, after, later, first, rest, rfl⟩ |
      ⟨kept, child, later, first, rest, rfl⟩
    · exact .inr (.inr ⟨_, _, [], opens, .refl, (List.append_nil _).symm⟩)
    · exact .inr (.inl ⟨kept, after, _, first, rest.enter opens, List.append_assoc _ _ _⟩)
    · exact .inr (.inr ⟨kept, child, _, first, rest.enter opens, List.append_assoc _ _ _⟩)

/-- The test passes in every running state that is visited. -/
theorem passes_of_visitsOnly {M : Machine σ ρ ε} {test : History σ ρ → σ → Bool} {fuel : Nat}
    {start state : σ} {past history : History σ ρ}
    (checked : M.visitsOnly test fuel past start = true)
    (reaches : M.Reaches start history state) (running : M.running state = true) :
    test (past ++ history) state = true := by
  induction fuel generalizing start past history with
  | zero => cases checked
  | succ fuel ih =>
    rcases reaches.head with ⟨rfl, rfl⟩ | ⟨kept, after, later, steps, rest, rfl⟩ |
      ⟨kept, child, later, opens, rest, rfl⟩
    · simp only [visitsOnly, running, if_true, Bool.and_eq_true] at checked
      rw [List.append_nil]
      exact checked.1.1
    · simp only [visitsOnly, steps.1, if_true, Bool.and_eq_true] at checked
      have goesOn := checked.2
      -- The step that was computed is the step that was taken.
      split at goesOn
      · rename_i resolved
        obtain ⟨rfl, rfl, rfl⟩ := (M.steps_of_resolve steps.1 resolved).unique steps
        rw [if_pos rfl] at goesOn
        rw [← List.append_assoc]
        exact ih goesOn rest
      · cases goesOn
    · simp only [visitsOnly, opens.1, if_true, Bool.and_eq_true] at checked
      have below := Tree.passes_of_opensOnly ?_ checked.1.2 opens.2
      · rw [← List.append_assoc]
        exact ih below rest
      · intro child kept kept' result result' last last' finished ran
        obtain ⟨same, same', same''⟩ := (M.runsNested_of_nested finished).unique ran
        exact ⟨same.symm, same'.symm, same''.symm⟩

end Machine

end Frames
