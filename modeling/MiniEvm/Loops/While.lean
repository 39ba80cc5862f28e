import Mathlib.Logic.Basic

/-! While loops as relations between states, and the rule that ends and describes them. -/

namespace Loops

variable {σ : Type} {guard : σ → Prop} {round : σ → σ → Prop}

/-- The loop, entered in the first state, is left in the second after so many rounds. -/
inductive Ends (guard : σ → Prop) (round : σ → σ → Prop) : Nat → σ → σ → Prop
  -- The guard is looked at before every round.
  | leave {state : σ} (refused : ¬ guard state) : Ends guard round 0 state state
  | turn {state mid final : σ} {rounds : Nat} (entered : guard state) (turned : round state mid)
      (rest : Ends guard round rounds mid final) : Ends guard round (rounds + 1) state final

namespace Ends

/-- A loop is only ever left where its guard fails. -/
theorem refused {rounds : Nat} {state final : σ} (ends : Ends guard round rounds state final) :
    ¬ guard final := by
  -- Every round passes the end of the loop on, and the last test is the one that failed.
  induction ends with
  | leave refused => exact refused
  | turn _ _ _ ih => exact ih

/--
A loop with an invariant ends, and within its budget of rounds.

The invariant carries the budget: every round takes one off, and with none left the guard fails.
-/
theorem of_invariant (guard : σ → Prop) (round : σ → σ → Prop) (invariant : Nat → σ → Prop)
    (exhausted : ∀ state, invariant 0 state → ¬ guard state)
    (kept : ∀ budget state, invariant (budget + 1) state → guard state →
      ∃ next, round state next ∧ invariant budget next)
    (budget : Nat) (state : σ) (start : invariant budget state) :
    ∃ rounds final left, Ends guard round rounds state final ∧ rounds + left = budget ∧
      invariant left final := by
  induction budget generalizing state with
  | zero => exact ⟨0, state, 0, leave (exhausted state start), rfl, start⟩
  | succ budget ih =>
    by_cases entered : guard state
    · -- One round uses up one of the budget, and the rest of the loop has the others.
      obtain ⟨next, turned, holds⟩ := kept budget state start entered
      obtain ⟨rounds, final, left, rest, total, last⟩ := ih next holds
      exact ⟨rounds + 1, final, left, turn entered turned rest, by omega, last⟩
    · exact ⟨0, state, budget + 1, leave entered, Nat.zero_add _, start⟩

/-- A function that takes the rounds one by one computes what the loop leaves behind. -/
theorem computed_by {β : Type} (compute : Nat → σ → β) {result : σ → β}
    (stops : ∀ fuel state, ¬ guard state → compute fuel state = result state)
    (follows : ∀ fuel state next, guard state → round state next →
      compute (fuel + 1) state = compute fuel next)
    {rounds fuel : Nat} {state final : σ} (ends : Ends guard round rounds state final)
    (enough : rounds ≤ fuel) : compute fuel state = result final := by
  induction ends generalizing fuel with
  | leave refused => exact stops fuel _ refused
  | turn entered turned _ ih =>
    -- There is fuel for this round, and for the others as well.
    obtain ⟨less, rfl⟩ : ∃ less, fuel = less + 1 := ⟨fuel - 1, by omega⟩
    rw [follows less _ _ entered turned]
    exact ih (by omega)

end Ends

end Loops
