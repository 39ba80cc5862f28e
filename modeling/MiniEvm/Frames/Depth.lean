import Mathlib.Tactic.Ring
import MiniEvm.Frames.Machine

/-! How deep frames are nested, and what a potential that every opening shrinks says about it. -/

namespace Frames

namespace Machine

variable {σ ρ ε : Type} [DecidableEq ρ]

/-- The states a run visits, with the number of frames that have been opened around each. -/
inductive Descends (M : Machine σ ρ ε) (start : σ) : Nat → σ → Prop
  | refl : Descends M start 0 start
  | step {depth state kept after} : Descends M start depth state →
      M.Steps state kept M.halt after → Descends M start depth after
  | enter {depth state kept child} : Descends M start depth state →
      M.Opens state kept child → Descends M start (depth + 1) (M.opening child)

variable {M : Machine σ ρ ε} {start state : σ}

/-- Every visited state lies at some depth. -/
theorem Reaches.descends {history : History σ ρ} (reaches : M.Reaches start history state) :
    ∃ depth, M.Descends start depth state := by
  induction reaches with
  | refl => exact ⟨0, .refl⟩
  | step _ steps ih =>
    obtain ⟨depth, above⟩ := ih
    exact ⟨depth, above.step steps⟩
  | enter _ opens ih =>
    obtain ⟨depth, above⟩ := ih
    exact ⟨depth + 1, above.enter opens⟩

/-- A state below other frames lies behind the opening of the innermost one. -/
theorem Descends.opened {depth : Nat} (descends : M.Descends start (depth + 1) state) :
    ∃ opener kept child, M.Descends start depth opener ∧ M.Opens opener kept child := by
  generalize deep : depth + 1 = total at descends
  -- Steps stay in their frame, so the last opening is the one that made it this deep.
  induction descends with
  | refl => cases deep
  | step _ _ ih => exact ih deep
  | enter above opens _ =>
    obtain rfl := Nat.succ.inj deep
    exact ⟨_, _, _, above, opens⟩

/--
A potential that no step raises and that every opening shrinks by a ratio falls geometrically.

The ratio is that of the two factors, and the potential of a frame is taken after its opening.
-/
theorem Descends.geometric {depth : Nat} (potential : σ → Nat) {kept shrunk : Nat}
    (descends : M.Descends start depth state)
    (step : ∀ {state past after}, M.Steps state past M.halt after →
      potential after ≤ potential state)
    (enter : ∀ {state past child}, M.Opens state past child →
      shrunk * potential (M.opening child) ≤ kept * potential state) :
    shrunk ^ depth * potential state ≤ kept ^ depth * potential start := by
  induction descends with
  | refl => exact Nat.le_refl _
  | step _ steps ih => exact (Nat.mul_le_mul_left _ (step steps)).trans ih
  | @enter depth state past child _ opens ih =>
    -- One more opening is paid with one more factor on both sides.
    calc shrunk ^ (depth + 1) * potential (M.opening child)
        = shrunk ^ depth * (shrunk * potential (M.opening child)) := by ring
      _ ≤ shrunk ^ depth * (kept * potential state) := Nat.mul_le_mul_left _ (enter opens)
      _ = kept * (shrunk ^ depth * potential state) := by ring
      _ ≤ kept * (kept ^ depth * potential start) := Nat.mul_le_mul_left _ ih
      _ = kept ^ (depth + 1) * potential start := by ring

end Machine

end Frames
