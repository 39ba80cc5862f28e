import MiniEvm.Frames.Rules

/-! Programs that pay from a budget without looking at it, and runs under different budgets. -/

namespace Frames

variable {σ ρ ε α β : Type}

/-- A part of the state that is only spent, with the way to put more into it. -/
structure Budget (σ ρ : Type) where
  left : σ → Nat
  more : Nat → σ → σ
  -- The result of a payment that is not covered.
  starved : ρ
  -- The results that come with using up all there is.
  burning : ρ → Prop
  left_more : ∀ extra state, left (more extra state) = left state + extra

namespace Budget

variable (B : Budget σ ρ)

/-- Without frames of its own, a tree ends with no more than so much, unless a payment fails. -/
def Below (limit : Nat) : Tree σ ρ ε α → Prop :=
  Tree.Leaf (fun _ => True) (fun result state => result = B.starved ∨ B.left state < limit)
    (fun _ state => B.left state < limit)

/--
How a tree from a larger budget compares with the one from the smaller budget.

They do the same, apart from what the two budgets differ in, as long as the smaller one covers every
payment; where it does not, the larger one is left with less than it had in excess.
An early end may also burn whatever there is, and so end both alike.
-/
def Widens (extra : Nat) : Tree σ ρ ε α → Tree σ ρ ε α → Prop
  | .fault cause, wide => wide = .fault cause
  | .exit result state, wide => (result = B.starved ∧ B.Below extra wide) ∨
      wide = .exit result (B.more extra state) ∨ (wide = .exit result state ∧ B.burning result)
  | .next value state, wide => wide = .next value (B.more extra state)
  | .enter _ _ _, _ => False

/-- A program that opens no frame, only spends, and decides nothing by what is left. -/
structure Metered (program : Program σ ρ ε α) : Prop where
  spends : ∀ state, (program state).Leaf (fun _ => True)
    (fun _ final => B.left final ≤ B.left state) (fun _ final => B.left final ≤ B.left state)
  widens : ∀ extra state, B.Widens extra (program state) (program (B.more extra state))

namespace Metered

variable {B}

theorem pure (value : α) : B.Metered (pure value : Program σ ρ ε α) :=
  ⟨fun _ => Nat.le_refl _, fun _ _ => rfl⟩

/-- An early end keeps what is left, whatever it reports. -/
theorem exit (result : ρ) : B.Metered (Program.exit result : Program σ ρ ε α) :=
  ⟨fun _ => Nat.le_refl _, fun _ _ => .inr (.inl rfl)⟩

theorem fault (cause : ε) : B.Metered (Program.fault cause : Program σ ρ ε α) :=
  ⟨fun _ => trivial, fun _ _ => rfl⟩

/-- A change of something else. -/
theorem modify {change : σ → σ} (apart : ∀ extra state,
      change (B.more extra state) = B.more extra (change state))
    (same : ∀ state, B.left (change state) = B.left state) :
    B.Metered (Program.modify change : Program σ ρ ε Unit) :=
  ⟨fun state => Nat.le_of_eq (same state), fun extra state => by
    rw [Program.modify_apply, Program.modify_apply, apart]
    rfl⟩

/-- What is read may be used as long as it is the same under every budget. -/
theorem get_bind {rest : σ → Program σ ρ ε α}
    (same : ∀ extra state, rest (B.more extra state) = rest state)
    (tail : ∀ state, B.Metered (rest state)) : B.Metered (Program.get >>= rest) := by
  constructor
  · exact fun state => (tail state).spends state
  · intro extra state
    have wide := (tail state).widens extra state
    simp only [Program.bind_apply, Program.get_apply, Tree.bind]
    rwa [same]

/-- From below a limit, a metered program stays below it. -/
theorem below {program : Program σ ρ ε α} (metered : B.Metered program) {limit : Nat} {state : σ}
    (short : B.left state < limit) : B.Below limit (program state) :=
  (metered.spends state).weaken (fun _ _ => trivial)
    (fun _ _ spent => .inr (Nat.lt_of_le_of_lt spent short))
    (fun _ _ spent => Nat.lt_of_le_of_lt spent short)

theorem bind {first : Program σ ρ ε α} {rest : α → Program σ ρ ε β} (head : B.Metered first)
    (tail : ∀ value, B.Metered (rest value)) : B.Metered (first >>= rest) := by
  constructor
  · intro state
    have spent := head.spends state
    rw [Program.bind_apply]
    cases stands : first state with
    | fault cause => trivial
    | exit result final =>
      rw [stands] at spent
      exact spent
    | next value mid =>
      rw [stands] at spent
      -- What the rest leaves is at most what the first part left.
      exact ((tail value).spends mid).weaken (fun _ _ => trivial)
        (fun _ _ later => Nat.le_trans later spent) (fun _ _ later => Nat.le_trans later spent)
    | enter child survives resume =>
      rw [stands] at spent
      exact spent.elim
  · intro extra state
    have wide := head.widens extra state
    rw [Program.bind_apply, Program.bind_apply]
    cases stands : first state with
    | fault cause =>
      rw [stands] at wide
      exact congrArg (Tree.bind · _) wide
    | exit result final =>
      rw [stands] at wide
      rcases wide with ⟨starved, below⟩ | same | ⟨same, burnt⟩
      · -- The larger budget may go on, but what it has left stays below the excess.
        refine .inl ⟨starved, ?_⟩
        cases goes : first (B.more extra state) with
        | fault cause => trivial
        | exit result' final' =>
          rw [goes] at below
          exact below
        | next value mid =>
          rw [goes] at below
          exact (tail value).below below
        | enter child survives resume =>
          rw [goes] at below
          exact below.elim
      · exact .inr (.inl (congrArg (Tree.bind · _) same))
      · exact .inr (.inr ⟨congrArg (Tree.bind · _) same, burnt⟩)
    | next value mid =>
      rw [stands] at wide
      rw [wide]
      exact (tail value).widens extra mid
    | enter child survives resume =>
      rw [stands] at wide
      exact wide.elim

/-- A payment, which fails without touching anything where it is not covered. -/
theorem pay {program : Program σ ρ ε Unit} {cost : Nat} {spend : σ → σ}
    (pays : ∀ state, program state =
      if B.left state < cost then .exit B.starved state else .next () (spend state))
    (spent : ∀ state, B.left (spend state) = B.left state - cost)
    (apart : ∀ extra state, cost ≤ B.left state →
      spend (B.more extra state) = B.more extra (spend state)) : B.Metered program := by
  constructor
  · intro state
    rw [pays]
    split
    · exact Nat.le_refl _
    · exact Nat.le_trans (Nat.le_of_eq (spent state)) (Nat.sub_le _ _)
  · intro extra state
    rw [pays, pays, B.left_more]
    by_cases poor : B.left state < cost
    · -- Even a payment that the larger budget covers eats into its excess.
      rw [if_pos poor]
      refine .inl ⟨rfl, ?_⟩
      split
      · exact .inl rfl
      · show B.left (spend (B.more extra state)) < extra
        rw [spent, B.left_more]
        omega
    · rw [if_neg poor, if_neg (by omega)]
      exact congrArg (Tree.next ()) (apart extra state (by omega))

end Metered

end Budget

namespace Machine

variable [DecidableEq ρ] {M : Machine σ ρ ε} (B : Budget σ ρ)


/-- A run that ends with a failed payment, or with less than so much. -/
def Drained (limit : Nat) (outcome : Outcome ε (History σ ρ × ρ × σ)) : Prop :=
  ∀ history result final, outcome = .value (history, result, final) →
    result = B.starved ∨ B.left final < limit

/-- How a run from a larger budget compares with the one from the smaller budget. -/
def Widened (extra : Nat) : Outcome ε (History σ ρ × ρ × σ) →
    Outcome ε (History σ ρ × ρ × σ) → Prop
  | .outOfFuel, wide => wide = .outOfFuel
  | .fault cause, wide => wide = .fault cause
  | .value (_, result, final), wide => (result = B.starved ∧ Drained B extra wide) ∨
      ∃ history, wide = .value (history, result, B.more extra final) ∨
        wide = .value (history, result, final) ∧ B.burning result

variable {B} {extra : Nat}

omit [DecidableEq ρ] in
/-- Steps that both runs have behind them change nothing in the comparison. -/
theorem Widened.prepend {small wide : Outcome ε (History σ ρ × ρ × σ)}
    (widened : Widened B extra small wide) (done done' : History σ ρ) :
    Widened B extra (small >>= fun ended => .value (done ++ ended.1, ended.2.1, ended.2.2))
      (wide >>= fun ended => .value (done' ++ ended.1, ended.2.1, ended.2.2)) := by
  cases small with
  | outOfFuel =>
    rw [show wide = .outOfFuel from widened]
    exact rfl
  | fault cause =>
    rw [show wide = .fault cause from widened]
    exact rfl
  | value ended =>
    rcases widened with ⟨starved, drained⟩ | ⟨history, rfl | ⟨rfl, burnt⟩⟩
    · refine .inl ⟨starved, fun history result final ended => ?_⟩
      obtain ⟨⟨later, outcome, stop⟩, looped, shape⟩ := Outcome.bind_eq_value ended
      simp only [Outcome.value.injEq, Prod.mk.injEq] at shape
      obtain ⟨_, rfl, rfl⟩ := shape
      exact drained _ _ _ looped
    · exact .inr ⟨_, .inl rfl⟩
    · exact .inr ⟨_, .inr ⟨rfl, burnt⟩⟩

omit [DecidableEq ρ] in
/-- A tree that ends below a limit does so however frames are run. -/
theorem below_of_resolve {halt : ρ} {run : σ → Outcome ε (History σ ρ × ρ × σ)}
    {tree : Tree σ ρ ε Unit} {kept : History σ ρ} {result : ρ} {final : σ}
    (below : B.Below extra tree) (resolved : tree.resolve halt run = .value (kept, result, final)) :
    result = B.starved ∨ B.left final < extra := by
  cases tree with
  | fault cause => cases resolved
  | exit outcome state =>
    cases resolved
    exact below
  | next value state =>
    cases resolved
    exact .inr below
  | enter child survives resume => exact below.elim

/-- Once a step has fallen below a limit, the rest of its run stays there. -/
theorem drained_of_below {state : σ} (apart : B.starved ≠ M.halt)
    (falls : ∀ {state history result final}, M.Runs state history result final →
      B.left final ≤ B.left state)
    (running : M.running state = true) (below : B.Below extra (M.step state)) (fuel : Nat) :
    Drained B extra (M.trace (fuel + 1) state) := by
  intro history result final ended
  rcases M.trace_split ended with ⟨idle, _⟩ | ⟨_, kept, resolved, _⟩ |
    ⟨_, kept, after, later, resolved, looped, _⟩
  · rw [running] at idle
    cases idle
  · exact below_of_resolve below resolved
  · -- The step went on, so what the rest of the loop leaves is less still.
    rcases below_of_resolve below resolved with starved | short
    · exact absurd starved.symm apart
    · exact .inr (Nat.lt_of_le_of_lt (falls ⟨fuel, looped⟩) short)

/--
The rule for runs under two budgets.

If no step from the smaller budget decides anything by what is left, the run from the larger one is
the same up to the excess, or the smaller budget does not last and neither does the excess.
-/
theorem trace_widened {allowed : σ → Prop} (apart : B.starved ≠ M.halt)
    (running : ∀ state, M.running (B.more extra state) = M.running state)
    (steps : ∀ state, allowed state →
      B.Widens extra (M.step state) (M.step (B.more extra state)) ∧
        ∀ final, M.step state ≠ .exit M.halt final)
    (falls : ∀ {state history result final}, M.Runs state history result final →
      B.left final ≤ B.left state) (fuel : Nat) :
    ∀ {state}, (∀ visited reached, M.Reaches state visited reached →
        M.running reached = true → allowed reached) →
      Widened B extra (M.trace fuel state) (M.trace fuel (B.more extra state)) := by
  -- Both loops take their steps together until the smaller budget ends.
  induction fuel with
  | zero => exact fun _ => rfl
  | succ fuel ih =>
    intro state meets
    cases runs : M.running state with
    | false =>
      rw [M.trace_of_idle runs, M.trace_of_idle ((running state).trans runs)]
      exact .inr ⟨[], .inl rfl⟩
    | true =>
      have runs' := (running state).trans runs
      obtain ⟨wide, early⟩ := steps state (meets _ state .refl runs)
      cases stands : M.step state with
      | enter child survives resume =>
        rw [stands] at wide
        exact wide.elim
      | fault cause =>
        rw [stands] at wide
        have same : M.step (B.more extra state) = .fault cause := wide
        simp only [trace, runs, runs', stands, same, if_true, Tree.resolve]
        exact rfl
      | next value after =>
        rw [stands] at wide
        have same : M.step (B.more extra state) = .next value (B.more extra after) := wide
        -- The rest of both loops is the same run, one step later.
        have stepped : M.Steps state [] M.halt after :=
          ⟨runs, by rw [stands]; exact ⟨rfl, rfl, rfl⟩⟩
        have rest := ih fun visited reached reaches =>
          meets _ reached ((Reaches.step .refl stepped).trans reaches)
        simp only [trace, runs, runs', stands, same, if_true, Tree.resolve, Outcome.value_bind]
        exact rest.prepend _ _
      | exit result after =>
        rw [stands] at wide
        have stops : result ≠ M.halt := fun halted => early after (halted ▸ stands)
        have small : M.trace (fuel + 1) state = .value ([⟨state, result, after⟩], result, after) := by
          simp only [trace, runs, stands, if_true, Tree.resolve, Outcome.value_bind, if_neg stops]
          rfl
        rw [small]
        rcases wide with ⟨starved, below⟩ | same | ⟨same, burnt⟩
        · exact .inl ⟨starved, drained_of_below apart falls runs' below fuel⟩
        · simp only [trace, runs', same, if_true, Tree.resolve, Outcome.value_bind, if_neg stops]
          exact .inr ⟨_, .inl rfl⟩
        · simp only [trace, runs', same, if_true, Tree.resolve, Outcome.value_bind, if_neg stops]
          exact .inr ⟨_, .inr ⟨rfl, burnt⟩⟩

end Machine

end Frames
