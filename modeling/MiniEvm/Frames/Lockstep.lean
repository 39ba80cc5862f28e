import MiniEvm.Frames.Rules

/-! Two runs side by side: programs and machines that keep a relation between two states. -/

namespace Frames

variable {σ ρ ε α β : Type}

/-- Two computations come to the same kind of end, with related results if they finish. -/
def Outcome.Both (related : α → β → Prop) : Outcome ε α → Outcome ε β → Prop
  | outOfFuel, outOfFuel => True
  | fault cause, fault cause' => cause = cause'
  | value result, value result' => related result result'
  | _, _ => False

/-- Related computations that are continued alike stay related. -/
theorem Outcome.Both.bind {γ δ : Type} {left : Outcome ε α} {right : Outcome ε β}
    {middle : α → β → Prop} {related : γ → δ → Prop} {rest : α → Outcome ε γ}
    {rest' : β → Outcome ε δ} (head : left.Both middle right)
    (tail : ∀ {result result'}, left = .value result → right = .value result' →
      middle result result' → (rest result).Both related (rest' result')) :
    (left >>= rest).Both related (right >>= rest') := by
  -- Ends of different kinds are not related in the first place.
  cases left <;> cases right <;> try exact head.elim
  · exact trivial
  · exact head
  · exact tail rfl rfl head

/--
Two trees have the same shape, and related states at every end.

Nested frames have to be related only where they are granted to be, and the two trees resume alike
from related outcomes of them.
-/
def Tree.Both (granted opens ends exits : σ → σ → Prop) (nexts : α → σ → α → σ → Prop) :
    Tree σ ρ ε α → Tree σ ρ ε α → Prop
  | fault cause, fault cause' => cause = cause'
  | exit result state, exit result' state' => result = result' ∧ exits state state'
  | next value state, next value' state' => nexts value state value' state'
  | enter child survives resume, enter child' survives' resume' =>
    granted child child' → opens child child' ∧ ∀ result last last', ends last last' →
      survives result last = survives' result last' ∧
        (resume result last).Both granted opens ends exits nexts (resume' result last')
  | _, _ => False

section Trees

variable {granted opens ends exits : σ → σ → Prop}

/-- Sequencing asks the two rests to agree wherever the two first programs may end. -/
theorem Tree.Both.bind {left right : Tree σ ρ ε α} {rest rest' : α → σ → Tree σ ρ ε β}
    {middle : α → σ → α → σ → Prop} {nexts : β → σ → β → σ → Prop}
    (head : left.Both granted opens ends exits middle right)
    (tail : ∀ value state value' state', middle value state value' state' →
      (rest value state).Both granted opens ends exits nexts (rest' value' state')) :
    (left.bind rest).Both granted opens ends exits nexts (right.bind rest') := by
  -- The continuation waits behind every nested frame of both trees.
  induction left generalizing right with
  | fault cause => cases right <;> first | exact head.elim | exact head
  | exit result state => cases right <;> first | exact head.elim | exact head
  | next value state =>
    cases right with
    | next value' state' => exact tail _ _ _ _ head
    | _ => exact head.elim
  | enter child survives resume ih =>
    cases right with
    | enter child' survives' resume' =>
      intro grants
      obtain ⟨opened, resumes⟩ := head grants
      refine ⟨opened, fun result last last' ended => ?_⟩
      obtain ⟨same, both⟩ := resumes result last last' ended
      exact ⟨same, ih result last both⟩
    | _ => exact head.elim

/-- What is known at the ends may be weakened. -/
theorem Tree.Both.weaken {left right : Tree σ ρ ε α} {exits' : σ → σ → Prop}
    {nexts nexts' : α → σ → α → σ → Prop}
    (both : left.Both granted opens ends exits nexts right)
    (early : ∀ state state', exits state state' → exits' state state')
    (late : ∀ value state value' state', nexts value state value' state' →
      nexts' value state value' state') :
    left.Both granted opens ends exits' nexts' right := by
  induction left generalizing right with
  | fault cause => cases right <;> first | exact both.elim | exact both
  | exit result state =>
    cases right with
    | exit result' state' => exact ⟨both.1, early _ _ both.2⟩
    | _ => exact both.elim
  | next value state =>
    cases right with
    | next value' state' => exact late _ _ _ _ both
    | _ => exact both.elim
  -- The frames in between are asked for the same as before.
  | enter child survives resume ih =>
    cases right with
    | enter child' survives' resume' =>
      intro grants
      obtain ⟨opened, resumes⟩ := both grants
      refine ⟨opened, fun result last last' ended => ?_⟩
      obtain ⟨same, inside⟩ := resumes result last last' ended
      exact ⟨same, ih result last inside⟩
    | _ => exact both.elim

/-- Two trees that open no frames agree whatever is asked of frames. -/
theorem Tree.Both.of_closed {left right : Tree σ ρ ε α} {nexts : α → σ → α → σ → Prop}
    (both : left.Both (fun _ _ => True) (fun _ _ => False) (fun _ _ => False) exits nexts right) :
    left.Both granted opens ends exits nexts right := by
  cases left <;> cases right <;> first | exact both.elim | exact both | exact (both trivial).1.elim

/-- Trees of the same shape come to related ends, if their nested frames do. -/
theorem Tree.Both.resolve {halt : ρ} {alike : σ → σ → Prop}
    {run : σ → Outcome ε (History σ ρ × ρ × σ)} {actual : σ → History σ ρ → ρ → σ → Prop}
    (ran : ∀ {child kept result last}, run child = .value (kept, result, last) →
      actual child kept result last) {left right : Tree σ ρ ε Unit}
    (both : left.Both granted opens ends alike (fun _ state _ state' => alike state state') right)
    (grants : ∀ {sofar sofar' child child'}, left.Enters actual sofar child →
      right.Enters actual sofar' child' → granted child child')
    (nested : ∀ {sofar sofar' child child'}, left.Enters actual sofar child →
      right.Enters actual sofar' child' → opens child child' →
      (run child).Both (fun one other => one.2.1 = other.2.1 ∧ ends one.2.2 other.2.2)
        (run child')) :
    (left.resolve halt run).Both
      (fun one other => one.2.1 = other.2.1 ∧ alike one.2.2 other.2.2) (right.resolve halt run) := by
  induction left generalizing right with
  | fault cause => cases right <;> first | exact both.elim | exact both
  | exit result state =>
    cases right with
    | exit result' state' => exact both
    | _ => exact both.elim
  | next value state =>
    cases right with
    | next value' state' => exact ⟨rfl, both⟩
    | _ => exact both.elim
  | enter child survives resume ih =>
    cases right with
    | enter child' survives' resume' =>
      -- Both trees begin by opening a frame, and those frames are opened side by side.
      have here : (Tree.enter child survives resume).Enters actual [] child := .inl ⟨rfl, rfl⟩
      have there : (Tree.enter child' survives' resume').Enters actual [] child' :=
        .inl ⟨rfl, rfl⟩
      obtain ⟨opened, resumes⟩ := both (grants here there)
      refine (nested here there opened).bind ?_
      rintro ⟨kept, result, last⟩ ⟨kept', result', last'⟩ one other ⟨same, ended⟩
      simp only at same ended
      subst same
      -- Both trees resume from the same result, and what they open later they open now.
      refine Outcome.Both.bind (ih result last (resumes result last last' ended).2 ?_ ?_) ?_
      · intro sofar sofar' inner inner' enters enters'
        exact grants (.inr ⟨_, _, _, _, ran one, enters, rfl⟩)
          (.inr ⟨_, _, _, _, ran other, enters', rfl⟩)
      · intro sofar sofar' inner inner' enters enters'
        exact nested (.inr ⟨_, _, _, _, ran one, enters, rfl⟩)
          (.inr ⟨_, _, _, _, ran other, enters', rfl⟩)
      · intro outcome outcome' _ _ related
        exact related
    | _ => exact both.elim

end Trees

namespace Machine

variable [DecidableEq ρ] {M : Machine σ ρ ε}

/-- Two finished frames are related if their loops ended in related states. -/
def Ends (M : Machine σ ρ ε) (alike : σ → σ → Prop) (last last' : σ) : Prop :=
  ∃ stop stop', alike stop stop' ∧ last = M.closing stop ∧ last' = M.closing stop'

/--
The rule for two runs side by side.

A relation that each step keeps, as soon as the frames that it opens may be opened, relates all that
two runs from related states come to.
The steps may rely on conditions that the visited states of the two runs meet.
-/
theorem trace_both {alike : σ → σ → Prop} {granted : σ → σ → σ → σ → Prop}
    {allowed allowed' : σ → Prop}
    (running : ∀ {state state'}, alike state state' → M.running state = M.running state')
    (step : ∀ {state state'}, alike state state' → allowed state → allowed' state' →
      (M.step state).Both (granted state state')
        (fun child child' => alike (M.opening child) (M.opening child')) (M.Ends alike) alike
        (fun _ after _ after' => alike after after') (M.step state'))
    (grants : ∀ {state state' sofar sofar' child child'}, alike state state' → allowed state →
      allowed' state' → M.Opens state sofar child → M.Opens state' sofar' child' →
      granted state state' child child') (fuel : Nat) :
    ∀ {state state'}, alike state state' →
      (∀ visited reached, M.Reaches state visited reached → M.running reached = true →
        allowed reached) →
      (∀ visited reached, M.Reaches state' visited reached → M.running reached = true →
        allowed' reached) →
      (M.trace fuel state).Both (fun one other => one.2.1 = other.2.1 ∧ alike one.2.2 other.2.2)
        (M.trace fuel state') := by
  -- Fuel bounds the loops and the frames below them alike.
  induction fuel with
  | zero => exact fun _ _ _ => trivial
  | succ fuel ih =>
    intro state state' related meets meets'
    have same := running related
    rw [trace, trace, ← same]
    cases runs : M.running state with
    | false =>
      simp only [Bool.false_eq_true, if_false]
      exact ⟨rfl, related⟩
    | true =>
      have runs' : M.running state' = true := same.symm.trans runs
      simp only [if_true]
      have here := meets _ state .refl runs
      have there := meets' _ state' .refl runs'
      have resolved : ((M.step state).resolve M.halt (M.nested (M.trace fuel))).Both
          (fun one other => one.2.1 = other.2.1 ∧ alike one.2.2 other.2.2)
          ((M.step state').resolve M.halt (M.nested (M.trace fuel))) := by
        have ran : ∀ {child kept result last}, M.nested (M.trace fuel) child =
            .value (kept, result, last) → M.RunsNested child kept result last :=
          M.runsNested_of_nested
        refine Tree.Both.resolve ran (step related here there) ?_ ?_
        · intro sofar sofar' child child' enters enters'
          exact grants related here there ⟨runs, enters⟩ ⟨runs', enters'⟩
        · -- The frames below visit only what the two runs visit.
          intro sofar sofar' child child' enters enters' opened
          refine (ih opened ?_ ?_).bind ?_
          · intro visited reached reaches
            exact meets _ reached ((Reaches.enter .refl ⟨runs, enters⟩).trans reaches)
          · intro visited reached reaches
            exact meets' _ reached ((Reaches.enter .refl ⟨runs', enters'⟩).trans reaches)
          · intro ended ended' _ _ stopped
            exact ⟨stopped.1, _, _, stopped.2, rfl, rfl⟩
      refine resolved.bind ?_
      rintro ⟨kept, result, after⟩ ⟨kept', result', after'⟩ one other ⟨agree, next⟩
      simp only at agree next
      subst agree
      simp only
      split
      · -- Both steps completed, so both loops go on.
        rename_i halted
        subst halted
        have steps := M.steps_of_resolve runs one
        have steps' := M.steps_of_resolve runs' other
        refine (ih next ?_ ?_).bind fun _ _ ended => ended
        · intro visited reached reaches
          exact meets _ reached ((Reaches.step .refl steps).trans reaches)
        · intro visited reached reaches
          exact meets' _ reached ((Reaches.step .refl steps').trans reaches)
      · exact ⟨rfl, next⟩

end Machine

end Frames
