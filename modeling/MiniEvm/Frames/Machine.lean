import MiniEvm.Frames.Program

/-! Machines whose steps may run nested frames: bounded runs, histories, and visited states. -/

namespace Frames

variable {σ ρ ε α β : Type}

/-- What a bounded computation came to. -/
inductive Outcome (ε α : Type) where
  -- The bound was too small to tell.
  | outOfFuel
  -- The host aborted.
  | fault (cause : ε)
  -- The computation finished.
  | value (result : α)

/-- Only a finished computation is continued. -/
def Outcome.bind : Outcome ε α → (α → Outcome ε β) → Outcome ε β
  | outOfFuel, _ => outOfFuel
  | fault cause, _ => fault cause
  | value result, rest => rest result

instance : Monad (Outcome ε) where
  pure := .value
  bind := .bind

@[simp] theorem Outcome.pure_eq (result : α) : (pure result : Outcome ε α) = .value result := rfl

@[simp] theorem Outcome.outOfFuel_bind (rest : α → Outcome ε β) :
    ((.outOfFuel : Outcome ε α) >>= rest) = .outOfFuel := rfl

@[simp] theorem Outcome.fault_bind (cause : ε) (rest : α → Outcome ε β) :
    ((.fault cause : Outcome ε α) >>= rest) = .fault cause := rfl

@[simp] theorem Outcome.value_bind (result : α) (rest : α → Outcome ε β) :
    ((.value result : Outcome ε α) >>= rest) = rest result := rfl

/-- A finished composition splits at its middle result. -/
theorem Outcome.bind_eq_value {first : Outcome ε α} {rest : α → Outcome ε β} {result : β}
    (ended : (first >>= rest) = .value result) :
    ∃ middle, first = .value middle ∧ rest middle = .value result := by
  -- Neither of the unfinished outcomes is continued.
  cases first with
  | outOfFuel => simp at ended
  | fault cause => simp at ended
  | value middle => exact ⟨middle, rfl, ended⟩

/-- An aborted composition aborted in one of its two halves. -/
theorem Outcome.bind_eq_fault {first : Outcome ε α} {rest : α → Outcome ε β} {cause : ε}
    (aborted : (first >>= rest) = .fault cause) :
    first = .fault cause ∨ ∃ middle, first = .value middle ∧ rest middle = .fault cause := by
  cases first with
  | outOfFuel => simp at aborted
  | fault other => exact .inl (by simpa using aborted)
  | value middle => exact .inr ⟨middle, rfl, aborted⟩

/-- One completed step of some frame: the states around it and the result it gave. -/
structure Transition (σ ρ : Type) where
  before : σ
  result : ρ
  after : σ

/-- The completed steps a frame can look back on, oldest first, without those of failed frames. -/
abbrev History (σ ρ : Type) := List (Transition σ ρ)

/-- A machine that steps one frame at a time and opens nested frames of the same kind. -/
structure Machine (σ ρ ε : Type) where
  -- The loop of a frame goes on while this holds.
  running : σ → Bool
  step : Program σ ρ ε Unit
  -- The result of a step that reached its end, on which the loop goes on.
  halt : ρ
  -- What a nested frame does to its state before and after its loop.
  opening : σ → σ
  closing : σ → σ

/-- Follows a tree to its end, running each nested frame as told. -/
def Tree.resolve (halt : ρ) (nested : σ → Outcome ε (History σ ρ × ρ × σ)) :
    Tree σ ρ ε Unit → Outcome ε (History σ ρ × ρ × σ)
  | fault cause => .fault cause
  | exit result state => .value ([], result, state)
  -- Reaching the end of a step tells the loop to go on.
  | next _ state => .value ([], halt, state)
  | enter child survives resume => do
    let (kept, result, final) ← nested child
    let (later, outcome, state) ← (resume result final).resolve halt nested
    -- The opener inherits the history of a nested frame only if that frame succeeded.
    return ((if survives result final then kept else []) ++ later, outcome, state)

/-- A tree ends in this state, given what the nested frames may come to. -/
def Tree.Resolves (halt : ρ) (nested : σ → History σ ρ → ρ → σ → Prop) :
    Tree σ ρ ε Unit → History σ ρ → ρ → σ → Prop
  | fault _, _, _, _ => False
  | exit result state, history, outcome, final => history = [] ∧ outcome = result ∧ final = state
  | next _ state, history, outcome, final => history = [] ∧ outcome = halt ∧ final = state
  | enter child survives resume, history, outcome, final =>
    ∃ kept result last later, nested child kept result last ∧
      (resume result last).Resolves halt nested later outcome final ∧
      history = (if survives result last then kept else []) ++ later

/-- A tree opens this frame, given what the frames it opened before may have come to. -/
def Tree.Enters (nested : σ → History σ ρ → ρ → σ → Prop) :
    Tree σ ρ ε Unit → History σ ρ → σ → Prop
  | fault _, _, _ => False
  | exit _ _, _, _ => False
  | next _ _, _, _ => False
  | enter child survives resume, history, opened =>
    -- Either this is the frame, or it was opened once this one had ended.
    (history = [] ∧ opened = child) ∨
      ∃ kept result last later, nested child kept result last ∧
        (resume result last).Enters nested later opened ∧
        history = (if survives result last then kept else []) ++ later

/-- A tree aborts the host by itself, given what the frames it opened may have come to. -/
def Tree.Faults (nested : σ → History σ ρ → ρ → σ → Prop) : Tree σ ρ ε Unit → ε → Prop
  | fault cause, aborted => aborted = cause
  | exit _ _, _ => False
  | next _ _, _ => False
  | enter child _ resume, aborted =>
    ∃ kept result last, nested child kept result last ∧ (resume result last).Faults nested aborted

/--
The functional reading of a tree is one of its relational readings.

What is known about a nested run may depend on the tree having opened that frame.
-/
theorem Tree.resolves_of_resolve {halt : ρ} {run : σ → Outcome ε (History σ ρ × ρ × σ)}
    {actual nested : σ → History σ ρ → ρ → σ → Prop}
    (ran : ∀ {child kept result last}, run child = .value (kept, result, last) →
      actual child kept result last)
    {tree : Tree σ ρ ε Unit} {history : History σ ρ} {outcome : ρ} {final : σ}
    (covers : ∀ {sofar child kept result last}, tree.Enters actual sofar child →
      run child = .value (kept, result, last) → nested child kept result last)
    (ended : tree.resolve halt run = .value (history, outcome, final)) :
    tree.Resolves halt nested history outcome final := by
  -- The tree shrinks at each nested frame, which it resumes from some outcome.
  induction tree generalizing history outcome final with
  | fault cause => simp [resolve] at ended
  | exit result state =>
    simp only [resolve, Outcome.value.injEq, Prod.mk.injEq] at ended
    exact ⟨ended.1.symm, ended.2.1.symm, ended.2.2.symm⟩
  | next value state =>
    simp only [resolve, Outcome.value.injEq, Prod.mk.injEq] at ended
    exact ⟨ended.1.symm, ended.2.1.symm, ended.2.2.symm⟩
  | enter child survives resume ih =>
    -- The nested run and the resumed tree both finished, so each has its relational reading.
    obtain ⟨⟨kept, result, last⟩, first, rest⟩ := Outcome.bind_eq_value ended
    obtain ⟨⟨later, inner, state⟩, resumed, rest⟩ := Outcome.bind_eq_value rest
    simp only [Outcome.pure_eq, Outcome.value.injEq, Prod.mk.injEq] at rest
    obtain ⟨rfl, rfl, rfl⟩ := rest
    refine ⟨kept, result, last, later, covers (.inl ⟨rfl, rfl⟩) first, ?_, rfl⟩
    exact ih _ _ (fun enters =>
      covers (.inr ⟨kept, result, last, _, ran first, enters, rfl⟩)) resumed

/-- An abort of the functional reading comes from the tree itself or from a nested run. -/
theorem Tree.faults_of_resolve {halt : ρ} {run : σ → Outcome ε (History σ ρ × ρ × σ)}
    {nested : σ → History σ ρ → ρ → σ → Prop}
    (covers : ∀ child kept result last, run child = .value (kept, result, last) →
      nested child kept result last)
    {tree : Tree σ ρ ε Unit} {cause : ε} (aborted : tree.resolve halt run = .fault cause) :
    tree.Faults nested cause ∨
      ∃ history child, tree.Enters nested history child ∧ run child = .fault cause := by
  -- Follow the tree down to the frame, or to the end, at which the abort happened.
  induction tree with
  | fault other =>
    simp only [resolve, Outcome.fault.injEq] at aborted
    exact .inl aborted.symm
  | exit result state => simp [resolve] at aborted
  | next value state => simp [resolve] at aborted
  | enter child survives resume ih =>
    rcases Outcome.bind_eq_fault aborted with nestedFault | ⟨⟨kept, result, last⟩, ran, rest⟩
    · exact .inr ⟨[], child, .inl ⟨rfl, rfl⟩, nestedFault⟩
    · have ended := covers _ _ _ _ ran
      rcases Outcome.bind_eq_fault rest with resumed | ⟨middle, _, impossible⟩
      · -- The nested frame ended, so the abort is one of the resumed tree.
        rcases ih result last resumed with own | ⟨later, opened, enters, deep⟩
        · exact .inl ⟨kept, result, last, ended, own⟩
        · exact .inr ⟨_, opened, .inr ⟨kept, result, last, later, ended, enters, rfl⟩, deep⟩
      · simp at impossible

/-- Relational readings only grow when the frames that were opened may come to more. -/
theorem Tree.Resolves.mono {halt : ρ} {nested wider : σ → History σ ρ → ρ → σ → Prop}
    {tree : Tree σ ρ ε Unit} {history : History σ ρ} {outcome : ρ} {final : σ}
    (widen : ∀ {sofar child kept result last}, tree.Enters nested sofar child →
      nested child kept result last → wider child kept result last)
    (ended : tree.Resolves halt nested history outcome final) :
    tree.Resolves halt wider history outcome final := by
  -- What is opened later is opened by the whole tree as well.
  induction tree generalizing history with
  | fault cause => exact ended
  | exit result state => exact ended
  | next value state => exact ended
  | enter child survives resume ih =>
    obtain ⟨kept, result, last, later, ran, resumed, shape⟩ := ended
    refine ⟨kept, result, last, later, widen (.inl ⟨rfl, rfl⟩) ran, ?_, shape⟩
    exact ih _ _ (fun enters =>
      widen (.inr ⟨kept, result, last, _, ran, enters, rfl⟩)) resumed

/-- The frames a tree may open only grow when the frames before them may come to more. -/
theorem Tree.Enters.mono {nested wider : σ → History σ ρ → ρ → σ → Prop}
    {tree : Tree σ ρ ε Unit} {history : History σ ρ} {opened : σ}
    (widen : ∀ {sofar child kept result last}, tree.Enters nested sofar child →
      nested child kept result last → wider child kept result last)
    (enters : tree.Enters nested history opened) : tree.Enters wider history opened := by
  -- The same walk down to the opened frame.
  induction tree generalizing history with
  | fault cause => exact enters
  | exit result state => exact enters
  | next value state => exact enters
  | enter child survives resume ih =>
    rcases enters with here | ⟨kept, result, last, later, ran, resumed, shape⟩
    · exact .inl here
    · refine .inr ⟨kept, result, last, later, widen (.inl ⟨rfl, rfl⟩) ran, ?_, shape⟩
      exact ih _ _ (fun enters =>
        widen (.inr ⟨kept, result, last, _, ran, enters, rfl⟩)) resumed

namespace Machine

variable [DecidableEq ρ] (M : Machine σ ρ ε)

/-- A nested frame: its opening, its loop, and its closing. -/
def nested (loop : σ → Outcome ε (History σ ρ × ρ × σ)) (child : σ) :
    Outcome ε (History σ ρ × ρ × σ) := do
  -- The child's state is prepared, run, and handed back through the closing copy.
  let (history, result, last) ← loop (M.opening child)
  return (history, result, M.closing last)

/-- The loop of one frame, bounded by fuel, with the history it leaves. -/
def trace : Nat → σ → Outcome ε (History σ ρ × ρ × σ)
  | 0, _ => .outOfFuel
  | fuel + 1, state =>
    if M.running state then do
      -- Fuel is spent on every step, and the frames below share what is left.
      let (kept, result, after) ← (M.step state).resolve M.halt (M.nested (trace fuel))
      let history := kept ++ [⟨state, result, after⟩]
      -- Only the halting result keeps the loop going; every other one ends the frame.
      if result = M.halt then do
        let (later, outcome, final) ← trace fuel after
        return (history ++ later, outcome, final)
      else return (history, result, after)
    else return ([], M.halt, state)

/-- The loop of one frame without its history, which no step can read. -/
def loop (fuel : Nat) (state : σ) : Outcome ε (ρ × σ) := do
  let (_, result, final) ← M.trace fuel state
  return (result, final)

/-- The loop started here finishes with this history, result and state. -/
def Runs (state : σ) (history : History σ ρ) (result : ρ) (final : σ) : Prop :=
  ∃ fuel, M.trace fuel state = .value (history, result, final)

/-- The nested frame started here finishes with this history, result and state. -/
def RunsNested (child : σ) (history : History σ ρ) (result : ρ) (final : σ) : Prop :=
  ∃ last, M.Runs (M.opening child) history result last ∧ final = M.closing last

/-- A step started here finishes, nested frames included, with this history, result and state. -/
def Steps (state : σ) (history : History σ ρ) (result : ρ) (after : σ) : Prop :=
  M.running state = true ∧ (M.step state).Resolves M.halt M.RunsNested history result after

/-- A step started here opens this frame. -/
def Opens (state : σ) (history : History σ ρ) (child : σ) : Prop :=
  M.running state = true ∧ (M.step state).Enters M.RunsNested history child

/-- The states a run visits, in its own frame and in every frame below, with the history so far. -/
inductive Reaches (start : σ) : History σ ρ → σ → Prop
  | refl : Reaches start [] start
  | step {history state kept after} : Reaches start history state →
      M.Steps state kept M.halt after →
      Reaches start (history ++ (kept ++ [⟨state, M.halt, after⟩])) after
  | enter {history state kept child} : Reaches start history state →
      M.Opens state kept child → Reaches start (history ++ kept) (M.opening child)

/-- The visited states together with those in which a step ended its frame. -/
def Visits (start : σ) (history : History σ ρ) (state : σ) : Prop :=
  -- A step that ends its frame leaves a state from which no further step is taken.
  M.Reaches start history state ∨
    ∃ past before kept result, M.Reaches start past before ∧ M.Steps before kept result state ∧
      history = past ++ (kept ++ [⟨before, result, state⟩])

end Machine

end Frames
