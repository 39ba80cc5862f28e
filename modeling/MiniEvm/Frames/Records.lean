import MiniEvm.Frames.Rules

/-! What every frame of a run did by itself, in its own record. -/

namespace Frames

variable {σ ρ ε : Type}

/-- The steps of one frame, oldest first, without those of the frames below, and its result. -/
structure Record (σ ρ : Type) where
  steps : History σ ρ
  result : ρ

namespace Machine

mutual

/-- The frame that starts here comes to its end, with its own record and those of all below. -/
inductive Records (M : Machine σ ρ ε) : σ → Record σ ρ → List (Record σ ρ) → σ → Prop
  | idle {state} : M.running state = false → Records M state ⟨[], M.halt⟩ [] state
  | stop {state below result after} : M.running state = true →
      Unfolds M (M.step state) below result after → result ≠ M.halt →
      Records M state ⟨[⟨state, result, after⟩], result⟩ below after
  | next {state below after own later final} : M.running state = true →
      Unfolds M (M.step state) below M.halt after → Records M after own later final →
      Records M state ⟨⟨state, M.halt, after⟩ :: own.steps, own.result⟩ (below ++ later) final

/-- The tree comes to its end, with the records of all frames on the way. -/
inductive Unfolds (M : Machine σ ρ ε) : Tree σ ρ ε Unit → List (Record σ ρ) → ρ → σ → Prop
  | exit {result state} : Unfolds M (.exit result state) [] result state
  | next {value state} : Unfolds M (.next value state) [] M.halt state
  -- The opener resumes from the closed frame.
  | enter {child survives resume own below last later outcome final} :
      Records M (M.opening child) own below last →
      Unfolds M (resume own.result (M.closing last)) later outcome final →
      Unfolds M (.enter child survives resume) (own :: (below ++ later)) outcome final

end

variable [DecidableEq ρ] {M : Machine σ ρ ε}

theorem Runs.of_idle {state : σ} (idle : M.running state = false) :
    M.Runs state [] M.halt state := ⟨1, M.trace_of_idle idle 0⟩

/-- A step that does not halt is the last one of its frame. -/
theorem Runs.of_stop {state after : σ} {kept : History σ ρ} {result : ρ}
    (steps : M.Steps state kept result after) (stopped : result ≠ M.halt) :
    M.Runs state (kept ++ [⟨state, result, after⟩]) result after := by
  obtain ⟨fuel, resolved⟩ := M.resolve_of_resolves steps.2
  refine ⟨fuel + 1, ?_⟩
  rw [trace]
  simp only [steps.1, if_true, resolved fuel (Nat.le_refl _), Outcome.value_bind, stopped, if_false,
    Outcome.pure_eq]

/-- After a step that halts, the frame goes on. -/
theorem Runs.of_next {state after final : σ} {kept later : History σ ρ} {outcome : ρ}
    (steps : M.Steps state kept M.halt after) (rest : M.Runs after later outcome final) :
    M.Runs state ((kept ++ [⟨state, M.halt, after⟩]) ++ later) outcome final := by
  obtain ⟨first, resolved⟩ := M.resolve_of_resolves steps.2
  obtain ⟨second, looped⟩ := rest
  -- The larger one of the two bounds is enough for both.
  have same := M.trace_mono (Nat.le_max_right first second) after (by simp [looped])
  exact ⟨max first second + 1, M.trace_of_step steps.1
    (resolved _ (Nat.le_max_left first second)) (same.trans looped)⟩

/-- The steps that a frame takes by itself from its start to its end. -/
inductive Walks (M : Machine σ ρ ε) : σ → Record σ ρ → Prop
  | idle {state} : M.running state = false → Walks M state ⟨[], M.halt⟩
  | stop {state kept result after} : M.Steps state kept result after → result ≠ M.halt →
      Walks M state ⟨[⟨state, result, after⟩], result⟩
  | next {state kept after own} : M.Steps state kept M.halt after → Walks M after own →
      Walks M state ⟨⟨state, M.halt, after⟩ :: own.steps, own.result⟩

/--
The states that a loop steps from by itself, and what it came to.

The bound of a loop may cut it off before a step or in the middle of one.
A step that has no end is one that aborts.
-/
inductive Rounds (M : Machine σ ρ ε) : σ → List σ → Outcome ε (ρ × σ) → Prop
  | idle {state} : M.running state = false → Rounds M state [] (.value (M.halt, state))
  | next {state kept after states outcome} : M.Steps state kept M.halt after →
      Rounds M after states outcome → Rounds M state (state :: states) outcome
  | stop {state kept result after} : M.Steps state kept result after → result ≠ M.halt →
      Rounds M state [state] (.value (result, after))
  | abort {state cause} : M.running state = true →
      (∀ kept result after, ¬ M.Steps state kept result after) →
      Rounds M state [state] (.fault cause)
  | cutBefore {state} : Rounds M state [] .outOfFuel
  | cutInside {state} : M.running state = true → Rounds M state [state] .outOfFuel

/-- A step that aborts under some bound has no end under any other. -/
theorem not_steps_of_fault {fuel : Nat} {state after : σ} {kept : History σ ρ} {result : ρ}
    {cause : ε} (aborted : (M.step state).resolve M.halt (M.nested (M.trace fuel)) = .fault cause) :
    ¬ M.Steps state kept result after := by
  intro steps
  obtain ⟨fuel', resolved⟩ := M.resolve_of_resolves steps.2
  -- A bound that is large enough for the end would have to abort as well.
  have finished := resolved _ (Nat.le_max_right fuel fuel')
  have same := (M.step state).resolve_mono M.halt
    (fun child => M.nested_mono (M.trace_mono (Nat.le_max_left fuel fuel')) child)
    (by simp [aborted])
  rw [same, aborted] at finished
  cases finished

/-- The record of a frame that some step opens. -/
def Below (M : Machine σ ρ ε) (record : Record σ ρ) : Prop :=
  ∃ state sofar child, M.Opens state sofar child ∧ M.Walks (M.opening child) record

/-- The records of a step are those of frames that it opens, and of the frames below these. -/
theorem below_of_opens {state : σ} {records : List (Record σ ρ)} (running : M.running state = true)
    (frames : ∀ record ∈ records, M.Below record ∨ ∃ sofar child,
      (M.step state).Enters M.RunsNested sofar child ∧ M.Walks (M.opening child) record) :
    ∀ record ∈ records, M.Below record := by
  intro record member
  rcases frames record member with below | ⟨sofar, child, enters, walks⟩
  · exact below
  · exact ⟨state, sofar, child, ⟨running, enters⟩, walks⟩

mutual

/-- Each record is that of a frame, and the first one is that of the frame that starts here. -/
theorem Records.sound {start final : σ} {own : Record σ ρ} {below : List (Record σ ρ)} :
    M.Records start own below final →
    (∃ history, M.Runs start history own.result final) ∧ M.Walks start own ∧
      ∀ record ∈ below, M.Below record
  | .idle still => ⟨⟨_, .of_idle still⟩, .idle still, by simp⟩
  | .stop running unfolds stopped => by
    obtain ⟨kept, resolved, frames⟩ := unfolds.sound
    have steps : M.Steps _ kept _ _ := ⟨running, resolved⟩
    exact ⟨⟨_, .of_stop steps stopped⟩, .stop steps stopped, below_of_opens running frames⟩
  | .next running unfolds rest => by
    obtain ⟨kept, resolved, frames⟩ := unfolds.sound
    obtain ⟨⟨history, ran⟩, walks, others⟩ := rest.sound
    have steps : M.Steps _ kept _ _ := ⟨running, resolved⟩
    refine ⟨⟨_, .of_next steps ran⟩, .next steps walks, ?_⟩
    exact List.forall_mem_append.mpr ⟨below_of_opens running frames, others⟩

/-- A tree that unfolds resolves, and its records are those of frames that it enters. -/
theorem Unfolds.sound {tree : Tree σ ρ ε Unit} {below : List (Record σ ρ)} {result : ρ}
    {final : σ} :
    M.Unfolds tree below result final →
    ∃ kept, tree.Resolves M.halt M.RunsNested kept result final ∧
      ∀ record ∈ below, M.Below record ∨ ∃ sofar child,
        tree.Enters M.RunsNested sofar child ∧ M.Walks (M.opening child) record
  | .exit => ⟨[], ⟨rfl, rfl, rfl⟩, by simp⟩
  | .next => ⟨[], ⟨rfl, rfl, rfl⟩, by simp⟩
  | .enter records resumed => by
    obtain ⟨⟨history, ran⟩, walks, others⟩ := records.sound
    obtain ⟨kept, resolved, frames⟩ := resumed.sound
    refine ⟨_, ⟨history, _, _, kept, ⟨_, ran, rfl⟩, resolved, rfl⟩, ?_⟩
    refine List.forall_mem_cons.mpr ⟨.inr ⟨[], _, .inl ⟨rfl, rfl⟩, walks⟩, ?_⟩
    refine List.forall_mem_append.mpr ⟨fun record member => .inl (others record member), ?_⟩
    intro record member
    -- What the resumed tree enters was entered by the whole tree as well.
    rcases frames record member with below | ⟨sofar, child, enters, later⟩
    · exact .inl below
    · exact .inr ⟨_, child, .inr ⟨history, _, _, sofar, ⟨_, ran, rfl⟩, enters, rfl⟩, later⟩

end

/-- Every step in the record of a frame is one that the frame took. -/
theorem Walks.steps_of_mem {state : σ} {record : Record σ ρ} (walks : M.Walks state record)
    {done : Transition σ ρ} (member : done ∈ record.steps) :
    ∃ kept, M.Steps done.before kept done.result done.after := by
  induction walks with
  | idle still => cases member
  | stop steps stopped =>
    obtain rfl := List.mem_singleton.mp member
    exact ⟨_, steps⟩
  | next steps walks ih =>
    rcases List.mem_cons.mp member with rfl | later
    · exact ⟨_, steps⟩
    · exact ih later

/-- Every step in the records of a run is one that some frame took. -/
theorem Records.steps_of_mem {start final : σ} {own : Record σ ρ} {below : List (Record σ ρ)}
    (records : M.Records start own below final) {done : Transition σ ρ}
    (member : done ∈ (own :: below).flatMap Record.steps) :
    ∃ kept, M.Steps done.before kept done.result done.after := by
  obtain ⟨_, walks, frames⟩ := records.sound
  obtain ⟨record, listed, inside⟩ := List.mem_flatMap.mp member
  rcases List.mem_cons.mp listed with rfl | lower
  · exact walks.steps_of_mem inside
  · obtain ⟨_, _, _, _, walks⟩ := frames record lower
    exact walks.steps_of_mem inside

/-- A tree whose nested runs have records has the records of them all. -/
theorem unfolds_of_resolves {tree : Tree σ ρ ε Unit} {kept : History σ ρ} {result : ρ} {final : σ}
    (resolved : tree.Resolves M.halt (M.Nests fun start _ result final =>
      ∃ own below, M.Records start own below final ∧ own.result = result) kept result final) :
    ∃ below, M.Unfolds tree below result final := by
  induction tree generalizing kept with
  | fault cause => exact resolved.elim
  | exit outcome state =>
    obtain ⟨_, rfl, rfl⟩ := resolved
    exact ⟨[], .exit⟩
  | next value state =>
    obtain ⟨_, rfl, rfl⟩ := resolved
    exact ⟨[], .next⟩
  | enter child survives resume ih =>
    obtain ⟨_, _, _, _, ⟨stop, _, ⟨own, below, records, rfl⟩, rfl⟩, resumed, _⟩ := resolved
    obtain ⟨later, unfolds⟩ := ih _ _ resumed
    exact ⟨_, .enter records unfolds⟩

/-- Every finished loop has its records. -/
theorem Runs.records {start final : σ} {history : History σ ρ} {result : ρ}
    (ran : M.Runs start history result final) :
    ∃ own below, M.Records start own below final ∧ own.result = result := by
  refine Runs.induction (motive := fun start _ result final =>
    ∃ own below, M.Records start own below final ∧ own.result = result) ?_ ?_ ?_ ran
  · exact fun still => ⟨_, _, .idle still, rfl⟩
  · intro state kept result after steps resolved stopped
    obtain ⟨below, unfolds⟩ := unfolds_of_resolves resolved
    exact ⟨_, below, .stop steps.1 unfolds stopped, rfl⟩
  · intro state kept after later outcome final steps resolved rest
    obtain ⟨below, unfolds⟩ := unfolds_of_resolves resolved
    obtain ⟨own, others, records, same⟩ := rest
    exact ⟨_, _, .next steps.1 unfolds records, same⟩

section Logs

omit [DecidableEq ρ] in
/-- The records of a tree, given those of the frames that it opens. -/
def unfold (M : Machine σ ρ ε) (frame : σ → Outcome ε (Record σ ρ × List (Record σ ρ) × σ)) :
    Tree σ ρ ε Unit → Outcome ε (List (Record σ ρ) × ρ × σ)
  | .fault cause => .fault cause
  | .exit result state => .value ([], result, state)
  | .next _ state => .value ([], M.halt, state)
  | .enter child _ resume => do
    let (own, below, last) ← frame (M.opening child)
    let (later, outcome, final) ← M.unfold frame (resume own.result (M.closing last))
    return (own :: (below ++ later), outcome, final)

/-- The loop of one frame, bounded by fuel, with its own record and those of all frames below. -/
def log (M : Machine σ ρ ε) : Nat → σ → Outcome ε (Record σ ρ × List (Record σ ρ) × σ)
  | 0, _ => .outOfFuel
  | fuel + 1, state =>
    if M.running state then do
      let (below, result, after) ← M.unfold (M.log fuel) (M.step state)
      if result = M.halt then do
        let (own, later, final) ← M.log fuel after
        return (⟨⟨state, result, after⟩ :: own.steps, own.result⟩, below ++ later, final)
      else return (⟨[⟨state, result, after⟩], result⟩, below, after)
    else return (⟨[], M.halt⟩, [], state)

omit [DecidableEq ρ] in
theorem unfolds_of_unfold {frame : σ → Outcome ε (Record σ ρ × List (Record σ ρ) × σ)}
    (frames : ∀ {start own below final}, frame start = .value (own, below, final) →
      M.Records start own below final) {tree : Tree σ ρ ε Unit} {below : List (Record σ ρ)}
    {result : ρ} {final : σ} (ended : M.unfold frame tree = .value (below, result, final)) :
    M.Unfolds tree below result final := by
  induction tree generalizing below with
  | fault cause => cases ended
  | exit outcome state =>
    cases ended
    exact .exit
  | next value state =>
    cases ended
    exact .next
  | enter child survives resume ih =>
    obtain ⟨⟨own, inner, last⟩, ran, rest⟩ := Outcome.bind_eq_value ended
    obtain ⟨⟨later, outcome, state⟩, resumed, rest⟩ := Outcome.bind_eq_value rest
    cases rest
    exact .enter (frames ran) (ih _ _ resumed)

/-- What the bounded loop computes are the records. -/
theorem records_of_log {fuel : Nat} {start final : σ} {own : Record σ ρ} {below : List (Record σ ρ)}
    (ended : M.log fuel start = .value (own, below, final)) : M.Records start own below final := by
  induction fuel generalizing start own below final with
  | zero => cases ended
  | succ fuel ih =>
    rw [log] at ended
    by_cases running : M.running start = true
    · rw [if_pos running] at ended
      obtain ⟨⟨inner, result, after⟩, stepped, rest⟩ := Outcome.bind_eq_value ended
      have unfolds := unfolds_of_unfold ih stepped
      simp only at rest
      split at rest
      · -- The step halted, so the frame went on.
        rename_i halted
        subst halted
        obtain ⟨⟨own, later, last⟩, looped, rest⟩ := Outcome.bind_eq_value rest
        cases rest
        exact .next running unfolds (ih looped)
      · rename_i stopped
        cases rest
        exact .stop running unfolds stopped
    · rw [if_neg running] at ended
      cases ended
      exact .idle (Bool.eq_false_iff.mpr running)

end Logs

section FirstUses

variable {uses : Transition σ ρ → Bool} {known : σ → Bool}

/-- The transition uses something that was not known before it. -/
def usesFirst (uses : Transition σ ρ → Bool) (known : σ → Bool) (done : Transition σ ρ) : Bool :=
  uses done && !known done.before

/-- A frame that remembers what it has used uses it for the first time once, or never. -/
theorem Walks.countP_usesFirst {start : σ} {record : Record σ ρ} (walks : M.Walks start record)
    (halts : ∀ done, uses done = true → done.result = M.halt)
    (learns : ∀ {state kept after}, M.Steps state kept M.halt after →
      known after = (known state || uses ⟨state, M.halt, after⟩)) :
    record.steps.countP (usesFirst uses known) =
      if !known start && record.steps.any uses then 1 else 0 := by
  induction walks with
  | idle still => simp
  | @stop state kept result after steps stopped =>
    -- The last step of a frame counts only if the frame could go on after it.
    have unused : uses ⟨state, result, after⟩ = false := by
      apply Bool.eq_false_iff.mpr
      exact fun used => stopped (halts _ used)
    simp [usesFirst, unused]
  | @next state kept after own steps walks ih =>
    rw [List.countP_cons, ih, learns steps]
    cases before : known state <;> cases now : uses ⟨state, M.halt, after⟩ <;>
      simp [usesFirst, before, now]

/-- Frames that start out with no knowledge each have a first use of their own. -/
theorem Records.countP_usesFirst {start final : σ} {own : Record σ ρ} {below : List (Record σ ρ)}
    (records : M.Records start own below final)
    (halts : ∀ done, uses done = true → done.result = M.halt)
    (learns : ∀ {state kept after}, M.Steps state kept M.halt after →
      known after = (known state || uses ⟨state, M.halt, after⟩))
    (unknown : ∀ {state sofar child}, M.Opens state sofar child → known (M.opening child) = false)
    (blank : known start = false) :
    ((own :: below).flatMap Record.steps).countP (usesFirst uses known) =
      (own :: below).countP fun record => record.steps.any uses := by
  obtain ⟨_, walks, opened⟩ := records.sound
  have each : ∀ record ∈ own :: below, record.steps.countP (usesFirst uses known) =
      if record.steps.any uses then 1 else 0 := by
    rw [List.forall_mem_cons]
    constructor
    · rw [walks.countP_usesFirst halts learns, blank, Bool.not_false, Bool.true_and]
    · intro record member
      obtain ⟨state, sofar, child, opens, walks⟩ := opened record member
      rw [walks.countP_usesFirst halts learns, unknown opens, Bool.not_false, Bool.true_and]
  -- The frames are counted one by one.
  generalize own :: below = all at each ⊢
  induction all with
  | nil => rfl
  | cons record rest ih =>
    obtain ⟨here, there⟩ := List.forall_mem_cons.mp each
    rw [List.flatMap_cons, List.countP_append, List.countP_cons, here, ih there, Nat.add_comm]

end FirstUses

end Machine

end Frames
