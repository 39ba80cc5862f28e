import MiniEvm.Frames.Machine

/-! Rules for nested-frame machines: more fuel, run contracts, termination, and aborts. -/

namespace Frames

variable {σ ρ ε : Type}

/-- A tree that finished keeps its outcome when the nested runs keep theirs. -/
theorem Tree.resolve_mono (halt : ρ) {run wider : σ → Outcome ε (History σ ρ × ρ × σ)}
    (extends_ : ∀ child, run child ≠ .outOfFuel → wider child = run child)
    (tree : Tree σ ρ ε Unit) (finished : tree.resolve halt run ≠ .outOfFuel) :
    tree.resolve halt wider = tree.resolve halt run := by
  -- Only nested runs depend on the bound, and each of them finished.
  induction tree with
  | fault cause => rfl
  | exit result state => rfl
  | next value state => rfl
  | enter child survives resume ih =>
    simp only [resolve] at finished ⊢
    cases ran : run child with
    | outOfFuel => simp [ran] at finished
    | fault cause =>
      have same := extends_ child (by simp [ran])
      simp [same, ran]
    -- A finished nested run hands the same outcome to the resumed tree.
    | value ended =>
      have same := extends_ child (by simp [ran])
      rw [same, ran]
      simp only [Outcome.value_bind]
      rw [ih]
      intro stuck
      simp [ran, stuck] at finished

/-- What a tree inherits comes from the runs of the frames that it opened. -/
theorem Tree.mem_of_resolve {halt : ρ} {run : σ → Outcome ε (History σ ρ × ρ × σ)}
    {tree : Tree σ ρ ε Unit} {history : History σ ρ} {outcome : ρ} {final : σ}
    (ended : tree.resolve halt run = .value (history, outcome, final))
    {done : Transition σ ρ} (member : done ∈ history) :
    ∃ sofar child kept result last,
      tree.Enters (fun child kept result last => run child = .value (kept, result, last))
        sofar child ∧
      run child = .value (kept, result, last) ∧ done ∈ kept := by
  -- Ends of the tree inherit nothing, so the step came from this frame or from a later one.
  induction tree generalizing history outcome final with
  | fault cause => simp [resolve] at ended
  | exit result state =>
    simp only [resolve, Outcome.value.injEq, Prod.mk.injEq] at ended
    simp [← ended.1] at member
  | next value state =>
    simp only [resolve, Outcome.value.injEq, Prod.mk.injEq] at ended
    simp [← ended.1] at member
  | enter child survives resume ih =>
    obtain ⟨⟨kept, result, last⟩, ran, rest⟩ := Outcome.bind_eq_value ended
    obtain ⟨⟨later, inner, state⟩, resumed, rest⟩ := Outcome.bind_eq_value rest
    simp only [Outcome.pure_eq, Outcome.value.injEq, Prod.mk.injEq] at rest
    obtain ⟨rfl, rfl, rfl⟩ := rest
    rcases List.mem_append.mp member with here | there
    · refine ⟨[], child, kept, result, last, .inl ⟨rfl, rfl⟩, ran, ?_⟩
      -- Only a frame that survived hands anything on.
      cases survived : survives result last with
      | true => simpa [survived] using here
      | false => simp [survived] at here
    · obtain ⟨sofar, opened, past, answer, stop, enters, again, found⟩ := ih _ _ resumed there
      exact ⟨_, opened, past, answer, stop,
        .inr ⟨kept, result, last, sofar, ran, enters, rfl⟩, again, found⟩

namespace Machine

variable [DecidableEq ρ] (M : Machine σ ρ ε)

omit [DecidableEq ρ] in
/-- A nested frame that finished keeps its outcome when the loop keeps its own. -/
theorem nested_mono {loop wider : σ → Outcome ε (History σ ρ × ρ × σ)}
    (extends_ : ∀ state, loop state ≠ .outOfFuel → wider state = loop state)
    (child : σ) (finished : M.nested loop child ≠ .outOfFuel) :
    M.nested wider child = M.nested loop child := by
  -- Neither the opening nor the closing of a frame uses fuel.
  unfold nested at finished ⊢
  rw [extends_ (M.opening child)]
  intro stuck
  simp [stuck] at finished

/-- One more unit of fuel never changes a finished loop. -/
theorem trace_succ_of_finished (fuel : Nat) :
    ∀ state, M.trace fuel state ≠ .outOfFuel → M.trace (fuel + 1) state = M.trace fuel state := by
  -- The frames below a step run on the fuel of the induction hypothesis.
  induction fuel with
  | zero => intro state finished; exact absurd rfl finished
  | succ fuel ih =>
    intro state finished
    rw [trace] at finished
    rw [trace, trace]
    by_cases running : M.running state = true
    · simp only [running, if_true] at finished ⊢
      -- The step resolves alike under both bounds, and so does the rest of the loop.
      have resolved := (M.step state).resolve_mono M.halt
        (fun child => M.nested_mono ih child)
        (fun stuck => by simp [stuck] at finished)
      rw [resolved]
      cases step : (M.step state).resolve M.halt (M.nested (M.trace fuel)) with
      | outOfFuel => rfl
      | fault cause => rfl
      | value ended =>
        obtain ⟨kept, result, after⟩ := ended
        simp only [step, Outcome.value_bind] at finished ⊢
        split at finished
        · -- The loop went on, again on the fuel of the induction hypothesis.
          rename_i halted
          simp only [halted, if_true]
          rw [ih after]
          intro stuck
          simp [stuck] at finished
        · rename_i stopped
          simp only [stopped, if_false]
    · simp [running]

/-- Any larger bound gives the same outcome once a loop has finished. -/
theorem trace_mono {fuel more : Nat} (le : fuel ≤ more) (state : σ)
    (finished : M.trace fuel state ≠ .outOfFuel) : M.trace more state = M.trace fuel state := by
  induction le with
  | refl => rfl
  | @step larger _ ih =>
    have finished' : M.trace larger state ≠ .outOfFuel := by rw [ih]; exact finished
    rw [M.trace_succ_of_finished larger state finished', ih]

omit [DecidableEq ρ] in
/-- A finished nested frame closes the state in which its loop finished. -/
theorem nested_eq_value {loop : σ → Outcome ε (History σ ρ × ρ × σ)} {child last : σ}
    {kept : History σ ρ} {result : ρ} (ran : M.nested loop child = .value (kept, result, last)) :
    ∃ stop, loop (M.opening child) = .value (kept, result, stop) ∧ last = M.closing stop := by
  obtain ⟨⟨history, outcome, stop⟩, looped, rest⟩ := Outcome.bind_eq_value ran
  simp only [Outcome.pure_eq, Outcome.value.injEq, Prod.mk.injEq] at rest
  obtain ⟨rfl, rfl, rfl⟩ := rest
  exact ⟨stop, looped, rfl⟩

/-- Nested frames of a bounded run are nested runs. -/
theorem runsNested_of_nested {fuel : Nat} {child : σ} {kept : History σ ρ} {result : ρ} {last : σ}
    (ran : M.nested (M.trace fuel) child = .value (kept, result, last)) :
    M.RunsNested child kept result last := by
  obtain ⟨stop, looped, closed⟩ := M.nested_eq_value ran
  exact ⟨stop, ⟨fuel, looped⟩, closed⟩

/-- A resolved step of a bounded run is a step with its nested runs. -/
theorem steps_of_resolve {fuel : Nat} {state after : σ} {kept : History σ ρ} {result : ρ}
    (running : M.running state = true)
    (resolved : (M.step state).resolve M.halt (M.nested (M.trace fuel)) =
      .value (kept, result, after)) : M.Steps state kept result after :=
  ⟨running, Tree.resolves_of_resolve M.runsNested_of_nested
    (fun _ => M.runsNested_of_nested) resolved⟩

/-- A finished loop stood still, or resolved its first step, which ended it or led on. -/
theorem trace_split {fuel : Nat} {state final : σ} {history : History σ ρ} {outcome : ρ}
    (ended : M.trace (fuel + 1) state = .value (history, outcome, final)) :
    (M.running state = false ∧ history = [] ∧ outcome = M.halt ∧ final = state) ∨
      (M.running state = true ∧ ∃ kept,
        (M.step state).resolve M.halt (M.nested (M.trace fuel)) = .value (kept, outcome, final) ∧
          outcome ≠ M.halt ∧ history = kept ++ [⟨state, outcome, final⟩]) ∨
      M.running state = true ∧ ∃ kept after later,
        (M.step state).resolve M.halt (M.nested (M.trace fuel)) = .value (kept, M.halt, after) ∧
          M.trace fuel after = .value (later, outcome, final) ∧
          history = (kept ++ [⟨state, M.halt, after⟩]) ++ later := by
  rw [trace] at ended
  by_cases running : M.running state = true
  · simp only [running, if_true] at ended
    obtain ⟨⟨kept, result, after⟩, resolved, rest⟩ := Outcome.bind_eq_value ended
    simp only at rest
    split at rest
    · -- The step halted, so the loop went on from the state it left.
      rename_i halted
      subst halted
      obtain ⟨⟨later, inner, last⟩, looped, rest⟩ := Outcome.bind_eq_value rest
      simp only [Outcome.pure_eq, Outcome.value.injEq, Prod.mk.injEq] at rest
      obtain ⟨rfl, rfl, rfl⟩ := rest
      exact .inr (.inr ⟨running, kept, after, later, resolved, looped, rfl⟩)
    · rename_i stopped
      simp only [Outcome.pure_eq, Outcome.value.injEq, Prod.mk.injEq] at rest
      obtain ⟨rfl, rfl, rfl⟩ := rest
      exact .inr (.inl ⟨running, kept, resolved, stopped, rfl⟩)
  · simp only [running, Bool.false_eq_true, if_false, Outcome.pure_eq, Outcome.value.injEq,
      Prod.mk.injEq] at ended
    exact .inl ⟨by simpa using running, ended.1.symm, ended.2.1.symm, ended.2.2.symm⟩

/-- The same, with the nested runs of the first step behind it. -/
theorem trace_cases {fuel : Nat} {state final : σ} {history : History σ ρ} {outcome : ρ}
    (ended : M.trace (fuel + 1) state = .value (history, outcome, final)) :
    (M.running state = false ∧ history = [] ∧ outcome = M.halt ∧ final = state) ∨
      (∃ kept, M.Steps state kept outcome final ∧ outcome ≠ M.halt ∧
        history = kept ++ [⟨state, outcome, final⟩]) ∨
      ∃ kept after later, M.Steps state kept M.halt after ∧
        M.trace fuel after = .value (later, outcome, final) ∧
        history = (kept ++ [⟨state, M.halt, after⟩]) ++ later := by
  rcases M.trace_split ended with idle | ⟨running, kept, resolved, stopped, rfl⟩ |
    ⟨running, kept, after, later, resolved, looped, rfl⟩
  · exact .inl idle
  · exact .inr (.inl ⟨kept, M.steps_of_resolve running resolved, stopped, rfl⟩)
  · exact .inr (.inr ⟨kept, after, later, M.steps_of_resolve running resolved, looped, rfl⟩)

/-- A loop that has nothing to run stands still. -/
theorem trace_of_idle {state : σ} (idle : M.running state = false) (fuel : Nat) :
    M.trace (fuel + 1) state = .value ([], M.halt, state) := by
  simp [trace, idle]

/-- A loop goes on from the state that a halting step leaves. -/
theorem trace_of_step {fuel : Nat} {state after final : σ} {kept later : History σ ρ} {outcome : ρ}
    (running : M.running state = true)
    (resolved : (M.step state).resolve M.halt (M.nested (M.trace fuel)) =
      .value (kept, M.halt, after))
    (looped : M.trace fuel after = .value (later, outcome, final)) :
    M.trace (fuel + 1) state =
      .value ((kept ++ [⟨state, M.halt, after⟩]) ++ later, outcome, final) := by
  rw [trace]
  simp only [running, if_true, resolved, looped, Outcome.value_bind, Outcome.pure_eq]

/-- A loop that ends with a halt has nothing left to run. -/
theorem running_of_halt {fuel : Nat} {state final : σ} {history : History σ ρ}
    (ended : M.trace fuel state = .value (history, M.halt, final)) : M.running final = false := by
  -- A step that ended the frame gave another result, so only the loop's own test is left.
  induction fuel generalizing state history with
  | zero => simp [trace] at ended
  | succ fuel ih =>
    rcases M.trace_cases ended with ⟨idle, _, _, rfl⟩ | ⟨_, _, stopped, _⟩ |
      ⟨_, after, later, _, looped, _⟩
    · exact idle
    · exact absurd rfl stopped
    · exact ih looped

/-- Visited states compose along the frames they were visited from. -/
theorem Reaches.trans {M : Machine σ ρ ε} {start middle final : σ} {before after : History σ ρ}
    (first : M.Reaches start before middle) (second : M.Reaches middle after final) :
    M.Reaches start (before ++ after) final := by
  -- The second run is replayed on top of the first.
  induction second with
  | refl => simpa using first
  | step _ steps ih => rw [← List.append_assoc]; exact .step ih steps
  | enter _ opens ih => rw [← List.append_assoc]; exact .enter ih opens

/-- What is visited from a visited state is visited. -/
theorem Visits.after {M : Machine σ ρ ε} {start middle final : σ} {before after : History σ ρ}
    (first : M.Reaches start before middle) (second : M.Visits middle after final) :
    M.Visits start (before ++ after) final := by
  rcases second with reaches | ⟨past, last, kept, result, reaches, steps, rfl⟩
  · exact .inl (first.trans reaches)
  · exact .inr ⟨before ++ past, last, kept, result, first.trans reaches, steps,
      (List.append_assoc _ _ _).symm⟩

/-- A run ends in a state that it visits. -/
theorem visits_of_runs {M : Machine σ ρ ε} {state final : σ} {history : History σ ρ} {outcome : ρ}
    (ran : M.Runs state history outcome final) : M.Visits state history final := by
  obtain ⟨fuel, ended⟩ := ran
  -- The last state is the one where the loop stood still or where a step ended it.
  induction fuel generalizing state history with
  | zero => simp [trace] at ended
  | succ fuel ih =>
    rcases M.trace_cases ended with ⟨_, rfl, _, rfl⟩ | ⟨kept, steps, _, rfl⟩ |
      ⟨kept, after, later, steps, looped, rfl⟩
    · exact .inl .refl
    · exact .inr ⟨[], state, kept, outcome, .refl, steps, rfl⟩
    · have first : M.Reaches state ([] ++ (kept ++ [⟨state, M.halt, after⟩])) after :=
        .step .refl steps
      rw [List.nil_append] at first
      exact Visits.after first (ih looped)

/-- A run that did not end with a halt ended with a step that gave its result. -/
theorem Runs.last_step {M : Machine σ ρ ε} {state final : σ} {history : History σ ρ} {outcome : ρ}
    (ran : M.Runs state history outcome final) (stopped : outcome ≠ M.halt) :
    ∃ past before kept, M.Reaches state past before ∧ M.Steps before kept outcome final := by
  obtain ⟨fuel, ended⟩ := ran
  induction fuel generalizing state history with
  | zero => simp [trace] at ended
  | succ fuel ih =>
    rcases M.trace_cases ended with ⟨_, _, halted, _⟩ | ⟨kept, steps, _, _⟩ |
      ⟨kept, after, later, steps, looped, _⟩
    · exact absurd halted stopped
    · exact ⟨[], state, kept, .refl, steps⟩
    · -- The last step of the rest of the loop is the last one of all.
      obtain ⟨past, before, kept', reaches, last⟩ := ih looped
      have first : M.Reaches state ([] ++ (kept ++ [⟨state, M.halt, after⟩])) after :=
        .step .refl steps
      exact ⟨_, before, kept', first.trans reaches, last⟩

/-- Every step in the history of a run was taken in a state that the run visited. -/
theorem reaches_of_mem {M : Machine σ ρ ε} {fuel : Nat} {start final : σ}
    {history : History σ ρ} {outcome : ρ}
    (ended : M.trace fuel start = .value (history, outcome, final))
    {done : Transition σ ρ} (member : done ∈ history) :
    ∃ past, M.Reaches start past done.before := by
  -- Fuel bounds the loop and the frames below it alike.
  induction fuel generalizing start history outcome final with
  | zero => simp [trace] at ended
  | succ fuel ih =>
    -- The step itself was taken here, and what it inherited was taken in a frame it opened.
    have first : ∀ {kept result after}, M.running start = true →
        (M.step start).resolve M.halt (M.nested (M.trace fuel)) = .value (kept, result, after) →
        done ∈ kept ++ [⟨start, result, after⟩] → ∃ past, M.Reaches start past done.before := by
      intro kept result after running resolved listed
      rcases List.mem_append.mp listed with inherited | own
      · obtain ⟨sofar, child, past, answer, last, enters, ran, found⟩ :=
          Tree.mem_of_resolve resolved inherited
        obtain ⟨stop, looped, _⟩ := M.nested_eq_value ran
        obtain ⟨seen, reaches⟩ := ih looped found
        have opens : M.Opens start sofar child :=
          ⟨running, enters.mono fun _ ended => M.runsNested_of_nested ended⟩
        exact ⟨_, (Reaches.enter .refl opens).trans reaches⟩
      · obtain rfl := List.mem_singleton.mp own
        exact ⟨[], .refl⟩
    rcases M.trace_split ended with ⟨_, rfl, _⟩ | ⟨running, kept, resolved, _, rfl⟩ |
      ⟨running, kept, after, later, resolved, looped, rfl⟩
    · cases member
    · exact first running resolved member
    · rcases List.mem_append.mp member with here | there
      · exact first running resolved here
      · obtain ⟨seen, reaches⟩ := ih looped there
        exact ⟨_, (Reaches.step .refl (M.steps_of_resolve running resolved)).trans reaches⟩

/-- A nested run whose loop has a property. -/
def Nests (motive : σ → History σ ρ → ρ → σ → Prop) (child : σ) (history : History σ ρ)
    (result : ρ) (final : σ) : Prop :=
  ∃ last, M.Runs (M.opening child) history result last ∧
    motive (M.opening child) history result last ∧ final = M.closing last

/--
The induction rule for finished loops.

A loop stood still, or stopped at its first step, or went on from it; the frames that the step
opened and the rest of the loop have the property already.
-/
theorem Runs.induction {M : Machine σ ρ ε} {motive : σ → History σ ρ → ρ → σ → Prop}
    (idle : ∀ {state}, M.running state = false → motive state [] M.halt state)
    (stop : ∀ {state kept result after}, M.Steps state kept result after →
      (M.step state).Resolves M.halt (M.Nests motive) kept result after → result ≠ M.halt →
      motive state (kept ++ [⟨state, result, after⟩]) result after)
    (next : ∀ {state kept after later outcome final}, M.Steps state kept M.halt after →
      (M.step state).Resolves M.halt (M.Nests motive) kept M.halt after →
      motive after later outcome final →
      motive state ((kept ++ [⟨state, M.halt, after⟩]) ++ later) outcome final)
    {state final : σ} {history : History σ ρ} {outcome : ρ}
    (ran : M.Runs state history outcome final) : motive state history outcome final := by
  obtain ⟨fuel, ended⟩ := ran
  -- Fuel bounds both the length of the loop and the depth of the frames below it.
  induction fuel generalizing state history outcome final with
  | zero => simp [trace] at ended
  | succ fuel ih =>
    -- Nested frames ran on less fuel.
    have below : ∀ {kept result after},
        (M.step state).resolve M.halt (M.nested (M.trace fuel)) = .value (kept, result, after) →
        (M.step state).Resolves M.halt (M.Nests motive) kept result after := by
      intro kept result after resolved
      refine Tree.resolves_of_resolve M.runsNested_of_nested ?_ resolved
      intro sofar child history outcome last _ nested
      obtain ⟨stop, looped, rfl⟩ := M.nested_eq_value nested
      exact ⟨stop, ⟨fuel, looped⟩, ih looped, rfl⟩
    rcases M.trace_split ended with ⟨still, rfl, rfl, rfl⟩ |
      ⟨running, kept, resolved, stopped, rfl⟩ |
      ⟨running, kept, after, later, resolved, looped, rfl⟩
    · exact idle still
    · exact stop (M.steps_of_resolve running resolved) (below resolved) stopped
    · exact next (M.steps_of_resolve running resolved) (below resolved) (ih looped)

/-- A nested run whose loop keeps a relation between its first and its last state. -/
def Within (relation : History σ ρ → σ → σ → Prop) (child : σ) (history : History σ ρ)
    (result : ρ) (final : σ) : Prop :=
  ∃ last, M.Runs (M.opening child) history result last ∧
    relation history (M.opening child) last ∧ final = M.closing last

section Openings

variable {M : Machine σ ρ ε} {relation : History σ ρ → σ → σ → Prop} {state : σ}

/-- Frames that keep a relation are nested runs above all. -/
theorem Within.runsNested {child final : σ} {history : History σ ρ} {result : ρ}
    (within : M.Within relation child history result final) :
    M.RunsNested child history result final := by
  obtain ⟨stop, ran, _, rfl⟩ := within
  exact ⟨stop, ran, rfl⟩

/-- So are frames whose loop has a property. -/
theorem Nests.runsNested {motive : σ → History σ ρ → ρ → σ → Prop} {child final : σ}
    {history : History σ ρ} {result : ρ} (nests : M.Nests motive child history result final) :
    M.RunsNested child history result final := by
  obtain ⟨stop, ran, _, rfl⟩ := nests
  exact ⟨stop, ran, rfl⟩

/-- The frames that a step enters are frames that it opens. -/
theorem opens_of_enters {sofar : History σ ρ} {child : σ} (running : M.running state = true)
    (enters : (M.step state).Enters (M.Within relation) sofar child) :
    M.Opens state sofar child :=
  ⟨running, enters.mono fun _ within => within.runsNested⟩

/-- A step resolves through the frames that it opens, whatever is known about their runs. -/
theorem resolves_opened {nested : σ → History σ ρ → ρ → σ → Prop} {after : σ}
    {kept : History σ ρ} {result : ρ} (running : M.running state = true)
    (runs : ∀ {child history outcome final}, nested child history outcome final →
      M.RunsNested child history outcome final)
    (resolved : (M.step state).Resolves M.halt nested kept result after) :
    (M.step state).Resolves M.halt (fun child history outcome final =>
      (∃ sofar, M.Opens state sofar child) ∧ nested child history outcome final)
      kept result after :=
  resolved.mono fun enters ran => ⟨⟨_, running, enters.mono fun _ ran => runs ran⟩, ran⟩

/-- A tree resolves through the frames that its step opens, and through no others. -/
theorem resolves_within_opened {after : σ} {kept : History σ ρ} {result : ρ}
    (running : M.running state = true)
    (resolved : (M.step state).Resolves M.halt (M.Within relation) kept result after) :
    (M.step state).Resolves M.halt (fun child history outcome final =>
      (∃ sofar, M.Opens state sofar child) ∧ M.Within relation child history outcome final)
      kept result after :=
  resolves_opened running Within.runsNested resolved

/-- Frames that keep a relation under a condition keep it where every visited state meets it. -/
theorem within_of_nests {allowed : σ → Prop} {after : σ} {kept : History σ ρ} {result : ρ}
    (meets : ∀ visited reached, M.Reaches state visited reached → M.running reached = true →
      allowed reached) (running : M.running state = true)
    (nested : (M.step state).Resolves M.halt (M.Nests fun start history _ final =>
      (∀ visited reached, M.Reaches start visited reached → M.running reached = true →
        allowed reached) → relation history start final) kept result after) :
    (M.step state).Resolves M.halt (M.Within relation) kept result after := by
  refine nested.mono fun enters nests => ?_
  obtain ⟨stop, ran, relates, rfl⟩ := nests
  refine ⟨stop, ran, relates ?_, rfl⟩
  -- Whatever the frame visits is visited from its opener too.
  have opens : M.Opens state _ _ := ⟨running, enters.mono fun _ nests => nests.runsNested⟩
  intro seen reached reaches
  exact meets _ reached ((Reaches.enter .refl opens).trans reaches)

end Openings

/--
The rule for invariants that depend on what has happened so far.

A step may rely on a condition on its state and the past, and on the frame below it keeping the
invariant.
-/
theorem Runs.invariant {M : Machine σ ρ ε} (holds allowed : History σ ρ → σ → Prop)
    (step : ∀ {past state kept result after}, M.running state = true → allowed past state →
      holds past state →
      (M.step state).Resolves M.halt (fun child history outcome final =>
        ∃ sofar last, M.Opens state sofar child ∧ M.Runs (M.opening child) history outcome last ∧
          (holds (past ++ sofar) (M.opening child) → holds (past ++ sofar ++ history) last) ∧
          final = M.closing last) kept result after →
      holds (past ++ (kept ++ [⟨state, result, after⟩])) after)
    {state final : σ} {history : History σ ρ} {outcome : ρ}
    (ran : M.Runs state history outcome final) : ∀ past,
      (∀ visited reached, M.Reaches state visited reached → M.running reached = true →
        allowed (past ++ visited) reached) →
      holds past state → holds (past ++ history) final := by
  -- The frames below look back on the same past.
  have below : ∀ {past state kept result after}, M.running state = true →
      (∀ visited reached, M.Reaches state visited reached → M.running reached = true →
        allowed (past ++ visited) reached) →
      (M.step state).Resolves M.halt (M.Nests fun start history _ final => ∀ past,
        (∀ visited reached, M.Reaches start visited reached → M.running reached = true →
          allowed (past ++ visited) reached) →
        holds past start → holds (past ++ history) final) kept result after →
      (M.step state).Resolves M.halt (fun child history outcome final =>
        ∃ sofar last, M.Opens state sofar child ∧ M.Runs (M.opening child) history outcome last ∧
          (holds (past ++ sofar) (M.opening child) → holds (past ++ sofar ++ history) last) ∧
          final = M.closing last) kept result after := by
    intro past state kept result after running meets nested
    refine nested.mono fun enters nests => ?_
    obtain ⟨stop, ran, keeps, rfl⟩ := nests
    have opens : M.Opens state _ _ := ⟨running, enters.mono fun _ nests => nests.runsNested⟩
    refine ⟨_, stop, opens, ran, keeps _ ?_, rfl⟩
    intro visited reached reaches
    rw [List.append_assoc]
    exact meets _ reached ((Reaches.enter .refl opens).trans reaches)
  refine Runs.induction (motive := fun state history _ final => ∀ past,
    (∀ visited reached, M.Reaches state visited reached → M.running reached = true →
      allowed (past ++ visited) reached) →
    holds past state → holds (past ++ history) final) ?_ ?_ ?_ ran
  · intro state _ past _ held
    rwa [List.append_nil]
  · intro state kept result after steps nested _ past meets held
    have allowedHere := meets _ state .refl steps.1
    rw [List.append_nil] at allowedHere
    exact step steps.1 allowedHere held (below steps.1 meets nested)
  · intro state kept after later outcome final steps nested rest past meets held
    have allowedHere := meets _ state .refl steps.1
    rw [List.append_nil] at allowedHere
    rw [← List.append_assoc]
    refine rest _ ?_ (step steps.1 allowedHere held (below steps.1 meets nested))
    intro visited reached reaches
    rw [List.append_assoc]
    exact meets _ reached ((Reaches.step .refl steps).trans reaches)

section Contract

variable {M : Machine σ ρ ε} (relation : History σ ρ → σ → σ → Prop) (allowed : σ → Prop)

-- The relation composes along the loop of a frame.
variable (refl : ∀ state, relation [] state state)
  (trans : ∀ {first second start middle final}, relation first start middle →
    relation second middle final → relation (first ++ second) start final)

-- One step of an allowed state keeps the relation as soon as the frames below it do.
variable (step : ∀ {state kept result after}, M.running state = true → allowed state →
    (M.step state).Resolves M.halt (M.Within relation) kept result after →
    relation (kept ++ [⟨state, result, after⟩]) state after)

include refl trans step

/--
The rule for recursive frames.

A relation that composes, and that one step keeps as soon as the frames below it keep it, relates
the two ends of every loop.
The steps may rely on a condition that every visited state meets.
-/
theorem trace_relates (fuel : Nat) :
    ∀ {state history outcome final},
      (∀ visited reached, M.Reaches state visited reached → M.running reached = true →
        allowed reached) →
      M.trace fuel state = .value (history, outcome, final) → relation history state final := by
  intro state history outcome final meets ended
  revert meets
  refine Runs.induction (motive := fun state history _ final =>
    (∀ visited reached, M.Reaches state visited reached → M.running reached = true →
      allowed reached) → relation history state final) ?_ ?_ ?_ ⟨fuel, ended⟩
  · exact fun _ _ => refl _
  · intro state kept result after steps nested _ meets
    exact step steps.1 (meets _ state .refl steps.1) (within_of_nests meets steps.1 nested)
  · -- The relation of the rest of the loop is appended to that of the step.
    intro state kept after later outcome final steps nested rest meets
    refine trans (step steps.1 (meets _ state .refl steps.1) (within_of_nests meets steps.1 nested))
      (rest ?_)
    intro seen reached reaches
    exact meets _ reached ((Reaches.step .refl steps).trans reaches)

variable {start : σ}
  (meets : ∀ visited reached, M.Reaches start visited reached → M.running reached = true →
    allowed reached)

include meets

/-- A frame that a visited state opens keeps the relation from its first state to its last. -/
theorem within_of_opened {seen : History σ ρ} {state : σ} (visited : M.Reaches start seen state)
    (running : M.running state = true) {sofar kept : History σ ρ} {child last : σ} {result : ρ}
    (enters : (M.step state).Enters M.RunsNested sofar child)
    (ran : M.RunsNested child kept result last) : M.Within relation child kept result last := by
  -- The frame ran to its end, so the rule for loops applies to it.
  obtain ⟨stop, ⟨fuel, looped⟩, rfl⟩ := ran
  refine ⟨stop, ⟨fuel, looped⟩,
    trace_relates relation allowed refl trans step fuel ?_ looped, rfl⟩
  -- Whatever the frame visits is visited from the start too.
  intro past reached reaches
  exact meets _ reached ((Reaches.enter visited ⟨running, enters⟩).trans reaches)

variable (enter : ∀ {state kept child}, M.running state = true → allowed state →
    (M.step state).Enters (M.Within relation) kept child →
    relation kept state (M.opening child))

include enter

/-- The same rule for every state a run visits, once opening a frame keeps the relation too. -/
theorem reaches_relates {final : σ} {history : History σ ρ}
    (reaches : M.Reaches start history final) : relation history start final := by
  -- Each visited state adds one step or one opening to the relation of the state before it.
  induction reaches with
  | refl => exact refl start
  | step visited steps ih =>
    refine trans ih (step steps.1 (meets _ _ visited steps.1) ?_)
    exact steps.2.mono (within_of_opened relation allowed refl trans step meets visited steps.1)
  | enter visited opens ih =>
    refine trans ih (enter opens.1 (meets _ _ visited opens.1) ?_)
    exact opens.2.mono (within_of_opened relation allowed refl trans step meets visited opens.1)

/-- The same rule for the states in which steps ended their frames as well. -/
theorem visits_relates {final : σ} {history : History σ ρ}
    (visits : M.Visits start history final) : relation history start final := by
  rcases visits with reaches | ⟨past, before, kept, result, reaches, steps, rfl⟩
  · exact reaches_relates relation allowed refl trans step meets enter reaches
  · -- The last step ended its frame, so it is appended by hand.
    apply trans (reaches_relates relation allowed refl trans step meets enter reaches)
    apply step steps.1 (meets _ _ reaches steps.1)
    exact steps.2.mono (within_of_opened relation allowed refl trans step meets reaches steps.1)

end Contract

/-- With enough fuel a tree resolves as soon as the loops of the frames it opens finish. -/
theorem resolve_finishes (tree : Tree σ ρ ε Unit)
    (opened : ∀ {sofar child}, tree.Enters M.RunsNested sofar child →
      ∃ fuel, M.trace fuel (M.opening child) ≠ .outOfFuel) :
    ∃ fuel, tree.resolve M.halt (M.nested (M.trace fuel)) ≠ .outOfFuel := by
  -- Each nested frame brings a bound of its own, and there are finitely many on every path.
  induction tree with
  | fault cause => exact ⟨0, by simp [Tree.resolve]⟩
  | exit result state => exact ⟨0, by simp [Tree.resolve]⟩
  | next value state => exact ⟨0, by simp [Tree.resolve]⟩
  | enter child survives resume ih =>
    obtain ⟨first, finished⟩ := opened (.inl ⟨rfl, rfl⟩)
    cases looped : M.trace first (M.opening child) with
    | outOfFuel => exact absurd looped finished
    | fault cause => exact ⟨first, by simp [Tree.resolve, nested, looped]⟩
    | value ended =>
      obtain ⟨kept, result, last⟩ := ended
      have ran : M.RunsNested child kept result (M.closing last) := ⟨last, ⟨first, looped⟩, rfl⟩
      -- What is opened after the frame is opened by the whole tree.
      obtain ⟨second, resumed⟩ := ih result (M.closing last) (fun enters =>
        opened (.inr ⟨kept, result, _, _, ran, enters, rfl⟩))
      -- The larger of the two bounds serves both the nested frame and what follows it.
      have loop' := M.trace_mono (Nat.le_max_left first second) (M.opening child) finished
      have resume' := (resume result (M.closing last)).resolve_mono M.halt
        (fun child => M.nested_mono
          (fun state => M.trace_mono (Nat.le_max_right first second) state) child) resumed
      refine ⟨max first second, ?_⟩
      simp only [Tree.resolve, nested, loop', looped, Outcome.value_bind, Outcome.pure_eq]
      intro stuck
      cases ended : (resume result (M.closing last)).resolve M.halt
          (M.nested (M.trace (max first second))) with
      | outOfFuel => exact resumed (resume'.symm.trans ended)
      | fault cause => simp [ended] at stuck
      | value ended => simp [ended] at stuck

/--
Termination of the whole tree of frames.

Every halting step and every opened frame must lower one well-founded measure.
-/
theorem terminates {ι : Type} {less : ι → ι → Prop} (wellFounded : WellFounded less)
    (measure : σ → ι)
    (steps : ∀ {state kept after}, M.Steps state kept M.halt after →
      less (measure after) (measure state))
    (opens : ∀ {state kept child}, M.Opens state kept child →
      less (measure (M.opening child)) (measure state)) :
    ∀ state, ∃ fuel, M.trace fuel state ≠ .outOfFuel := by
  -- A lower measure covers both the rest of the loop and every frame below the step.
  intro state
  induction state using (InvImage.wf measure wellFounded).induction with
  | _ state ih =>
    by_cases running : M.running state = true
    · obtain ⟨first, resolved⟩ := M.resolve_finishes (M.step state)
        (fun enters => ih _ (opens ⟨running, enters⟩))
      cases step : (M.step state).resolve M.halt (M.nested (M.trace first)) with
      | outOfFuel => exact absurd step resolved
      -- An abort ends the loop as well.
      | fault cause => exact ⟨first + 1, by simp [trace, running, step]⟩
      | value ended =>
        obtain ⟨kept, result, after⟩ := ended
        by_cases halted : result = M.halt
        · subst halted
          obtain ⟨second, finished⟩ := ih after (steps (M.steps_of_resolve running step))
          -- Both halves finish under the larger of their bounds.
          have step' := (M.step state).resolve_mono M.halt
            (fun child => M.nested_mono
              (fun state => M.trace_mono (Nat.le_max_left first second) state) child) resolved
          have rest' := M.trace_mono (Nat.le_max_right first second) after finished
          refine ⟨max first second + 1, ?_⟩
          simp only [trace, running, if_true, step', step, Outcome.value_bind, rest']
          cases ended : M.trace second after with
          | outOfFuel => exact absurd ended finished
          | fault cause => simp
          | value ended => simp
        · exact ⟨first + 1, by simp [trace, running, step, halted]⟩
    · exact ⟨1, by simp [trace, running]⟩

/-- A nested run is what every large enough bound computes. -/
theorem nested_of_runsNested {child final : σ} {history : History σ ρ} {result : ρ}
    (ran : M.RunsNested child history result final) :
    ∃ fuel, ∀ more, fuel ≤ more →
      M.nested (M.trace more) child = .value (history, result, final) := by
  obtain ⟨last, ⟨fuel, looped⟩, rfl⟩ := ran
  refine ⟨fuel, fun more le => ?_⟩
  have same := M.trace_mono le (M.opening child) (by simp [looped])
  simp only [nested, same, looped, Outcome.value_bind, Outcome.pure_eq]

/-- The relational reading of a tree is what every large enough bound computes. -/
theorem resolve_of_resolves {tree : Tree σ ρ ε Unit} {history : History σ ρ} {result : ρ}
    {final : σ} (ended : tree.Resolves M.halt M.RunsNested history result final) :
    ∃ fuel, ∀ more, fuel ≤ more →
      tree.resolve M.halt (M.nested (M.trace more)) = .value (history, result, final) := by
  -- The bounds of the nested runs add up to their maximum.
  induction tree generalizing history with
  | fault cause => exact ended.elim
  | exit outcome state =>
    obtain ⟨rfl, rfl, rfl⟩ := ended
    exact ⟨0, fun _ _ => rfl⟩
  | next value state =>
    obtain ⟨rfl, rfl, rfl⟩ := ended
    exact ⟨0, fun _ _ => rfl⟩
  | enter child survives resume ih =>
    obtain ⟨kept, outcome, last, later, ran, resumed, rfl⟩ := ended
    obtain ⟨first, nested⟩ := M.nested_of_runsNested ran
    obtain ⟨second, rest⟩ := ih outcome last resumed
    refine ⟨max first second, fun more le => ?_⟩
    simp only [Tree.resolve, nested more (by omega), rest more (by omega), Outcome.value_bind,
      Outcome.pure_eq]

/-- A loop comes to one end only. -/
theorem Runs.unique {M : Machine σ ρ ε} {state final final' : σ} {history history' : History σ ρ}
    {result result' : ρ} (one : M.Runs state history result final)
    (other : M.Runs state history' result' final') :
    history = history' ∧ result = result' ∧ final = final' := by
  obtain ⟨fuel, ran⟩ := one
  obtain ⟨fuel', ran'⟩ := other
  -- Both bounds agree with any larger one, and so with each other.
  have left := M.trace_mono (Nat.le_max_left fuel fuel') state (by simp [ran])
  have right := M.trace_mono (Nat.le_max_right fuel fuel') state (by simp [ran'])
  rw [left, ran, ran'] at right
  simpa using right

theorem RunsNested.unique {M : Machine σ ρ ε} {child final final' : σ}
    {history history' : History σ ρ} {result result' : ρ}
    (one : M.RunsNested child history result final)
    (other : M.RunsNested child history' result' final') :
    history = history' ∧ result = result' ∧ final = final' := by
  obtain ⟨last, ran, rfl⟩ := one
  obtain ⟨last', ran', rfl⟩ := other
  obtain ⟨rfl, rfl, rfl⟩ := ran.unique ran'
  exact ⟨rfl, rfl, rfl⟩

/-- A step comes to one end only. -/
theorem Steps.unique {M : Machine σ ρ ε} {state after after' : σ} {kept kept' : History σ ρ}
    {result result' : ρ} (one : M.Steps state kept result after)
    (other : M.Steps state kept' result' after') :
    kept = kept' ∧ result = result' ∧ after = after' := by
  obtain ⟨fuel, left⟩ := M.resolve_of_resolves one.2
  obtain ⟨fuel', right⟩ := M.resolve_of_resolves other.2
  -- A bound that is large enough for both computes both.
  have same := (left _ (Nat.le_max_left fuel fuel')).symm.trans
    (right _ (Nat.le_max_right fuel fuel'))
  simpa using same

/-- A finished loop that had something to run took a first step. -/
theorem Runs.first {M : Machine σ ρ ε} {state final : σ} {history : History σ ρ} {outcome : ρ}
    (ran : M.Runs state history outcome final) (running : M.running state = true) :
    ∃ kept result after, M.Steps state kept result after := by
  obtain ⟨fuel, ended⟩ := ran
  cases fuel with
  | zero => simp [trace] at ended
  | succ fuel =>
    rcases M.trace_cases ended with ⟨idle, _⟩ | ⟨_, steps, _, _⟩ | ⟨_, _, _, steps, _, _⟩
    · exact absurd (idle.symm.trans running) (by decide)
    · exact ⟨_, _, _, steps⟩
    · exact ⟨_, _, _, steps⟩

/-- A finished loop that took this step ended with it or went on from where it led. -/
theorem Runs.split {M : Machine σ ρ ε} {state final after : σ} {history kept : History σ ρ}
    {outcome result : ρ} (ran : M.Runs state history outcome final)
    (steps : M.Steps state kept result after) :
    (result ≠ M.halt ∧ outcome = result ∧ final = after) ∨
      (result = M.halt ∧ ∃ later, M.Runs after later outcome final) := by
  obtain ⟨fuel, ended⟩ := ran
  cases fuel with
  | zero => simp [trace] at ended
  | succ fuel =>
    rcases M.trace_cases ended with ⟨idle, _⟩ | ⟨_, last, stopped, _⟩ |
      ⟨_, next, later, first, looped, _⟩
    · exact absurd (idle.symm.trans steps.1) (by decide)
    · obtain ⟨_, rfl, rfl⟩ := last.unique steps
      exact .inl ⟨stopped, rfl, rfl⟩
    · obtain ⟨_, rfl, rfl⟩ := first.unique steps
      exact .inr ⟨rfl, later, fuel, looped⟩

section Aborts

variable {M : Machine σ ρ ε} {cause : ε}

/-- A tree that aborts by itself aborts under every large enough bound. -/
theorem resolve_of_faults {tree : Tree σ ρ ε Unit} (faults : tree.Faults M.RunsNested cause) :
    ∃ fuel, ∀ more, fuel ≤ more → tree.resolve M.halt (M.nested (M.trace more)) = .fault cause := by
  -- Everything before the abort finished, so a large enough bound reaches it.
  induction tree with
  | fault other =>
    obtain rfl := faults
    exact ⟨0, fun _ _ => rfl⟩
  | exit outcome state => exact faults.elim
  | next value state => exact faults.elim
  | enter child survives resume ih =>
    obtain ⟨kept, outcome, last, ran, resumed⟩ := faults
    obtain ⟨first, nested⟩ := M.nested_of_runsNested ran
    obtain ⟨second, rest⟩ := ih outcome last resumed
    refine ⟨max first second, fun more le => ?_⟩
    simp only [Tree.resolve, nested more (by omega), rest more (by omega), Outcome.value_bind,
      Outcome.fault_bind]

/-- A tree that opens an aborting frame aborts under every large enough bound. -/
theorem resolve_of_enters {tree : Tree σ ρ ε Unit} {history : History σ ρ} {child : σ}
    (enters : tree.Enters M.RunsNested history child) {fuel : Nat}
    (aborts : M.trace fuel (M.opening child) = .fault cause) :
    ∃ fuel, ∀ more, fuel ≤ more → tree.resolve M.halt (M.nested (M.trace more)) = .fault cause := by
  -- The tree leads through finished frames to the one that aborts.
  induction tree generalizing history with
  | fault other => exact enters.elim
  | exit outcome state => exact enters.elim
  | next value state => exact enters.elim
  | enter opened survives resume ih =>
    rcases enters with ⟨_, rfl⟩ | ⟨kept, outcome, last, later, ran, resumed, _⟩
    · -- The frame itself aborts, so nothing resumes.
      refine ⟨fuel, fun more le => ?_⟩
      have same := M.trace_mono le (M.opening child) (by simp [aborts])
      simp only [Tree.resolve, nested, same, aborts, Outcome.fault_bind]
    · obtain ⟨first, nested⟩ := M.nested_of_runsNested ran
      obtain ⟨second, rest⟩ := ih outcome last resumed
      refine ⟨max first second, fun more le => ?_⟩
      simp only [Tree.resolve, nested more (by omega), rest more (by omega), Outcome.value_bind,
        Outcome.fault_bind]

/-- An abort in a visited state is an abort of the whole loop. -/
theorem aborts_of_reaches {start state : σ} {history : History σ ρ}
    (reaches : M.Reaches start history state) :
    (∃ fuel, M.trace fuel state = .fault cause) → ∃ fuel, M.trace fuel start = .fault cause := by
  -- Each visited state lies one step or one opening behind the state before it.
  induction reaches with
  | refl => exact id
  | @step history state kept after _ steps ih =>
    rintro ⟨fuel, aborts⟩
    refine ih ?_
    -- The step finished, and the abort comes in the rest of the loop.
    obtain ⟨first, resolved⟩ := M.resolve_of_resolves steps.2
    have later := M.trace_mono (Nat.le_max_right first fuel) after (by simp [aborts])
    refine ⟨max first fuel + 1, ?_⟩
    simp [trace, steps.1, resolved _ (Nat.le_max_left first fuel), later, aborts]
  | @enter history state kept child _ opens ih =>
    rintro ⟨fuel, aborts⟩
    refine ih ?_
    -- The abort comes while the step waits for the opened frame.
    obtain ⟨first, resolved⟩ := resolve_of_enters opens.2 aborts
    exact ⟨first + 1, by simp [trace, opens.1, resolved first (Nat.le_refl _)]⟩

/-- A loop aborts exactly when the step of some visited state does. -/
theorem aborts_iff {start : σ} :
    (∃ fuel, M.trace fuel start = .fault cause) ↔
      ∃ history state, M.Reaches start history state ∧ M.running state = true ∧
        (M.step state).Faults M.RunsNested cause := by
  constructor
  · rintro ⟨fuel, aborts⟩
    -- The abort happened in this step, in a frame it opened, or later in the loop.
    induction fuel generalizing start with
    | zero => simp [trace] at aborts
    | succ fuel ih =>
      by_cases running : M.running start = true
      · simp only [trace, running, if_true] at aborts
        rcases Outcome.bind_eq_fault aborts with inStep | ⟨⟨kept, result, after⟩, resolved, rest⟩
        · have covers : ∀ child kept result last,
              M.nested (M.trace fuel) child = .value (kept, result, last) →
                M.RunsNested child kept result last := fun _ _ _ _ ran =>
            M.runsNested_of_nested ran
          rcases Tree.faults_of_resolve covers inStep with own | ⟨history, child, enters, nested⟩
          · exact ⟨[], start, .refl, running, own⟩
          · rcases Outcome.bind_eq_fault nested with looped | ⟨ended, _, impossible⟩
            · obtain ⟨past, state, reaches, found⟩ := ih looped
              exact ⟨_, state, (Reaches.enter .refl ⟨running, enters⟩).trans reaches, found⟩
            · simp at impossible
        · have steps := M.steps_of_resolve running resolved
          simp only at rest
          split at rest
          · rename_i halted
            subst halted
            rcases Outcome.bind_eq_fault rest with looped | ⟨ended, _, impossible⟩
            · obtain ⟨past, state, reaches, found⟩ := ih looped
              exact ⟨_, state, (Reaches.step .refl steps).trans reaches, found⟩
            · simp at impossible
          · simp at rest
      · simp [trace, running] at aborts
  · rintro ⟨history, state, reaches, running, faults⟩
    refine aborts_of_reaches reaches ?_
    obtain ⟨fuel, resolved⟩ := resolve_of_faults faults
    exact ⟨fuel + 1, by simp [trace, running, resolved fuel (Nat.le_refl _)]⟩

end Aborts

end Machine

end Frames
