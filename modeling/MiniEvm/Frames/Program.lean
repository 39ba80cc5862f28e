import Mathlib.Logic.Basic

/-! Stateful programs that may return early, abort their host, or run a nested frame. -/

namespace Frames

variable {σ ρ ε α β : Type}

/-- What is left of a program once its starting state is known. -/
inductive Tree (σ ρ ε α : Type) where
  -- The host aborts, so neither a result nor a state is left.
  | fault (cause : ε)
  -- The program returns early with a result for its whole frame.
  | exit (result : ρ) (state : σ)
  -- The program reached its end.
  | next (value : α) (state : σ)
  -- A nested frame runs first, and the program resumes from its outcome.
  -- The second field says which outcomes the opener counts as a success.
  | enter (child : σ) (survives : ρ → σ → Bool) (resume : ρ → σ → Tree σ ρ ε α)

/-- Runs a continuation at every place where the first program reached its end. -/
def Tree.bind : Tree σ ρ ε α → (α → σ → Tree σ ρ ε β) → Tree σ ρ ε β
  | fault cause, _ => fault cause
  | exit result state, _ => exit result state
  | next value state, rest => rest value state
  -- Nested frames keep their place, and the continuation waits behind each of their outcomes.
  | enter child survives resume, rest =>
    enter child survives fun result state => (resume result state).bind rest

/-- A program over a frame's state, with early results and host aborts. -/
def Program (σ ρ ε α : Type) : Type := σ → Tree σ ρ ε α

namespace Program

/-- Programs compose by running the second from every end of the first. -/
instance : Monad (Program σ ρ ε) where
  pure value := fun state => .next value state
  bind first rest := fun state => (first state).bind fun value => rest value

/-- Reads the whole state. -/
def get : Program σ ρ ε σ := fun state => .next state state

/-- Replaces the state by a function of it. -/
def modify (change : σ → σ) : Program σ ρ ε Unit := fun state => .next () (change state)

/-- Returns early from the whole frame. -/
def exit (result : ρ) : Program σ ρ ε α := fun state => .exit result state

/-- Aborts the host. -/
def fault (cause : ε) : Program σ ρ ε α := fun _ => .fault cause

/-- Runs a nested frame to its end and yields its outcome. -/
def enter (child : σ) (survives : ρ → σ → Bool) : Program σ ρ ε (ρ × σ) :=
  fun state => .enter child survives fun result final => .next (result, final) state

end Program

/-- Every end of a tree without nested frames meets the postcondition of its kind. -/
def Tree.Leaf (onFault : ε → Prop) (onExit : ρ → σ → Prop) (onNext : α → σ → Prop) :
    Tree σ ρ ε α → Prop
  | fault cause => onFault cause
  | exit result state => onExit result state
  | next value state => onNext value state
  -- Handlers that open frames have rules of their own.
  | enter _ _ _ => False

/-- The postconditions of a tree without nested frames may be weakened. -/
theorem Tree.Leaf.weaken {tree : Tree σ ρ ε α} {onFault onFault' : ε → Prop}
    {onExit onExit' : ρ → σ → Prop} {onNext onNext' : α → σ → Prop}
    (leaf : tree.Leaf onFault onExit onNext)
    (faults : ∀ cause, onFault cause → onFault' cause)
    (exits : ∀ result final, onExit result final → onExit' result final)
    (nexts : ∀ value final, onNext value final → onNext' value final) :
    tree.Leaf onFault' onExit' onNext' := by
  cases tree with
  | fault cause => exact faults cause leaf
  | exit result state => exact exits result state leaf
  | next value state => exact nexts value state leaf
  | enter child survives resume => exact leaf

/-- The program, started in this state, opens no frame and ends as specified. -/
def Program.Meets (program : Program σ ρ ε α) (state : σ) (onFault : ε → Prop)
    (onExit : ρ → σ → Prop) (onNext : α → σ → Prop) : Prop :=
  (program state).Leaf onFault onExit onNext

namespace Program

variable {onFault onFault' : ε → Prop} {onExit onExit' : ρ → σ → Prop}

@[simp] theorem pure_apply (value : α) (state : σ) :
    (pure value : Program σ ρ ε α) state = .next value state := rfl

@[simp] theorem bind_apply (first : Program σ ρ ε α) (rest : α → Program σ ρ ε β) (state : σ) :
    (first >>= rest) state = (first state).bind fun value => rest value := rfl

@[simp] theorem get_apply (state : σ) : (get : Program σ ρ ε σ) state = .next state state := rfl

@[simp] theorem modify_apply (change : σ → σ) (state : σ) :
    (modify change : Program σ ρ ε Unit) state = .next () (change state) := rfl

@[simp] theorem exit_apply (result : ρ) (state : σ) :
    (exit result : Program σ ρ ε α) state = .exit result state := rfl

@[simp] theorem fault_apply (cause : ε) (state : σ) :
    (fault cause : Program σ ρ ε α) state = .fault cause := rfl

@[simp] theorem enter_apply (child : σ) (survives : ρ → σ → Bool) (state : σ) :
    (enter child survives : Program σ ρ ε (ρ × σ)) state =
      .enter child survives fun result final => .next (result, final) state := rfl

/-- A program that reached its end hands its value and its state to the rest. -/
theorem bind_of_next {first : Program σ ρ ε α} {rest : α → Program σ ρ ε β} {state mid : σ}
    {value : α} (ended : first state = .next value mid) :
    (first >>= rest) state = rest value mid := by
  rw [bind_apply, ended]
  rfl

/-- Continuations follow one another however they are grouped. -/
theorem bind_assoc {γ : Type} (first : Program σ ρ ε α) (second : α → Program σ ρ ε β)
    (third : β → Program σ ρ ε γ) :
    (first >>= second) >>= third = first >>= fun value => second value >>= third := by
  funext state
  rw [bind_apply, bind_apply, bind_apply]
  -- Below a nested frame, each of its outcomes is grouped anew.
  induction first state with
  | enter child survives resume ih =>
    simp only [Tree.bind, Tree.enter.injEq, true_and]
    funext result final
    exact ih result final
  | _ => rfl

/-- A program that opens no frame stands at exactly one of its three kinds of end. -/
theorem Meets.cases {program : Program σ ρ ε α} {state : σ} {onNext : α → σ → Prop}
    (meets : program.Meets state onFault onExit onNext) :
    (∃ cause, program state = .fault cause ∧ onFault cause) ∨
      (∃ result final, program state = .exit result final ∧ onExit result final) ∨
      (∃ value final, program state = .next value final ∧ onNext value final) := by
  -- Naming the tree first lets each kind of end rewrite what is known about it.
  unfold Meets at meets
  cases stands : program state with
  | fault cause => rw [stands] at meets; exact .inl ⟨cause, rfl, meets⟩
  | exit result final => rw [stands] at meets; exact .inr (.inl ⟨result, final, rfl, meets⟩)
  | next value final => rw [stands] at meets; exact .inr (.inr ⟨value, final, rfl, meets⟩)
  | enter child survives resume => rw [stands] at meets; exact meets.elim

/-- Sequencing asks the rest to meet its postcondition wherever the first program may end. -/
theorem Meets.bind {first : Program σ ρ ε α} {rest : α → Program σ ρ ε β} {state : σ}
    {middle : α → σ → Prop} {onNext : β → σ → Prop}
    (head : first.Meets state onFault onExit middle)
    (tail : ∀ value final, middle value final →
      (rest value).Meets final onFault onExit onNext) :
    (first >>= rest).Meets state onFault onExit onNext := by
  -- Only an end of the first kind reaches the rest; the other two are passed through.
  rcases head.cases with ⟨cause, stands, holds⟩ | ⟨result, final, stands, holds⟩ |
    ⟨value, final, stands, holds⟩
  · simpa [Meets, stands, Tree.bind, Tree.Leaf] using holds
  · simpa [Meets, stands, Tree.bind, Tree.Leaf] using holds
  · simpa [Meets, stands, Tree.bind] using tail value final holds

/-- Postconditions may be weakened at every kind of end. -/
theorem Meets.weaken {program : Program σ ρ ε α} {state : σ} {onNext onNext' : α → σ → Prop}
    (meets : program.Meets state onFault onExit onNext)
    (faults : ∀ cause, onFault cause → onFault' cause)
    (exits : ∀ result final, onExit result final → onExit' result final)
    (nexts : ∀ value final, onNext value final → onNext' value final) :
    program.Meets state onFault' onExit' onNext' :=
  Tree.Leaf.weaken meets faults exits nexts

/-- If the program, started in this state, reaches its end, it does so as specified. -/
def Yields (program : Program σ ρ ε α) (state : σ) (post : α → σ → Prop) : Prop :=
  ∀ value final, program state = .next value final → post value final

/-- What is known wherever a program may end is known at its end. -/
theorem Meets.yields {program : Program σ ρ ε α} {state : σ} {onNext : α → σ → Prop}
    (meets : program.Meets state onFault onExit onNext) : program.Yields state onNext := by
  intro value final ended
  unfold Meets at meets
  rw [ended] at meets
  exact meets

/-- A result yields what holds of it. -/
theorem Yields.pure {value : α} {state : σ} {post : α → σ → Prop} (holds : post value state) :
    (pure value : Program σ ρ ε α).Yields state post := by
  intro value' final ended
  cases ended
  exact holds

/-- What the first part yields is what the second part starts from. -/
theorem Yields.bind {first : Program σ ρ ε α} {rest : α → Program σ ρ ε β} {state : σ}
    {middle : α → σ → Prop} {post : β → σ → Prop} (head : first.Yields state middle)
    (tail : ∀ value mid, middle value mid → (rest value).Yields mid post) :
    (first >>= rest).Yields state post := by
  intro value final ended
  rw [bind_apply] at ended
  -- Only a first program that reached its end can be followed by an end.
  cases stands : first state with
  | fault cause => rw [stands] at ended; cases ended
  | exit result mid => rw [stands] at ended; cases ended
  | enter child survives resume => rw [stands] at ended; cases ended
  | next middleValue mid =>
    rw [stands] at ended
    exact tail middleValue mid (head _ _ stands) value final ended

/-- Nothing needs to be known about a first program that does not matter. -/
theorem Yields.skip {first : Program σ ρ ε α} {rest : α → Program σ ρ ε β} {state : σ}
    {post : β → σ → Prop} (tail : ∀ value mid, (rest value).Yields mid post) :
    (first >>= rest).Yields state post :=
  Yields.bind (fun _ _ _ => trivial) fun value mid (_ : True) => tail value mid

/-- A program may go on with the state that it finds. -/
theorem Yields.get_bind {rest : σ → Program σ ρ ε β} {state : σ} {post : β → σ → Prop}
    (tail : (rest state).Yields state post) : (get >>= rest).Yields state post := tail

/-- Programs that stand for the same in a state reach the same ends from it. -/
theorem Yields.of_eq {program other : Program σ ρ ε α} {state : σ} {post : α → σ → Prop}
    (same : program state = other state) (yields : other.Yields state post) :
    program.Yields state post := fun value final ended => yields value final (same ▸ ended)

/-- The program, started in this state, opens no frame and reaches its end as specified. -/
def Completes (program : Program σ ρ ε α) (state : σ) (post : α → σ → Prop) : Prop :=
  ∃ value final, program state = .next value final ∧ post value final

/-- A result completes with itself. -/
theorem Completes.pure {value : α} {state : σ} {post : α → σ → Prop} (holds : post value state) :
    (pure value : Program σ ρ ε α).Completes state post := ⟨value, state, rfl, holds⟩

/-- A look at the state completes with it. -/
theorem Completes.get {state : σ} :
    (get : Program σ ρ ε σ).Completes state fun value final => value = state ∧ final = state :=
  ⟨state, state, rfl, rfl, rfl⟩

/-- A change of the state completes with the changed state. -/
theorem Completes.modify {change : σ → σ} {state : σ} :
    (modify change : Program σ ρ ε Unit).Completes state fun _ final => final = change state :=
  ⟨(), change state, rfl, rfl⟩

/-- Sequencing completes when the rest completes from wherever the first program may end. -/
theorem Completes.bind {first : Program σ ρ ε α} {rest : α → Program σ ρ ε β} {state : σ}
    {middle : α → σ → Prop} {post : β → σ → Prop} (head : first.Completes state middle)
    (tail : ∀ value mid, middle value mid → (rest value).Completes mid post) :
    (first >>= rest).Completes state post := by
  obtain ⟨value, mid, ended, holds⟩ := head
  -- The first program hands over in one place only, so the rest decides.
  obtain ⟨last, final, stands, done⟩ := tail value mid holds
  exact ⟨last, final, (bind_of_next ended).trans stands, done⟩

/-- What comes after reading the state starts from that state, and is given it. -/
theorem Completes.get_bind {rest : σ → Program σ ρ ε β} {state : σ} {post : β → σ → Prop}
    (tail : (rest state).Completes state post) : (Program.get >>= rest).Completes state post := tail

/-- What is known of the completion may be weakened. -/
theorem Completes.weaken {program : Program σ ρ ε α} {state : σ} {post post' : α → σ → Prop}
    (completes : program.Completes state post)
    (posts : ∀ value final, post value final → post' value final) :
    program.Completes state post' := by
  obtain ⟨value, final, ended, holds⟩ := completes
  exact ⟨value, final, ended, posts value final holds⟩

/--
Where the program reaches its end it does so as specified, and under the condition it does reach it.

The condition is the same for all parts of a program, so that one pass settles both.
-/
structure Delivers (program : Program σ ρ ε α) (state : σ) (condition : Prop)
    (post : α → σ → Prop) : Prop where
  yields : program.Yields state post
  ends : condition → ∃ value final, program state = .next value final

/-- Whatever completes delivers under any condition. -/
theorem Completes.delivers {program : Program σ ρ ε α} {state : σ} {condition : Prop}
    {post : α → σ → Prop} (completes : program.Completes state post) :
    program.Delivers state condition post := by
  obtain ⟨value, final, ended, holds⟩ := completes
  refine ⟨fun value' final' ended' => ?_, fun _ => ⟨value, final, ended⟩⟩
  -- There is one end that it reaches.
  rw [ended] at ended'
  cases ended'
  exact holds

/-- Where a program completes, it ends nowhere else. -/
theorem Completes.yields {program : Program σ ρ ε α} {state : σ} {post : α → σ → Prop}
    (completes : program.Completes state post) : program.Yields state post := by
  have delivers : program.Delivers state True post := completes.delivers
  exact delivers.yields

namespace Delivers

variable {condition stronger : Prop} {state : σ}

/-- What is enough for a program to deliver is enough if it follows from the condition. -/
theorem under {program : Program σ ρ ε α} {post : α → σ → Prop}
    (delivers : program.Delivers state condition post) (enough : stronger → condition) :
    program.Delivers state stronger post :=
  ⟨delivers.yields, fun holds => delivers.ends (enough holds)⟩

theorem bind {first : Program σ ρ ε α} {rest : α → Program σ ρ ε β} {middle : α → σ → Prop}
    {post : β → σ → Prop} (head : first.Delivers state condition middle)
    (tail : ∀ value mid, middle value mid → (rest value).Delivers mid condition post) :
    (first >>= rest).Delivers state condition post := by
  constructor
  · exact Yields.bind head.yields fun value mid holds => (tail value mid holds).yields
  · intro holds
    obtain ⟨value, mid, ended⟩ := head.ends holds
    -- The rest starts where the first program ended, which is as specified.
    obtain ⟨last, final, stands⟩ := (tail value mid (head.yields value mid ended)).ends holds
    exact ⟨last, final, (bind_of_next ended).trans stands⟩

theorem weaken {program : Program σ ρ ε α} {post post' : α → σ → Prop}
    (delivers : program.Delivers state condition post)
    (posts : ∀ value final, post value final → post' value final) :
    program.Delivers state condition post' :=
  ⟨fun value final ended => posts value final (delivers.yields value final ended), delivers.ends⟩

/-- Programs that stand for the same in two states deliver the same. -/
theorem of_eq {program other : Program σ ρ ε α} {state start : σ} {post : α → σ → Prop}
    (same : program state = other start) (delivers : other.Delivers start condition post) :
    program.Delivers state condition post := by
  constructor
  · exact fun value final ended => delivers.yields value final (same ▸ ended)
  · intro holds
    rw [same]
    exact delivers.ends holds

/-- An early return is no end, so it must not be asked for one. -/
theorem exit {result : ρ} {post : α → σ → Prop} (never : ¬ condition) :
    (exit result : Program σ ρ ε α).Delivers state condition post :=
  ⟨fun _ _ ended => (by cases ended), fun holds => absurd holds never⟩

end Delivers

end Program

end Frames
