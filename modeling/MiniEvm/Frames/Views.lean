import MiniEvm.Frames.Machine

/-! Programs that leave a view of their state alone, whatever the frames they open come to. -/

namespace Frames

variable {σ ρ ε α β ν : Type} {early : ρ → Prop}

/-- Every end of a tree is as specified, whatever the frames it opens come to. -/
def Tree.Arrives (early : ρ → Prop) (post : α → σ → Prop) : Tree σ ρ ε α → Prop
  | fault _ => True
  | exit result _ => early result
  | next value state => post value state
  -- Nothing is assumed about the outcome from which the opener resumes.
  | enter _ _ resume => ∀ result last, (resume result last).Arrives early post

/-- A tree that arrives may be gone on with. -/
theorem Tree.Arrives.bind {tree : Tree σ ρ ε α} {rest : α → σ → Tree σ ρ ε β}
    {middle : α → σ → Prop} {post : β → σ → Prop} (head : tree.Arrives early middle)
    (tail : ∀ value mid, middle value mid → (rest value mid).Arrives early post) :
    (tree.bind rest).Arrives early post := by
  -- The continuation stands at the ends of the tree, also at those below a frame.
  induction tree with
  | fault cause => trivial
  | exit result state => exact head
  | next value state => exact tail value state head
  | enter child survives resume ih => exact fun result last => ih result last (head result last)

/-- What holds where it arrives may be weakened. -/
theorem Tree.Arrives.weaken {tree : Tree σ ρ ε α} {post post' : α → σ → Prop}
    (arrives : tree.Arrives early post)
    (posts : ∀ value state, post value state → post' value state) :
    tree.Arrives early post' := by
  induction tree with
  | fault cause => trivial
  | exit result state => exact arrives
  | next value state => exact posts value state arrives
  | enter child survives resume ih => exact fun result last => ih result last (arrives result last)

/-- A resolved tree came to one of its ends. -/
theorem Tree.Arrives.resolves {halt : ρ} {nested : σ → History σ ρ → ρ → σ → Prop}
    {tree : Tree σ ρ ε Unit} {post : Unit → σ → Prop} {kept : History σ ρ} {outcome : ρ} {final : σ}
    (arrives : tree.Arrives early post)
    (resolved : tree.Resolves halt nested kept outcome final) : early outcome ∨ post () final := by
  induction tree generalizing kept with
  | fault cause => exact resolved.elim
  | exit result state =>
    obtain ⟨_, rfl, _⟩ := resolved
    exact .inl arrives
  | next value state =>
    obtain ⟨_, _, rfl⟩ := resolved
    exact .inr arrives
  | enter child survives resume ih =>
    -- The frame came to some outcome, and the opener resumed from it.
    obtain ⟨_, result, last, _, _, resumed, _⟩ := resolved
    exact ih result last (arrives result last) resumed

namespace Program

/-- Wherever the program, started in this state, reaches its end, it does so as specified. -/
def Arrives (program : Program σ ρ ε α) (state : σ) (early : ρ → Prop) (post : α → σ → Prop) :
    Prop :=
  (program state).Arrives early post

/-- What the first part arrives at is where the second one starts. -/
theorem Arrives.bind {first : Program σ ρ ε α} {rest : α → Program σ ρ ε β} {state : σ}
    {middle : α → σ → Prop} {post : β → σ → Prop} (head : first.Arrives state early middle)
    (tail : ∀ value mid, middle value mid → (rest value).Arrives mid early post) :
    (first >>= rest).Arrives state early post := Tree.Arrives.bind head tail

/-- What holds where a program arrives may be weakened. -/
theorem Arrives.weaken {program : Program σ ρ ε α} {state : σ} {post post' : α → σ → Prop}
    (arrives : program.Arrives state early post)
    (posts : ∀ value final, post value final → post' value final) :
    program.Arrives state early post' := Tree.Arrives.weaken arrives posts

/-- What comes after reading the state starts from that state, and is given it. -/
theorem Arrives.get_bind {rest : σ → Program σ ρ ε β} {state : σ} {post : β → σ → Prop}
    (tail : (rest state).Arrives state early post) : (get >>= rest).Arrives state early post := tail

/-- A change arrives at the changed state. -/
theorem Arrives.modify {state : σ} (change : σ → σ) :
    (modify change : Program σ ρ ε Unit).Arrives state early fun _ final => final = change state :=
  rfl

/-- The program shows the same view of the state wherever it reaches its end. -/
def Keeps (early : ρ → Prop) (view : σ → ν) (program : Program σ ρ ε α) : Prop :=
  ∀ state, program.Arrives state early fun _ final => view final = view state

namespace Keeps

variable {view : σ → ν}

/-- Programs that keep a view may follow each other. -/
theorem bind {first : Program σ ρ ε α} {rest : α → Program σ ρ ε β}
    (head : Keeps early view first) (tail : ∀ value, Keeps early view (rest value)) :
    Keeps early view (first >>= rest) := by
  intro state
  refine Arrives.bind (head state) fun value mid same => ?_
  -- What the rest keeps from the middle on was kept up to there.
  exact (tail value mid).weaken fun _ final later => later.trans same

/-- What is left of a program may be looked at from where it starts. -/
theorem after {program : Program σ ρ ε α} {mid : σ} {shown : ν} (keeps : Keeps early view program)
    (same : view mid = shown) : program.Arrives mid early fun _ final => view final = shown :=
  (keeps mid).weaken fun _ _ later => later.trans same

/-- A result keeps every view. -/
theorem pure (value : α) : Keeps early view (pure value : Program σ ρ ε α) := fun _ => rfl

/-- Looking at the state keeps every view. -/
theorem get : Keeps early view (Frames.Program.get : Program σ ρ ε σ) := fun _ => rfl

/-- A change keeps every view that it does not show in. -/
theorem modify {change : σ → σ} (same : ∀ state, view (change state) = view state) :
    Keeps early view (Frames.Program.modify change : Program σ ρ ε Unit) := same

/-- An end is allowed where ending early is. -/
theorem exit {result : ρ} (ends : early result) :
    Keeps early view (Frames.Program.exit result : Program σ ρ ε α) := fun _ => ends

/-- An abort arrives nowhere. -/
theorem fault (cause : ε) : Keeps early view (Frames.Program.fault cause : Program σ ρ ε α) :=
  fun _ => trivial

/-- The frame that is opened has a state of its own. -/
theorem enter (child : σ) (survives : ρ → σ → Bool) :
    Keeps early view (Frames.Program.enter child survives : Program σ ρ ε (ρ × σ)) :=
  fun _ _ _ => rfl

end Keeps

end Program

end Frames
