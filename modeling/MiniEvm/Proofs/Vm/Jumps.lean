import MiniEvm.Proofs.Vm.ControlFlow
import MiniEvm.Proofs.Vm.Operands

/-! Where jumps go: the whole destination word against the limb that is looked up. -/

namespace MiniEvm

open EvmM Frames Frames.Program

variable {evm : Evm} {rest : List Word}

/-- A number inside the code that the analysis has marked. -/
def ValidDestination (evm : Evm) (dest : Nat) : Prop :=
  dest < evm.code.length ∧ evm.validJumpdests[dest]? = some true

instance (evm : Evm) (dest : Nat) : Decidable (ValidDestination evm dest) :=
  inferInstanceAs (Decidable (_ ∧ _))

/-- The handler goes on at the destination, with nothing changed but the operands that are gone. -/
def ContinuesAt (handler : EvmM Unit) (evm : Evm) (rest : List Word) (dest : Nat) : Prop :=
  handler.Completes evm fun _ after =>
    StackOnly { evm with pc := dest } after ∧ after.stack.data = rest

/-- The handler ends the frame with an error and leaves it where it stands. -/
def FailsInPlace (handler : EvmM Unit) (evm : Evm) (rest : List Word) : Prop :=
  ∃ message after, handler evm = .exit (.error message) after ∧ StackOnly evm after ∧
    after.stack.data = rest

/-- The handler goes on at a valid destination, and fails in place for any other number. -/
def JumpsTo (handler : EvmM Unit) (evm : Evm) (rest : List Word) (dest : Nat) : Prop :=
  if ValidDestination evm dest then ContinuesAt handler evm rest dest
  else FailsInPlace handler evm rest

/-- No handler both goes on and fails. -/
theorem ContinuesAt.not_fails {handler : EvmM Unit} {dest : Nat}
    (continues : ContinuesAt handler evm rest dest) : ¬ FailsInPlace handler evm rest := by
  intro ⟨message, after, fails, _⟩
  obtain ⟨_, final, ended, _⟩ := continues
  rw [fails] at ended
  cases ended

/-- It goes on in one place. -/
theorem ContinuesAt.unique {handler : EvmM Unit} {dest dest' : Nat}
    (continues : ContinuesAt handler evm rest dest)
    (continues' : ContinuesAt handler evm rest dest') : dest = dest' := by
  obtain ⟨_, final, ended, only, _⟩ := continues
  obtain ⟨_, final', ended', only', _⟩ := continues'
  rw [ended] at ended'
  cases ended'
  -- The position of the one final state is both destinations.
  have here : final.pc = dest := only.read Evm.pc fun _ _ => rfl
  have there : final.pc = dest' := only'.read Evm.pc fun _ _ => rfl
  rw [← here, there]

/-- The analysis marks nothing outside the code, so a mark is all that the handlers need. -/
theorem validDestination_iff (analyzed : evm.validJumpdests = analyzeJumpdests evm.code)
    (dest : Nat) : ValidDestination evm dest ↔ evm.validJumpdests[dest]?.getD false = true := by
  unfold ValidDestination
  rw [Option.getD_eq_iff]
  simp only [Bool.false_eq_true, and_false, or_false, and_iff_right_iff_imp]
  -- A position outside the code has no mark to be true.
  intro marked
  rw [analyzed, analyzeJumpdests_marks] at marked
  exact (List.getElem?_eq_some_iff.mp marked.2).1

/-- What looking a destination up comes to. -/
theorem jumpTo_apply (analyzed : evm.validJumpdests = analyzeJumpdests evm.code) (dest : Nat)
    (invalid : String) :
    jumpTo dest invalid evm =
      if ValidDestination evm dest then .next () { evm with pc := dest }
      else .exit (.error invalid) evm := by
  unfold jumpTo
  rw [bind_of_next (get_apply evm)]
  simp only [← validDestination_iff analyzed]
  split <;> rfl

/-- After the operands are gone, looking up a number jumps to it. -/
theorem jumpsTo_of_popped {handler : EvmM Unit} {mid : Evm} {dest : Nat} {invalid : String}
    (analyzed : evm.validJumpdests = analyzeJumpdests evm.code) (only : StackOnly evm mid)
    (stack : mid.stack.data = rest) (popped : handler evm = jumpTo dest invalid mid) :
    JumpsTo handler evm rest dest := by
  -- Popping operands changes neither the code nor its marks.
  have analyzed' : mid.validJumpdests = analyzeJumpdests mid.code := by
    rw [only.read Evm.validJumpdests fun _ _ => rfl, only.read Evm.code fun _ _ => rfl]
    exact analyzed
  have sameDestinations : ValidDestination mid dest = ValidDestination evm dest :=
    only.read (fun evm => ValidDestination evm dest) fun _ _ => rfl
  rw [jumpTo_apply analyzed'] at popped
  simp only [sameDestinations] at popped
  unfold JumpsTo
  by_cases valid : ValidDestination evm dest
  · rw [if_pos valid] at popped ⊢
    refine ⟨(), _, popped, ?_, stack⟩
    unfold StackOnly at only ⊢
    rw [only]
  · rw [if_neg valid] at popped ⊢
    exact ⟨invalid, mid, popped, only, stack⟩

theorem opJump_jumpsTo (analyzed : evm.validJumpdests = analyzeJumpdests evm.code) {dest : Word}
    (operands : evm.stack.data = dest :: rest) : JumpsTo opJump evm rest (asUsize dest) := by
  obtain ⟨_, mid, ended, rfl, only, stack⟩ := completes_pop _ operands
  exact jumpsTo_of_popped analyzed only stack (bind_of_next ended)

/-- Whether JUMPI jumps is up to its second operand. -/
theorem opJumpi_apply {dest cond : Word} (operands : evm.stack.data = dest :: cond :: rest) :
    ∃ mid, StackOnly evm mid ∧ mid.stack.data = rest ∧ opJumpi evm =
      if cond ≠ 0 then jumpTo (asUsize dest) "Invalid JUMPI destination" mid else .next () mid := by
  obtain ⟨_, s1, ended1, rfl, only1, stack1⟩ := completes_pop _ operands
  obtain ⟨_, s2, ended2, rfl, only2, stack2⟩ := completes_pop _ stack1
  refine ⟨s2, only1.trans only2, stack2, ?_⟩
  unfold opJumpi
  rw [bind_of_next ended1, bind_of_next ended2]
  split <;> rfl

/-- Both jumps go by the whole word, whatever lies below their operands. -/
structure JumpsByWord (evm : Evm) (dest : Word) : Prop where
  jump : ∀ stack rest, stack.data = dest :: rest →
    JumpsTo opJump { evm with stack } rest dest.toNat
  jumpi : ∀ stack cond rest, stack.data = dest :: cond :: rest → cond ≠ 0 →
    JumpsTo opJumpi { evm with stack } rest dest.toNat
  fallsThrough : ∀ stack rest, stack.data = dest :: 0 :: rest →
    ContinuesAt opJumpi { evm with stack } rest evm.pc

/-- A jump to one number serves for another as long as both are the same or both are invalid. -/
theorem jumpsTo_congr {handler : EvmM Unit} {dest dest' : Nat}
    (jumps : JumpsTo handler evm rest dest') :
    JumpsTo handler evm rest dest ↔
      dest = dest' ∨ (¬ ValidDestination evm dest ∧ ¬ ValidDestination evm dest') := by
  unfold JumpsTo at jumps ⊢
  -- Four cases: the handler went by dest', and is measured against dest.
  by_cases valid : ValidDestination evm dest
  · by_cases valid' : ValidDestination evm dest'
    · rw [if_pos valid'] at jumps
      rw [if_pos valid]
      constructor
      · exact fun other => .inl (other.unique jumps)
      · rintro (rfl | ⟨invalid, _⟩)
        · exact jumps
        · exact absurd valid invalid
    · -- The handler fails, so it cannot go on as a valid destination asks for.
      rw [if_neg valid'] at jumps
      rw [if_pos valid]
      refine iff_of_false (fun other => other.not_fails jumps) ?_
      rintro (rfl | ⟨invalid, _⟩)
      · exact valid' valid
      · exact invalid valid
  · by_cases valid' : ValidDestination evm dest'
    · rw [if_pos valid'] at jumps
      rw [if_neg valid]
      refine iff_of_false (fun other => jumps.not_fails other) ?_
      rintro (rfl | ⟨_, invalid⟩)
      · exact valid valid'
      · exact invalid valid'
    · rw [if_neg valid'] at jumps
      rw [if_neg valid]
      exact iff_of_true jumps (.inr ⟨valid, valid'⟩)

/-- A word is its lowest limb just if it is a machine word. -/
theorem toNat_eq_asUsize_iff (word : Word) : word.toNat = asUsize word ↔ word.toNat < 2 ^ 64 := by
  constructor
  · intro same
    rw [same]
    exact Nat.mod_lt _ (by decide)
  · exact fun small => (asUsize_of_lt small).symm

/--
The jumps go by the whole word unless the lowest limb of a longer word matters.

It does when one of the two is a valid destination.
-/
theorem jumpsByWord_iff (evm : Evm) (dest : Word)
    (analyzed : evm.validJumpdests = analyzeJumpdests evm.code) :
    JumpsByWord evm dest ↔
      dest.toNat < 2 ^ 64 ∨
        (¬ ValidDestination evm dest.toNat ∧ ¬ ValidDestination evm (asUsize dest)) := by
  -- The stack has no part in the analysis.
  have marks : ∀ stack, ({ evm with stack := stack } : Evm).validJumpdests =
      analyzeJumpdests ({ evm with stack := stack } : Evm).code := fun _ => analyzed
  constructor
  · intro holds
    -- One stack is enough to tell.
    have popped : JumpsTo opJump { evm with stack := ⟨[dest], by simp⟩ } [] (asUsize dest) :=
      opJump_jumpsTo (marks _) rfl
    have same := (jumpsTo_congr popped).mp (holds.jump ⟨[dest], by simp⟩ [] rfl)
    rw [toNat_eq_asUsize_iff] at same
    exact same
  · intro harmless
    rw [← toNat_eq_asUsize_iff] at harmless
    constructor
    · intro stack rest operands
      exact (jumpsTo_congr (opJump_jumpsTo (marks stack) operands)).mpr harmless
    · intro stack cond rest operands taken
      have placed : ({ evm with stack } : Evm).stack.data = _ := operands
      obtain ⟨mid, only, data, ended⟩ := opJumpi_apply placed
      rw [if_pos taken] at ended
      exact (jumpsTo_congr (jumpsTo_of_popped (marks stack) only data ended)).mpr harmless
    · intro stack rest operands
      have placed : ({ evm with stack } : Evm).stack.data = _ := operands
      obtain ⟨mid, only, data, ended⟩ := opJumpi_apply placed
      rw [if_neg (fun taken => taken rfl)] at ended
      exact ⟨(), mid, ended, only, data⟩

/-- A short destination is safe, whether it is valid or not. -/
theorem jumpsByWord_of_small : JumpsByWord (Evm.newWithGas [0x5B] 100) 0 :=
  (jumpsByWord_iff (Evm.newWithGas [0x5B] 100) 0 rfl).mpr (.inl (by decide))

/-- A destination of 2^64 jumps to the first byte instead of failing. -/
theorem jump_truncates_destination :
    ¬ JumpsByWord (Evm.newWithGas [0x5B] 100) 0x10000000000000000 := by
  intro holds
  have jumps := holds.jump ⟨[0x10000000000000000], by simp⟩ [] rfl
  unfold JumpsTo at jumps
  split at jumps
  · -- It is far outside the code, so there is nothing to go on at.
    rename_i valid
    obtain ⟨inside, _⟩ := valid
    revert inside
    decide
  · obtain ⟨message, after, ended, _⟩ := jumps
    cases ended

end MiniEvm
