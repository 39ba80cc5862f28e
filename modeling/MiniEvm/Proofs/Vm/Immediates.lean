import MiniEvm.Bytes.BigEndian
import MiniEvm.Proofs.Vm.Operands
import MiniEvm.Proofs.Vm.Tapes

/-! The immediates of pushes, and what becomes of those that the end of the code cuts short. -/

namespace MiniEvm

open EvmM Frames Frames.Program BigEndian

section Numbers

/-- Zeros in front of a number add nothing to it. -/
theorem value_replicate_zero_append (count : Nat) (bytes : Bytes) :
    value (List.replicate count 0 ++ bytes) = value bytes := by
  induction count with
  | zero => rfl
  | succ count ih =>
    rw [List.replicate_succ, List.cons_append, value_cons, ih]
    simp

/-- The generic push fills in the bytes that are missing at the low end. -/
theorem pushImmediate_eq (code : Bytes) (start n : Nat) :
    pushImmediate code start n = List.replicate (32 - n) 0 ++ padded code start n := by
  unfold pushImmediate
  rw [List.append_assoc]
  exact congrArg _ (slice_append_zeros code start n)

/-- So the word it pushes is the number of the padded bytes. -/
theorem toNat_pushImmediate (code : Bytes) (start : Nat) {n : Nat} (few : n ≤ 32) :
    (fromBeBytes (pushImmediate code start n)).toNat = value (padded code start n) := by
  have short : (pushImmediate code start n).length ≤ 32 := by
    rw [pushImmediate_eq, List.length_append, List.length_replicate, length_padded]
    omega
  rw [toNat_fromBeBytes short, pushImmediate_eq, value_replicate_zero_append]

end Numbers

/-- The step pushes the number of so many bytes behind the opcode and moves past all of them. -/
def StepPushes (host : Host) (evm : Evm) (n : Nat) : Prop :=
  ∃ number : Word, number.toNat = value (padded evm.code (evm.pc + 1) n) ∧
    (step host).Completes evm fun _ after =>
      after = { evm with
        pc := evm.pc + 1 + n
        gasLeft := evm.gasLeft - 3
        stack := after.stack } ∧
      after.stack.data = number :: evm.stack.data

section Handlers

variable {evm : Evm} {number : Word} {n : Nat}

/-- Moving on and pushing, as all three handlers do it in the end. -/
theorem completes_movePush (overflow : ExecutionResult) (room : evm.stack.data.length < 1024) :
    (do
      modify fun evm => { evm with pc := evm.pc + n }
      push number overflow : EvmM Unit).Completes evm fun _ after =>
        after = { evm with pc := evm.pc + n, stack := after.stack } ∧
          after.stack.data = number :: evm.stack.data := by
  refine Completes.modify.bind fun _ moved same => ?_
  have room' : moved.stack.data.length < 1024 := by
    rw [same]
    exact room
  refine (completes_push number overflow room').weaken fun _ after pushed => ?_
  obtain ⟨only, data⟩ := pushed
  unfold StackOnly at only
  -- Moving on leaves the stack alone, so the room and the words below are those of the start.
  rw [same] at only data
  exact ⟨only, data⟩

/-- The generic handler pushes whatever there is. -/
theorem completes_executePushN (evm : Evm) (few : n ≤ 32) (room : evm.stack.data.length < 1024) :
    ∃ number : Word, number.toNat = value (padded evm.code evm.pc n) ∧
      (executePushN n).Completes evm fun _ after =>
        after = { evm with pc := evm.pc + n, stack := after.stack } ∧
          after.stack.data = number :: evm.stack.data := by
  refine ⟨_, toNat_pushImmediate evm.code evm.pc few, ?_⟩
  unfold executePushN
  refine Completes.get_bind ?_
  exact completes_movePush _ room

theorem value_padded_one {byte : UInt8} {start : Nat} {code : Bytes}
    (here : code[start]? = some byte) : value (padded code start 1) = byte.toNat := by
  simp [padded, here, value]

theorem value_padded_two {high low : UInt8} {start : Nat} {code : Bytes}
    (here : code[start]? = some high) (there : code[start + 1]? = some low) :
    value (padded code start 2) = high.toNat * 256 + low.toNat := by
  simp [padded, here, there, value, List.range_succ]

theorem completes_opPush1 (evm : Evm) (inside : evm.pc < evm.code.length)
    (room : evm.stack.data.length < 1024) :
    ∃ number : Word, number.toNat = value (padded evm.code evm.pc 1) ∧
      opPush1.Completes evm fun _ after =>
        after = { evm with pc := evm.pc + 1, stack := after.stack } ∧
          after.stack.data = number :: evm.stack.data := by
  have here := List.getElem?_eq_getElem inside
  refine ⟨BitVec.ofNat 256 evm.code[evm.pc].toNat, ?_, ?_⟩
  · -- One byte is below 2^256, so no digit is lost in the word.
    have small := evm.code[evm.pc].toNat_lt
    rw [value_padded_one here, BitVec.toNat_ofNat, Nat.mod_eq_of_lt (by omega)]
  · unfold opPush1
    refine Completes.get_bind ?_
    rw [here]
    exact completes_movePush _ room

theorem completes_opPush2 (evm : Evm) (inside : evm.pc + 1 < evm.code.length)
    (room : evm.stack.data.length < 1024) :
    ∃ number : Word, number.toNat = value (padded evm.code evm.pc 2) ∧
      opPush2.Completes evm fun _ after =>
        after = { evm with pc := evm.pc + 2, stack := after.stack } ∧
          after.stack.data = number :: evm.stack.data := by
  have here := List.getElem?_eq_getElem (Nat.lt_of_succ_lt inside)
  have there := List.getElem?_eq_getElem inside
  refine ⟨BitVec.ofNat 256 (evm.code[evm.pc].toNat * 256 + evm.code[evm.pc + 1].toNat), ?_, ?_⟩
  · -- Nor is one of two.
    have small := evm.code[evm.pc].toNat_lt
    have small' := evm.code[evm.pc + 1].toNat_lt
    rw [value_padded_two here there, BitVec.toNat_ofNat, Nat.mod_eq_of_lt (by omega)]
  · unfold opPush2
    refine Completes.get_bind ?_
    rw [here, there]
    exact completes_movePush _ room

/-- The two short pushes do not pad, so a cut immediate ends the frame. -/
theorem opPush1_of_cut (cut : evm.code.length ≤ evm.pc) :
    opPush1 evm = .exit (.error "Unexpected EOF on PUSH1") evm := by
  unfold opPush1
  rw [bind_of_next (get_apply evm), List.getElem?_eq_none cut]
  rfl

theorem opPush2_of_cut (cut : evm.code.length ≤ evm.pc + 1) :
    opPush2 evm = .exit (.error "Unexpected EOF on PUSH2") evm := by
  unfold opPush2
  rw [bind_of_next (get_apply evm), List.getElem?_eq_none cut]
  -- The second byte is missing in any case, whether the first one is there or not.
  cases evm.code[evm.pc]? with
  | none => rfl
  | some high => rfl

end Handlers

section Steps

variable {host : Host} {evm : Evm} {n : Nat}

/-- The handler of each push. -/
def pushHandler (n : Nat) : EvmM Unit :=
  if n = 1 then opPush1 else if n = 2 then opPush2 else executePushN n

/-- The bytes from 0x60 on are the pushes, in order. -/
theorem ofByte_push (some_ : 1 ≤ n) (few : n ≤ 32) :
    Opcode.ofByte (UInt8.ofNat (0x5F + n)) =
      if n = 1 then .push1 else if n = 2 then .push2 else .push n := by
  -- There are only 32 of them.
  have all : ∀ n < 33, 1 ≤ n → Opcode.ofByte (UInt8.ofNat (0x5F + n)) =
      if n = 1 then .push1 else if n = 2 then .push2 else .push n := by decide +kernel
  exact all n (by omega) some_

/-- A step on a push that can be paid runs its handler. -/
theorem step_push (host : Host) (some_ : 1 ≤ n) (few : n ≤ 32)
    (here : evm.code[evm.pc]? = some (UInt8.ofNat (0x5F + n))) (enough : 3 ≤ evm.gasLeft) :
    step host evm =
      pushHandler n { evm with gasLeft := evm.gasLeft - 3, pc := evm.pc + 1 } := by
  have decoded : evm.opcode =
      some (if n = 1 then .push1 else if n = 2 then .push2 else .push n) := by
    rw [Evm.opcode, here, Option.map_some, ofByte_push some_ few]
  rw [step_apply decoded, pushHandler]
  -- All three kinds cost the same three gas, which is taken before the handler runs.
  by_cases one : n = 1
  · rw [if_pos one, if_pos one]
    exact if_neg (Nat.not_lt.mpr enough)
  · rw [if_neg one, if_neg one]
    by_cases two : n = 2
    · rw [if_pos two, if_pos two]
      exact if_neg (Nat.not_lt.mpr enough)
    · rw [if_neg two, if_neg two]
      exact if_neg (Nat.not_lt.mpr enough)

/--
A push reads its immediate with zeros past the end of the code, unless it is one of the short two.

Those end the frame with an error when their immediate is cut.
-/
theorem stepPushes_iff (host : Host) (evm : Evm) (n : Nat) (some_ : 1 ≤ n) (few : n ≤ 32)
    (here : evm.code[evm.pc]? = some (UInt8.ofNat (0x5F + n))) (enough : 3 ≤ evm.gasLeft)
    (room : evm.stack.data.length < 1024) :
    StepPushes host evm n ↔ 3 ≤ n ∨ evm.pc + n < evm.code.length := by
  have steps := step_push host some_ few here enough
  -- What the handler completes with is what the step completes with.
  have meets : ∀ number : Word,
      ((pushHandler n).Completes { evm with gasLeft := evm.gasLeft - 3, pc := evm.pc + 1 }
        fun _ after => after = { evm with
          gasLeft := evm.gasLeft - 3, pc := evm.pc + 1 + n, stack := after.stack } ∧
          after.stack.data = number :: evm.stack.data) →
      (step host).Completes evm fun _ after => after = { evm with
        pc := evm.pc + 1 + n, gasLeft := evm.gasLeft - 3, stack := after.stack } ∧
        after.stack.data = number :: evm.stack.data := by
    intro number ⟨value, after, ended, holds⟩
    exact ⟨value, after, steps.trans ended, holds⟩
  -- And where the handler ends the frame, the step pushes nothing.
  have cut : ∀ result after,
      pushHandler n { evm with gasLeft := evm.gasLeft - 3, pc := evm.pc + 1 } =
        .exit result after → ¬ StepPushes host evm n := by
    intro result after exits ⟨number, _, value, final, ended, _⟩
    rw [steps, exits] at ended
    cases ended
  unfold pushHandler at meets cut
  by_cases one : n = 1
  · subst one
    rw [if_pos rfl] at meets cut
    by_cases inside : evm.pc + 1 < evm.code.length
    · obtain ⟨number, isNumber, completes⟩ := completes_opPush1
          { evm with gasLeft := evm.gasLeft - 3, pc := evm.pc + 1 } inside room
      exact iff_of_true ⟨number, isNumber, meets number completes⟩ (.inr inside)
    · refine iff_of_false (cut _ _ (opPush1_of_cut (Nat.not_lt.mp inside))) ?_
      omega
  · rw [if_neg one] at meets cut
    by_cases two : n = 2
    · subst two
      rw [if_pos rfl] at meets cut
      by_cases inside : evm.pc + 2 < evm.code.length
      · obtain ⟨number, isNumber, completes⟩ := completes_opPush2
          { evm with gasLeft := evm.gasLeft - 3, pc := evm.pc + 1 } inside room
        exact iff_of_true ⟨number, isNumber, meets number completes⟩ (.inr inside)
      · refine iff_of_false (cut _ _ (opPush2_of_cut (Nat.not_lt.mp inside))) ?_
        omega
    · -- The generic handler pads in any case.
      rw [if_neg two] at meets
      obtain ⟨number, isNumber, completes⟩ := completes_executePushN
          { evm with gasLeft := evm.gasLeft - 3, pc := evm.pc + 1 } few room
      exact iff_of_true ⟨number, isNumber, meets number completes⟩ (.inl (by omega))

/-- A cut immediate of three bytes, padded with two zeros. -/
theorem stepPushes_of_cut_push3 :
    StepPushes (tableHost []) (Evm.newWithGas [0x62, 0xab] 100) 3 :=
  (stepPushes_iff (tableHost []) (Evm.newWithGas [0x62, 0xab] 100) 3 (by decide) (by decide) rfl
    (by decide) (by decide)).mpr (.inl (Nat.le_refl 3))

/-- The same cut ends the frame on the shortest push. -/
theorem push1_of_cut_fails :
    ¬ StepPushes (tableHost []) (Evm.newWithGas [0x60] 100) 1 := by
  intro ⟨number, _, value, final, ended, _⟩
  cases ended

end Steps

end MiniEvm
