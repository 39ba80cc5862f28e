import Mathlib.Logic.Relation
import MiniEvm.Proofs.Vm.Disassembly
import MiniEvm.Proofs.Vm.Runs

/-! Instruction boundaries: the jump analysis, the disassembler and the interpreter agree. -/

namespace MiniEvm

open Frames

/-- How many bytes of code an instruction takes, by its first byte. -/
def byteWidth (op : UInt8) : Nat := if 0x60 ≤ op ∧ op ≤ 0x7F then op.toNat - 0x60 + 1 + 1 else 1

/-- Some instruction starts at the first position and the next one at the second. -/
def Follows (code : Bytes) (pc next : Nat) : Prop :=
  ∃ op, code[pc]? = some op ∧ next = pc + byteWidth op

/-- Going from instruction to instruction leads from one position to the other. -/
abbrev Leads (code : Bytes) : Nat → Nat → Prop := Relation.ReflTransGen (Follows code)

section Boundaries

variable {code : Bytes}

theorem byteWidth_pos (op : UInt8) : 0 < byteWidth op := by
  unfold byteWidth
  split <;> omega

/-- An instruction is as wide as its opcode and all the bytes that belong to that. -/
theorem byteWidth_eq (op : UInt8) : byteWidth op = immediateSize op + 1 := by
  unfold byteWidth immediateSize pushSize
  split <;> rfl

/-- A walk that stands on a byte stands there, or goes on behind its instruction. -/
theorem leads_iff {start pc : Nat} {op : UInt8} (here : code[start]? = some op) :
    Leads code start pc ↔ pc = start ∨ Leads code (start + byteWidth op) pc := by
  -- The byte decides the next position, so there is only one way to go on.
  rw [Leads, Relation.ReflTransGen.cases_head_iff]
  constructor
  · rintro (rfl | ⟨next, ⟨other, found, rfl⟩, rest⟩)
    · exact .inl rfl
    · rw [here] at found
      cases found
      exact .inr rest
  · rintro (rfl | rest)
    · exact .inl rfl
    · exact .inr ⟨_, ⟨op, here, rfl⟩, rest⟩

/-- No walk goes on past the end of code. -/
theorem leads_of_end {start pc : Nat} (past : code[start]? = none) (leads : Leads code start pc) :
    pc = start := by
  -- A further position would need a byte to start from.
  rcases Relation.ReflTransGen.cases_head leads with rfl | ⟨next, ⟨op, found, _⟩, _⟩
  · rfl
  · rw [past] at found
    cases found

/-- The round of the analysis at a byte that is there. -/
theorem analyzeJumpdests_walk_succ {fuel start : Nat} {valid : List Bool} {op : UInt8}
    (here : code[start]? = some op) :
    analyzeJumpdests.walk code (fuel + 1) start valid =
      analyzeJumpdests.walk code fuel (start + byteWidth op)
        (if op = 0x5B then valid.set start true else valid) := by
  rw [analyzeJumpdests.walk]
  simp only [here]
  -- A marked byte is no push, so all three branches move on by the width.
  by_cases mark : op = 0x5B
  · subst mark
    rfl
  · by_cases push : 0x60 ≤ op ∧ op ≤ 0x7F
    · simp only [mark, push, if_false, byteWidth, and_self, if_true]
      rfl
    · simp only [mark, push, if_false, byteWidth]

/-- The analysis marks exactly the jump destinations that its walk comes to. -/
theorem analyzeJumpdests_walk_marks (fuel : Nat) :
    ∀ {start : Nat} {valid : List Bool} (i : Nat), valid.length = code.length →
      code.length - start ≤ fuel →
      ((analyzeJumpdests.walk code fuel start valid)[i]? = some true ↔
        valid[i]? = some true ∨ Leads code start i ∧ code[i]? = some 0x5B) := by
  -- One round either stands past the end or moves on behind the instruction it stands on.
  induction fuel with
  | zero =>
    intro start valid i sized enough
    have past : code[start]? = none := List.getElem?_eq_none (by omega)
    simp only [analyzeJumpdests.walk]
    refine ⟨.inl, ?_⟩
    rintro (marked | ⟨leads, found⟩)
    · exact marked
    · rw [leads_of_end past leads, past] at found
      cases found
  | succ fuel ih =>
    intro start valid i sized enough
    cases here : code[start]? with
    | none =>
      simp only [analyzeJumpdests.walk, here]
      refine ⟨.inl, ?_⟩
      rintro (marked | ⟨leads, found⟩)
      · exact marked
      · rw [leads_of_end here leads, here] at found
        cases found
    | some op =>
      have inside : start < code.length := (List.getElem?_eq_some_iff.mp here).1
      have positive := byteWidth_pos op
      rw [analyzeJumpdests_walk_succ here]
      by_cases mark : op = 0x5B
      · -- The walk marks the byte it stands on, and only that one.
        subst mark
        rw [if_pos rfl, ih i (by simpa using sized) (by omega), leads_iff here]
        rw [List.getElem?_set]
        by_cases same : start = i
        · subst same
          exact iff_of_true (.inl (by simp [sized, inside])) (.inr ⟨.inl rfl, here⟩)
        · have different : ¬ i = start := fun h => same h.symm
          simp [same, different]
      · -- Nothing is marked here, and the byte is no destination either.
        rw [if_neg mark, ih i sized (by omega), leads_iff here]
        constructor
        · rintro (marked | ⟨leads, found⟩)
          · exact .inl marked
          · exact .inr ⟨.inr leads, found⟩
        · rintro (marked | ⟨rfl | leads, found⟩)
          · exact .inl marked
          · rw [here] at found
            exact absurd (Option.some.inj found) mark
          · exact .inr ⟨leads, found⟩

/-- The analysis marks exactly the jump destinations at which an instruction starts. -/
theorem analyzeJumpdests_marks (i : Nat) :
    (analyzeJumpdests code)[i]? = some true ↔ Leads code 0 i ∧ code[i]? = some 0x5B := by
  -- The walk starts from the first byte, with nothing marked.
  have fresh : (List.replicate code.length false)[i]? ≠ some true := by
    rw [List.getElem?_replicate]
    split <;> simp
  rw [analyzeJumpdests, analyzeJumpdests_walk_marks code.length i (by simp) (by omega)]
  simp [fresh]

/-- The disassembler lists exactly the instructions that its walk comes to. -/
theorem disassemble_walk_lists (fuel : Nat) :
    ∀ {start : Nat} (pc : Nat) (op : UInt8), code.length - start ≤ fuel →
      ((∃ instruction ∈ disassemble.walk code fuel start,
          instruction.pc = pc ∧ instruction.opcode = op) ↔
        Leads code start pc ∧ code[pc]? = some op) := by
  -- The same walk as the analysis makes.
  induction fuel with
  | zero =>
    intro start pc op enough
    have past : code[start]? = none := List.getElem?_eq_none (by omega)
    simp only [disassemble.walk, List.not_mem_nil, false_and, exists_false, false_iff, not_and]
    intro leads found
    rw [leads_of_end past leads, past] at found
    cases found
  | succ fuel ih =>
    intro start pc op enough
    cases here : code[start]? with
    | none =>
      simp only [disassemble.walk, here, List.not_mem_nil, false_and, exists_false, false_iff,
        not_and]
      intro leads found
      rw [leads_of_end here leads, here] at found
      cases found
    | some byte =>
      have inside : start < code.length := (List.getElem?_eq_some_iff.mp here).1
      rw [disassemble_walk_succ here, ← byteWidth_eq]
      simp only [List.mem_cons, or_and_right, exists_or, exists_eq_left, leads_iff here]
      -- The instruction under the walk is listed; the rest is listed from behind it.
      refine or_congr ⟨?_, ?_⟩ ?_
      · rintro ⟨rfl, rfl⟩
        exact ⟨rfl, here⟩
      · rintro ⟨rfl, found⟩
        rw [here] at found
        exact ⟨rfl, Option.some.inj found⟩
      · exact ih pc op (by have := byteWidth_pos byte; omega)

/-- The disassembler lists exactly the instructions at which one starts. -/
theorem disassemble_lists (pc : Nat) (op : UInt8) :
    (∃ instruction ∈ disassemble code, instruction.pc = pc ∧ instruction.opcode = op) ↔
      Leads code 0 pc ∧ code[pc]? = some op :=
  disassemble_walk_lists code.length pc op (by omega)

/-- Walks only move forward. -/
theorem le_of_leads {a b : Nat} (leads : Leads code a b) : a ≤ b := by
  -- Every instruction takes at least its own byte.
  induction leads with
  | refl => exact Nat.le_refl a
  | tail _ follows ih =>
    obtain ⟨op, _, rfl⟩ := follows
    omega

/-- Between one instruction and the next no other one starts. -/
theorem gap_of_leads {a b : Nat} {op : UInt8} (one : Leads code 0 a) (other : Leads code 0 b)
    (here : code[a]? = some op) (less : a < b) : a + byteWidth op ≤ b := by
  -- Two walks from the start never part, so one of them goes on where the other stopped.
  have unique : Relator.RightUnique (Follows code) := by
    rintro x y z ⟨first, found, rfl⟩ ⟨second, again, rfl⟩
    rw [found] at again
    cases again
    rfl
  rcases Relation.ReflTransGen.total_of_right_unique unique one other with forth | back
  · rcases (leads_iff here).mp forth with rfl | rest
    · omega
    · exact le_of_leads rest
  · have := le_of_leads back
    omega

/-- No instruction starts inside the immediate of a listed one. -/
theorem outside_immediate {pc : Nat} (leads : Leads code 0 pc) {instruction : Instruction}
    (listed : instruction ∈ disassemble code) {bytes : Bytes}
    (immediate : instruction.pushBytes = some bytes) :
    ¬ (instruction.pc < pc ∧ pc ≤ instruction.pc + bytes.length) := by
  rintro ⟨behind, within⟩
  obtain ⟨starts, here⟩ := (disassemble_lists instruction.pc instruction.opcode).mp
    ⟨instruction, listed, rfl, rfl⟩
  -- The next instruction starts behind the immediate, however much of it the code has.
  have gap := gap_of_leads starts leads here behind
  rw [eq_instructionAt_of_listed code.length 0 instruction listed] at immediate
  have length := length_le_of_pushBytesAt immediate
  rw [byteWidth_eq] at gap
  omega

end Boundaries

/-- The interpreter's opcodes are as wide as their bytes say. -/
theorem width_ofByte (op : UInt8) : (Opcode.ofByte op).width = byteWidth op := by
  -- There are only 256 bytes to check.
  have all : ∀ n < 256, (Opcode.ofByte (UInt8.ofNat n)).width = byteWidth (UInt8.ofNat n) := by
    decide +kernel
  simpa using all op.toNat op.toNat_lt

/-- A frame stands where an instruction starts and carries the analysis of its own code. -/
structure Charted (evm : Evm) : Prop where
  marks : evm.validJumpdests = analyzeJumpdests evm.code
  leads : Leads evm.code 0 evm.pc

/-- A step on which the loop goes on keeps to the instructions of its code. -/
theorem Charted.step {host : Host} {evm after : Evm} {kept : History Evm ExecutionResult}
    (charted : Charted evm) (steps : (machine host).Steps evm kept .halt after) :
    Charted after := by
  have stepped := stepsTo_of_resolves steps.1 steps.2
  have same := stepped.sameFrame
  obtain ⟨op, decoded, landed⟩ := stepped.lands
  -- Code and marks stay with the frame, so only the position is left.
  refine ⟨by rw [same.validJumpdests, same.code, charted.marks], ?_⟩
  rw [same.code]
  rcases landed with moved | marked
  · -- Moving on by the width of the opcode is moving on by the width of its byte.
    simp only [Evm.opcode, Option.map_eq_some_iff] at decoded
    obtain ⟨byte, found, rfl⟩ := decoded
    refine charted.leads.tail ⟨byte, found, ?_⟩
    rw [moved, width_ofByte]
  · -- A jump lands on a mark, and marks are only where instructions start.
    rw [charted.marks] at marked
    exact ((analyzeJumpdests_marks after.pc).mp marked).1

/-- Every opened frame starts at the first instruction of its code. -/
theorem Charted.opens {host : Host} {evm child : Evm} {kept : History Evm ExecutionResult}
    (opens : (machine host).Opens evm kept child) : Charted (syncLegacyStateIntoFork child) := by
  -- A fresh frame starts at zero with the analysis of its own code.
  cases (opened_of_enters opens.2).2 with
  | call opening => exact ⟨rfl, .refl⟩
  | create opening => exact ⟨rfl, .refl⟩

/-- Every visited state of a run that starts charted is charted. -/
theorem Charted.reaches {host : Host} {start evm : Evm} {history : History Evm ExecutionResult}
    (charted : Charted start) (reaches : (machine host).Reaches start history evm) :
    Charted evm := by
  -- Steps keep to the chart of their frame, and frames bring their own.
  induction reaches with
  | refl => exact charted
  | step _ steps ih => exact ih.step steps
  | enter _ opens _ => exact Charted.opens opens

/--
Control flow keeps to the listed instructions.

The analysis marks exactly the listed jump destinations.
A run of fresh code on any state and input executes only listed instructions and never a byte of
an immediate, in its own frame and in every frame below, where each frame keeps its own code.
-/
theorem control_flow_integrity (host : Host) :
    (∀ code i, (analyzeJumpdests code)[i]? = some true ↔
      ∃ instruction ∈ disassemble code, instruction.pc = i ∧ instruction.opcode = 0x5B) ∧
    (∀ code gasLimit evm, evm.code = code → evm.pc = 0 →
      evm.validJumpdests = (Evm.newWithGas code gasLimit).validJumpdests →
      ∀ history state, (machine host).Reaches (syncLegacyStateIntoFork evm) history state →
        ∀ op, state.code[state.pc]? = some op →
          (∃ instruction ∈ disassemble state.code,
            instruction.pc = state.pc ∧ instruction.opcode = op) ∧
          ∀ instruction ∈ disassemble state.code, ∀ bytes, instruction.pushBytes = some bytes →
            ¬ (instruction.pc < state.pc ∧ state.pc ≤ instruction.pc + bytes.length)) ∧
    (∀ evm kept result after, (machine host).Steps evm kept result after →
      after.code = evm.code) := by
  refine ⟨?_, ?_, ?_⟩
  · intro code i
    rw [analyzeJumpdests_marks, disassemble_lists]
  · rintro code gasLimit evm rfl start marks history state reaches op found
    -- The copies before the run change neither the code nor the position.
    have charted : Charted (syncLegacyStateIntoFork evm) := by
      refine ⟨marks, ?_⟩
      show Leads evm.code 0 evm.pc
      rw [start]
    have leads := (charted.reaches reaches).leads
    exact ⟨(disassemble_lists state.pc op).mpr ⟨leads, found⟩,
      fun instruction listed bytes immediate => outside_immediate leads listed immediate⟩
  · exact fun evm kept result after steps =>
      (stepsTo_of_resolves steps.1 steps.2).sameFrame.code

end MiniEvm
