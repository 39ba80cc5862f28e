import MiniEvm.Proofs.Vm.Runs
import MiniEvm.Vm.Fuzzer

/-! When the report on fuzzed code does not depend on how its threads are scheduled. -/

namespace MiniEvm

open Frames

namespace FuzzRequest

variable {host : Host} {fuel : Nat} {request : FuzzRequest} {baseState : StateFork}
  {bytecode : Bytes} {iteration other : Nat}

/-- Whether an iteration of the request goes wrong. -/
def Violates (host : Host) (fuel : Nat) (request : FuzzRequest) (baseState : StateFork)
    (bytecode : Bytes) (iteration : Nat) : Prop :=
  ∃ found, request.examine host fuel baseState bytecode iteration = .value (some found)

/-- Every schedule comes to the same report or to none, and the first iteration to go wrong is the
one that is reported. -/
structure Reproducible (host : Host) (fuel : Nat) (request : FuzzRequest)
    (baseState : StateFork) : Prop where
  same : ∀ left right, request.Runs host fuel baseState left →
    request.Runs host fuel baseState right → left.result? = right.result?
  smallest : ∀ bytecode report, request.bytecode = .ok bytecode →
    request.Runs host fuel baseState (.value (.ok report)) → ∀ iteration < request.iterations,
      Violates host fuel request baseState bytecode iteration →
      (∀ earlier < iteration, ¬ Violates host fuel request baseState bytecode earlier) →
      report.violationFound = true ∧ report.iterationsExecuted = iteration + 1 ∧
        report.payloadHex = some (Hex.encode (mutate host iteration))

/-- What is found names its iteration and has its payload. -/
theorem examine_found {found : Nat × Bytes × String}
    (examined : request.examine host fuel baseState bytecode iteration = .value (some found)) :
    found.1 = iteration ∧ found.2.1 = mutate host iteration := by
  obtain ⟨⟨result, vm⟩, _, rest⟩ := Outcome.bind_eq_value examined
  simp only [Outcome.pure_eq, Outcome.value.injEq, Option.map_eq_some_iff] at rest
  obtain ⟨error, _, rfl⟩ := rest
  exact ⟨rfl, rfl⟩

/-- Reports tell apart what was found. -/
theorem report_injective {examine : Nat → Outcome Fault (Option (Nat × Bytes × String))}
    {left right : Option (Nat × Bytes × String)}
    (first : ∀ found, left = some found → examine found.1 = .value (some found))
    (second : ∀ found, right = some found → examine found.1 = .value (some found))
    (same : request.report left = request.report right) : left = right := by
  cases left with
  | none =>
    cases right with
    | none => rfl
    | some found => exact nomatch congrArg FuzzReport.violationFound same
  | some found =>
    cases right with
    | none => exact nomatch congrArg FuzzReport.violationFound same
    | some found' =>
      -- The number of the iteration is told, and each finds one violation at most.
      have index : found.1 + 1 = found'.1 + 1 := congrArg FuzzReport.iterationsExecuted same
      have examined := first found rfl
      rw [Nat.succ.inj index, second found' rfl] at examined
      exact (congrArg some (Option.some.inj (Outcome.value.inj examined))).symm

/-- What a search found is what its iteration came to. -/
theorem findsAny_examined {found : Nat × Bytes × String}
    (search : FindsAny (request.examine host fuel baseState bytecode)
      (List.range request.iterations) (.value (some found))) :
    found.1 < request.iterations ∧
      request.examine host fuel baseState bytecode found.1 = .value (some found) := by
  cases search with
  | found member matched =>
    rw [(examine_found matched).1]
    exact ⟨List.mem_range.mp member, matched⟩

/-- A request whose bytecode is no hex reports just that. -/
theorem runs_refused {message : String} (refused : request.bytecode = .error message)
    {outcome : Outcome Fault (Except String FuzzReport)}
    (runs : request.Runs host fuel baseState outcome) : outcome = .value (.error message) := by
  cases runs with
  | refused again =>
    rw [refused] at again
    cases again
    rfl
  | searched accepted _ =>
    rw [refused] at accepted
    cases accepted

/-- A request that is accepted reports what its search found. -/
theorem runs_accepted (accepted : request.bytecode = .ok bytecode)
    {outcome : Outcome Fault (Except String FuzzReport)}
    (runs : request.Runs host fuel baseState outcome) :
    ∃ first, FindsAny (request.examine host fuel baseState bytecode)
        (List.range request.iterations) first ∧
      outcome = first >>= fun found => pure (.ok (request.report found)) := by
  cases runs with
  | refused refused =>
    rw [accepted] at refused
    cases refused
  | searched again search =>
    rw [accepted] at again
    cases again
    exact ⟨_, search, rfl⟩

/-- Reports agree just where the searches behind them do. -/
theorem same_iff (accepted : request.bytecode = .ok bytecode) :
    (∀ left right, request.Runs host fuel baseState left →
      request.Runs host fuel baseState right → left.result? = right.result?) ↔
      ∀ left right, FindsAny (request.examine host fuel baseState bytecode)
          (List.range request.iterations) left →
        FindsAny (request.examine host fuel baseState bytecode)
          (List.range request.iterations) right → left.result? = right.result? := by
  constructor
  · intro same left right first second
    have reports := same _ _ (.searched accepted first) (.searched accepted second)
    -- A search that ends tells what it found by its report.
    cases left with
    | value one =>
      cases right with
      | value two =>
        have equal := Option.some.inj reports
        have left_found : ∀ found, one = some found →
            request.examine host fuel baseState bytecode found.1 = .value (some found) := by
          rintro found rfl
          exact (findsAny_examined first).2
        have right_found : ∀ found, two = some found →
            request.examine host fuel baseState bytecode found.1 = .value (some found) := by
          rintro found rfl
          exact (findsAny_examined second).2
        exact congrArg some (report_injective left_found right_found (Except.ok.inj equal))
      | fault cause => exact nomatch reports
      | outOfFuel => exact nomatch reports
    | fault cause => cases right <;> first | rfl | exact nomatch reports
    | outOfFuel => cases right <;> first | rfl | exact nomatch reports
  · intro agree left right first second
    obtain ⟨one, search, rfl⟩ := runs_accepted accepted first
    obtain ⟨two, search', rfl⟩ := runs_accepted accepted second
    have same := agree one two search search'
    cases one <;> cases two <;> simp_all [Outcome.result?]

/--
A report can be reproduced exactly if the request is refused, no iteration goes wrong, or just one
does and all others end well.
-/
theorem reproducible_iff (host : Host) (fuel : Nat) (request : FuzzRequest)
    (baseState : StateFork) :
    Reproducible host fuel request baseState ↔
      ∀ bytecode, request.bytecode = .ok bytecode →
        SoleMatch (request.examine host fuel baseState bytecode)
          (List.range request.iterations) := by
  have named : ∀ {bytecode job other found},
      request.examine host fuel baseState bytecode job = .value (some found) →
      request.examine host fuel baseState bytecode other = .value (some found) → job = other :=
    fun first second => (examine_found first).1.symm.trans (examine_found second).1
  constructor
  · intro reproducible bytecode accepted
    exact (findsAny_agree_iff named).mp ((same_iff accepted).mp reproducible.same)
  · intro sole
    cases decoded : request.bytecode with
    | error message =>
      constructor
      · intro left right first second
        rw [runs_refused decoded first, runs_refused decoded second]
      · intro bytecode report accepted
        rw [decoded] at accepted
        cases accepted
    | ok bytecode =>
      refine ⟨(same_iff decoded).mpr ((findsAny_agree_iff named).mpr (sole bytecode decoded)), ?_⟩
      intro bytecode' report accepted runs iteration below violates _
      rw [decoded] at accepted
      cases accepted
      obtain ⟨found, examined⟩ := violates
      obtain ⟨first, search, reported⟩ := runs_accepted decoded runs
      -- The iteration is the only one to go wrong, so it is the one that was found.
      rcases sole bytecode decoded with none_of | ⟨job, member, ⟨result, matched⟩, others⟩
      · exact absurd examined (none_of _ (List.mem_range.mpr below) _)
      · have only : iteration = job := by
          by_contra apart
          rw [others iteration (List.mem_range.mpr below) apart] at examined
          cases examined
        rw [search.eq_of_sole member matched others] at reported
        cases reported
        obtain ⟨index, payload⟩ := examine_found matched
        obtain ⟨number, input, error⟩ := result
        rw [only]
        exact ⟨rfl, congrArg (· + 1) index, congrArg (fun bytes => some (Hex.encode bytes)) payload⟩

/-- Code that is no opcode, examined twice. -/
def twoFailures : FuzzRequest where
  bytecodeHex := "0x0c"
  iterations := 2

/-- Both iterations go wrong, and either may be reported. -/
theorem twoFailures_not_reproducible :
    ¬ Reproducible (tableHost []) 1 twoFailures {} := by
  intro reproducible
  have accepted : twoFailures.bytecode = .ok [0x0c] := by decide +kernel
  -- The code is one undefined byte, which goes wrong on any input.
  have wrong : ∀ iteration < 2, ∃ found,
      twoFailures.examine (tableHost []) 1 {} [0x0c] iteration = .value (some found) := by
    intro iteration below
    have ran : endsWith (twoFailures.examine (tableHost []) 1 {} [0x0c] iteration)
        Option.isSome = true := by
      rcases (by omega : iteration = 0 ∨ iteration = 1) with rfl | rfl <;> decide +kernel
    obtain ⟨found, examined, some_found⟩ := exists_of_endsWith ran
    obtain ⟨found, rfl⟩ := Option.isSome_iff_exists.mp some_found
    exact ⟨found, examined⟩
  obtain ⟨one, first⟩ := wrong 0 (by decide)
  obtain ⟨two, second⟩ := wrong 1 (by decide)
  -- Each of the two searches is a run of its own.
  have same := (same_iff accepted).mp reproducible.same _ _
    (.found (List.mem_range.mpr (by decide)) first)
    (.found (List.mem_range.mpr (by decide)) second)
  have index := congrArg Prod.fst (Option.some.inj (Option.some.inj same))
  rw [(examine_found first).1, (examine_found second).1] at index
  cases index

end FuzzRequest

end MiniEvm
