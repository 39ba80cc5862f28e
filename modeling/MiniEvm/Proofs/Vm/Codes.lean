import MiniEvm.Proofs.Vm.Creations
import MiniEvm.Proofs.Vm.Nonces

/-! Code along a run: what puts it into an account, and what a run without that leaves there. -/

namespace MiniEvm

open Frames

/-- The address that some bytes are hashed to. -/
def derivedAddress (host : Host) (input : Bytes) : Address := accountAddress (host.keccak256 input)

/-- The bytes from which the next step derives the address of the constructor it opens. -/
def creationInput (host : Host) (evm : Evm) : Option Bytes :=
  match evm.opcode, evm.stack.data, step host evm with
  -- The nonce is that of the old map, which starts empty in every transaction and callee.
  | some .create, _, .enter _ _ _ =>
    some (rlpEncodeCreate evm.selfAddress (evm.legacyNonce evm.selfAddress))
  | some .create2, _ :: _ :: _ :: salt :: _, .enter child _ _ =>
    some (0xff :: beBytes 20 evm.selfAddress.toNat ++ toBeBytes salt ++
      toBeBytes (host.keccak256 child.code))
  | _, _, _ => none

/-- A creation in a frame that was not reverted has put this account there. -/
def DeployedIn (host : Host) (history : History Evm ExecutionResult) (account : Address) : Prop :=
  ∃ done ∈ history, Creates account done ∧
    ∃ input, creationInput host done.before = some input ∧ derivedAddress host input = account

/-- The account has code in the fork, or an entry in the map that is copied into it. -/
def Occupied (account : Address) (evm : Evm) : Prop :=
  evm.state.getCode account ≠ [] ∨ account ∈ evm.contracts

section Inputs

variable {host : Host} {evm mid : Evm} {value : Word} {salt : Option Word} {initCode : Bytes}
  {survives : ExecutionResult → Evm → Bool} {account : Address}
  {resume : ExecutionResult → Evm → Tree Evm ExecutionResult Fault Unit}
  {first second : History Evm ExecutionResult}

/-- A constructor runs at the address that is derived from the input of its creation. -/
theorem creationInput_of_opening (opening : CreateOpening evm value salt mid)
    (begins : step host evm =
      .enter (createdFrame host mid value salt initCode) survives resume) :
    ∃ input, creationInput host evm = some input ∧
      derivedAddress host input = createAddress host mid salt initCode := by
  have decoded := opening.opcode
  have self := opening.drift.selfAddress
  -- What comes before the address is derived leaves the nonce of the creator.
  have nonce : mid.legacyNonce evm.selfAddress = evm.legacyNonce evm.selfAddress := by
    have nonces : mid.nonces = evm.nonces := opening.quiet.nonces
    rw [Evm.legacyNonce, nonces]
    rfl
  obtain ⟨offset, size, operands⟩ := opening.operands
  cases salt with
  | none =>
    refine ⟨rlpEncodeCreate evm.selfAddress (evm.legacyNonce evm.selfAddress), ?_, ?_⟩
    · simp only [creationInput, decoded, createOpcode, begins]
    · simp only [createAddress, deriveCreateAddress, derivedAddress, nonce, self]
  | some salt =>
    refine ⟨0xff :: beBytes 20 evm.selfAddress.toNat ++ toBeBytes salt ++
      toBeBytes (host.keccak256 initCode), ?_, ?_⟩
    · simp only [creationInput, decoded, createOpcode, begins, operands, Option.toList,
        List.cons_append, List.nil_append]
      rfl
    · simp only [createAddress, deriveCreate2Address, derivedAddress, self]

theorem DeployedIn.before (deployed : DeployedIn host first account) :
    DeployedIn host (first ++ second) account := by
  obtain ⟨done, member, facts⟩ := deployed
  exact ⟨done, List.mem_append_left _ member, facts⟩

theorem DeployedIn.after (deployed : DeployedIn host second account) :
    DeployedIn host (first ++ second) account := by
  obtain ⟨done, member, facts⟩ := deployed
  exact ⟨done, List.mem_append_right _ member, facts⟩

end Inputs

section Occupation

variable {host : Host} {evm after child mid last : Evm} {account : Address}
  {history kept : History Evm ExecutionResult} {result outcome : ExecutionResult}

/-- Whatever is occupied in the end was so from the start, or is the work of a creation. -/
def Settles (host : Host) (history : History Evm ExecutionResult) (before after : Evm) : Prop :=
  ∀ account, Occupied account after → Occupied account before ∨ DeployedIn host history account

theorem Settles.trans {first second : History Evm ExecutionResult} {a b c : Evm}
    (one : Settles host first a b) (other : Settles host second b c) :
    Settles host (first ++ second) a c := by
  intro account occupied
  rcases other account occupied with middle | deployed
  · exact (one account middle).imp_right DeployedIn.before
  · exact .inr deployed.after

/-- Only the fork and the old map of contracts matter. -/
theorem Occupied.of_same (occupied : Occupied account after)
    (state : after.state.getCode account = evm.state.getCode account)
    (contracts : after.contracts = evm.contracts) : Occupied account evm := by
  unfold Occupied at occupied ⊢
  rwa [state, contracts] at occupied

/-- The copy occupies nothing that was free. -/
theorem Occupied.opening (occupied : Occupied account (syncLegacyStateIntoFork child)) :
    Occupied account child := by
  rcases occupied with coded | listed
  · rw [getCode_syncLegacyStateIntoFork] at coded
    -- The copy writes the codes of the listed contracts, and those were occupied already.
    cases found : child.contracts.lookup account with
    | some code => exact .inr (AList.lookup_isSome.mp (by rw [found]; rfl))
    | none =>
      rw [found] at coded
      exact .inl coded
  · exact .inr listed

/-- A sweep moves balances only. -/
theorem getCode_sweepBalance (state : StateFork) (sender beneficiary account : Address) :
    (sweepBalance state sender beneficiary).getCode account = state.getCode account := by
  unfold sweepBalance
  split
  · rfl
  · rw [StateFork.getCode_setBalance, StateFork.getCode_setBalance]

/-- What a step does by itself occupies nothing. -/
theorem Effect.occupied {op : Opcode} (effect : Effect evm op after)
    (occupied : Occupied account after) : Occupied account evm := by
  cases effect with
  | plain _ drift => exact occupied.of_same (by rw [drift.state]) drift.contracts
  | sstore _ _ drift =>
    refine occupied.of_same ?_ drift.contracts
    rw [← drift.state]
    exact StateFork.getCode_setStorage _ _ _ _ _
  | tstore _ _ drift =>
    refine occupied.of_same ?_ drift.contracts
    rw [← drift.state]
    rfl
  | log _ drift => exact occupied.of_same (by rw [← drift.state]) drift.contracts
  | @selfdestruct mid word _ _ _ drift =>
    rw [Occupied, ← drift.state, ← drift.contracts]
    simp only [destroyAccount] at occupied
    split at occupied
    · -- A removal frees its account, and occupies no other.
      rcases occupied with coded | listed
      · refine .inl fun bare => coded ?_
        show (StateFork.getAccount _ _).code = []
        rw [removeAccount, StateFork.getAccount_erase]
        split
        · rfl
        · -- The sweep before the removal moves ether and leaves all code where it is.
          exact (getCode_sweepBalance _ _ _ _).trans bare
      · exact .inr (AList.mem_erase.mp listed).2
    · refine occupied.imp_left fun coded => ?_
      rwa [← getCode_sweepBalance mid.state mid.selfAddress (accountAddress word)]

section Openings

variable {forceStatic delegate : Bool} {setup : CallSetup} {value : Word} {salt : Option Word}
  {initCode : Bytes} {survives : ExecutionResult → Evm → Bool}
  {resume : ExecutionResult → Evm → Tree Evm ExecutionResult Fault Unit}

/-- The value that a creation moves is no code. -/
theorem getCode_createdFrame (account : Address) :
    (createdFrame host mid value salt initCode).state.getCode account =
      mid.state.getCode account := by
  show ((mid.state.snapshot.2.setBalance _ _).setBalance _ _).getCode account = _
  rw [StateFork.getCode_setBalance, StateFork.getCode_setBalance]
  rfl

/-- Neither kind of frame is opened with more than its opener has. -/
theorem Opened.occupied (opened : Opened host evm child) (occupied : Occupied account child) :
    Occupied account evm := by
  cases opened with
  | call opening =>
    refine occupied.of_same ?_ opening.drift.contracts
    rw [← opening.drift.state]
    rfl
  | create opening =>
    refine occupied.of_same ?_ opening.drift.contracts
    rw [getCode_createdFrame, opening.drift.state]

/-- A call is no creation. -/
theorem creationInput_of_call (opening : CallOpening evm forceStatic delegate setup mid) :
    creationInput host evm = none := by
  have decoded := opening.opcode
  unfold creationInput
  rw [decoded]
  cases forceStatic <;> cases delegate <;> rfl

/-- The opener of a frame that failed is left with its own fork and its own contracts. -/
theorem Resumes.fails (resumes : Resumes host evm outcome last child survives result after)
    (indexed : evm.state.SnapshotsIndexed) (failed : survives outcome last = false) :
    after.state = evm.state ∧ after.contracts = evm.contracts := by
  cases resumes with
  | called opening quiet =>
    rw [quiet.state, quiet.contracts, ← opening.drift.state, ← opening.drift.contracts]
    rw [← opening.drift.state] at indexed
    rw [afterCall_of_failure indexed.fresh failed]
    exact ⟨rfl, rfl⟩
  | created opening quiet _ =>
    rw [quiet.state, quiet.contracts, ← opening.drift.state, ← opening.drift.contracts]
    rw [← opening.drift.state] at indexed
    rw [(afterCreate_of_failure indexed.fresh failed).1, afterCreate_abandons failed]
    exact ⟨rfl, rfl⟩

/-- Away from the address it creates, an opener keeps its contracts and takes over the codes. -/
theorem Resumes.elsewhere (resumes : Resumes host evm outcome last child survives result after)
    (begins : step host evm = .enter child survives resume)
    (other : ∀ input, creationInput host evm = some input → derivedAddress host input ≠ account) :
    after.contracts.lookup account = evm.contracts.lookup account ∧
      (survives outcome last = true →
        after.state.getCode account = last.state.getCode account) := by
  cases resumes with
  | @called _ delegate setup mid _ _ opening quiet =>
    rw [quiet.state, quiet.contracts, ← opening.drift.contracts]
    constructor
    · unfold afterCall mergeCall
      split <;> rfl
    · intro succeeded
      rw [afterCall_of_success succeeded]
  | @created value salt initCode mid _ _ opening quiet _ =>
    obtain ⟨input, derives, address⟩ := creationInput_of_opening opening begins
    -- The address of the new account comes from the input that the step itself derives.
    have elsewhere : account ≠ createAddress host mid salt initCode := by
      rw [← address]
      exact (other input derives).symm
    rw [quiet.state, quiet.contracts, ← opening.drift.contracts]
    cases succeeded : createSucceeds host mid value salt initCode outcome last with
    | false =>
      rw [afterCreate_abandons succeeded]
      exact ⟨rfl, fun never => by cases never⟩
    | true =>
      obtain ⟨code, gasLeft, _, commits⟩ := afterCreate_commits succeeded
      rw [commits]
      constructor
      · -- Only the new account is entered.
        exact AList.lookup_insert_ne elsewhere
      · intro _
        show (last.state.setCode _ code).getCode account = _
        rw [StateFork.getCode_setCode, if_neg elsewhere]

/-- A creation whose constructor succeeded is a deployment at its address. -/
theorem Resumes.deploys {input : Bytes}
    (resumes : Resumes host evm outcome last child survives result after)
    (begins : step host evm = .enter child survives resume)
    (derives : creationInput host evm = some input) (succeeded : survives outcome last = true) :
    DeployedIn host (kept ++ [⟨evm, result, after⟩]) (derivedAddress host input) := by
  cases resumes with
  | called opening _ =>
    rw [creationInput_of_call opening] at derives
    cases derives
  | @created value salt initCode mid _ _ opening quiet answered =>
    obtain ⟨found, derives', address⟩ := creationInput_of_opening opening begins
    -- The input that the step derives from is the one that it runs its constructor at.
    obtain rfl := Option.some.inj (derives.symm.trans derives')
    obtain ⟨_, _, created, answer⟩ := afterCreate_of_success succeeded
    rw [address]
    refine ⟨⟨evm, result, after⟩, by simp, ⟨?_, (answered _ answer).2, ?_⟩, _, derives, address⟩
    · exact ⟨_, opening.opcode, createOpcode_isCreation salt⟩
    · show _ ∈ after.createdInTransaction
      rw [quiet.createdInTransaction, created]
      exact Finset.mem_insert_self _ _

/-- The frame that an opener resumes from is one that it opened. -/
theorem Resumes.opened (resumes : Resumes host evm outcome last child survives result after) :
    Opened host evm child := by
  cases resumes with
  | called opening _ => exact .call opening
  | created opening _ _ => exact .create opening

/-- What a frame below leaves with code was occupied before, or is deployed in that frame. -/
theorem settles_of_within (opened : Opened host evm child)
    (within : (machine host).Within (Settles host) child history outcome last)
    (coded : last.state.getCode account ≠ []) :
    Occupied account evm ∨ DeployedIn host history account := by
  obtain ⟨stop, _, settles, rfl⟩ := within
  rw [machine_closing, syncForkIntoLegacyState_state] at coded
  -- Neither the copy nor the opening occupies anything.
  exact (settles account (.inl coded)).imp_left fun before => opened.occupied before.opening

/-- One step deploys what it leaves occupied, as soon as the frame below it does. -/
theorem settles_of_resolves (running : (machine host).running evm = true)
    (indexed : evm.state.SnapshotsIndexed)
    (resolved : (step host evm).Resolves .halt ((machine host).Within (Settles host))
      kept result after) :
    Settles host (kept ++ [⟨evm, result, after⟩]) evm after := by
  intro account occupied
  cases stepEnds_of_resolves running resolved with
  | alone closed ends =>
    left
    rcases ends with ⟨drift, _⟩ | ⟨op, _, effect, _⟩
    · exact occupied.of_same (by rw [drift.state]) drift.contracts
    · exact effect.occupied occupied
  | @resumed child survives resume history outcome last _ _ begins within resumes =>
    cases succeeded : survives outcome last with
    | false =>
      -- A frame that failed has left nothing behind.
      obtain ⟨state, contracts⟩ := resumes.fails indexed succeeded
      exact .inl (occupied.of_same (by rw [state]) contracts)
    | true =>
      rw [if_pos rfl]
      -- The account is the one that was created, or was left as the frame below has it.
      by_cases here : ∃ input, creationInput host evm = some input ∧
          derivedAddress host input = account
      · obtain ⟨input, derives, rfl⟩ := here
        exact .inr (resumes.deploys begins derives succeeded)
      · -- Elsewhere the opener takes over what the frame has left.
        obtain ⟨listed, read⟩ := resumes.elsewhere begins fun input derives address =>
          here ⟨input, derives, address⟩
        rcases occupied with coded | member
        · rw [read succeeded] at coded
          exact (settles_of_within resumes.opened within coded).imp_right DeployedIn.before
        · rw [← AList.lookup_isSome, listed, AList.lookup_isSome] at member
          exact .inl (.inr member)

end Openings

variable {start : Evm}

/-- Whatever is occupied in a visited state was so from the start, or has been deployed. -/
theorem settles_of_reaches (indexed : start.state.SnapshotsIndexed)
    (reaches : (machine host).Reaches start history evm) : Settles host history start evm := by
  refine Machine.reaches_relates (Settles host) (fun evm => evm.state.SnapshotsIndexed)
    (fun _ _ occupied => .inl occupied) Settles.trans settles_of_resolves ?_ ?_ reaches
  · intro visited reached reaches _
    exact indexed_of_reaches indexed reaches
  · intro state kept child running _ enters account occupied
    -- Opening a frame occupies nothing.
    obtain ⟨rfl, opened⟩ := opened_of_enters enters
    exact .inl (opened.occupied occupied.opening)

/-- The same for the state in which a run ends. -/
theorem settles_of_trace {fuel : Nat} (indexed : start.state.SnapshotsIndexed)
    (traced : (machine host).trace fuel start = .value (history, result, last)) :
    Settles host history start last := by
  refine Machine.trace_relates (Settles host) (fun evm => evm.state.SnapshotsIndexed)
    (fun _ _ occupied => .inl occupied) Settles.trans settles_of_resolves fuel ?_ traced
  intro visited reached reaches _
  exact indexed_of_reaches indexed reaches

end Occupation

section Keeping

/-- Both the fork and the old map know no other code of an account than this one. -/
structure CodeIs (account : Address) (code : Bytes) (evm : Evm) : Prop where
  read : evm.state.getCode account = code ∨ evm.state.getCode account = []
  listed : ∀ other, evm.contracts.lookup account = some other → other = code

/--
No other code comes to an account, and its own is lost by a removal only.

An account can be removed only if it was among the new ones from the start.
-/
structure KeepsCode (account : Address) (code : Bytes) (history : History Evm ExecutionResult)
    (before after : Evm) : Prop where
  marked : account ∈ after.createdInTransaction → account ∈ before.createdInTransaction
  removed : removedIn history account = true → account ∈ before.createdInTransaction
  codeIs : CodeIs account code before → CodeIs account code after
  lost : CodeIs account code before → after.state.getCode account = [] →
    before.state.getCode account = [] ∨ removedIn history account = true

variable {host : Host} {evm after child mid last : Evm} {account : Address} {code : Bytes}
  {history kept : History Evm ExecutionResult} {result outcome : ExecutionResult}

theorem KeepsCode.refl (evm : Evm) : KeepsCode account code [] evm evm where
  marked := id
  removed := fun never => by cases never
  codeIs := id
  lost := fun _ bare => .inl bare

theorem KeepsCode.trans {first second : History Evm ExecutionResult} {a b c : Evm}
    (one : KeepsCode account code first a b) (other : KeepsCode account code second b c) :
    KeepsCode account code (first ++ second) a c where
  marked := fun member => one.marked (other.marked member)
  removed := by
    intro removed
    rw [removedIn_append, Bool.or_eq_true] at removed
    exact removed.elim one.removed fun later => one.marked (other.removed later)
  codeIs := fun is => other.codeIs (one.codeIs is)
  lost := by
    intro is bare
    rw [removedIn_append, Bool.or_eq_true]
    -- Either the code was gone in the middle already, or the second part has lost it.
    rcases other.lost (one.codeIs is) bare with middle | later
    · exact (one.lost is middle).imp_right .inl
    · exact .inr (.inr later)

/-- A step that removes nothing may be added to the history. -/
theorem KeepsCode.snoc {done : Transition Evm ExecutionResult}
    (keeps : KeepsCode account code history evm after) (other : ¬ Removes account done) :
    KeepsCode account code (history ++ [done]) evm after := by
  have same : removedIn (history ++ [done]) account = removedIn history account := by
    rw [← removes_iff, Bool.not_eq_true] at other
    simp [removedIn, other]
  exact ⟨keeps.marked, same ▸ keeps.removed, keeps.codeIs, same ▸ keeps.lost⟩

/-- A step that touches neither the code nor the marks of an account keeps its code. -/
theorem KeepsCode.of_same (marked : account ∈ after.createdInTransaction →
      account ∈ evm.createdInTransaction)
    (read : after.state.getCode account = evm.state.getCode account)
    (listed : after.contracts.lookup account = evm.contracts.lookup account) :
    KeepsCode account code [⟨evm, result, after⟩] evm after where
  marked := marked
  removed := by
    intro removed
    -- Only a marked account can have been removed.
    simp only [removedIn, List.any_cons, List.any_nil, Bool.or_false] at removed
    exact (removes_iff.mp removed).created
  codeIs := fun is => ⟨by rw [read]; exact is.read, by rw [listed]; exact is.listed⟩
  lost := fun _ bare => .inl (by rw [← read, bare])

/-- The copy puts no code there but the one that both sides know. -/
theorem CodeIs.opening (is : CodeIs account code child) :
    CodeIs account code (syncLegacyStateIntoFork child) ∧
      ((syncLegacyStateIntoFork child).state.getCode account = [] →
        child.state.getCode account = []) := by
  rw [getCode_syncLegacyStateIntoFork]
  -- The map may list the code of the account, which then is the one that is read.
  cases found : child.contracts.lookup account with
  | none => exact ⟨⟨by rw [getCode_syncLegacyStateIntoFork, found]; exact is.read, is.listed⟩, id⟩
  | some other =>
    obtain rfl := is.listed other found
    refine ⟨⟨.inl (by rw [getCode_syncLegacyStateIntoFork, found]; rfl), is.listed⟩, ?_⟩
    rintro rfl
    exact is.read.elim id id

/-- What a step does by itself keeps code, and takes it away by a removal only. -/
theorem Effect.keepsCode {op : Opcode} (decoded : evm.opcode = some op)
    (effect : Effect evm op after) : KeepsCode account code [⟨evm, .halt, after⟩] evm after := by
  have marked : account ∈ after.createdInTransaction → account ∈ evm.createdInTransaction := by
    rw [effect.createdInTransaction]
    exact id
  cases effect with
  | plain _ drift => exact .of_same marked (by rw [drift.state]) (by rw [drift.contracts])
  | sstore _ _ drift =>
    refine .of_same marked ?_ (by rw [← drift.contracts])
    rw [← drift.state]
    exact StateFork.getCode_setStorage _ _ _ _ _
  | tstore _ _ drift =>
    refine .of_same marked ?_ (by rw [← drift.contracts])
    rw [← drift.state]
    rfl
  | log _ drift => exact .of_same marked (by rw [← drift.state]) (by rw [← drift.contracts])
  | @selfdestruct mid word _ _ _ drift =>
    have swept := getCode_sweepBalance mid.state mid.selfAddress (accountAddress word) account
    by_cases removes : account = mid.selfAddress ∧ account ∈ mid.createdInTransaction
    · -- The account is gone from the fork and from the old map.
      obtain ⟨rfl, created⟩ := removes
      have bare : (destroyAccount mid (accountAddress word)).state.getCode mid.selfAddress = [] := by
        simp only [destroyAccount, if_pos created, removeAccount, StateFork.getCode]
        rw [StateFork.getAccount_erase, if_pos rfl]
      have unlisted : (destroyAccount mid (accountAddress word)).contracts.lookup
          mid.selfAddress = none := by
        simp only [destroyAccount, if_pos created, removeAccount]
        exact AList.lookup_erase _ _
      have own := drift.createdInTransaction ▸ created
      -- The step itself is the removal that the history shows.
      have gone : Removes mid.selfAddress
          ⟨evm, .halt, destroyAccount mid (accountAddress word)⟩ :=
        ⟨decoded, drift.selfAddress.symm, own, rfl⟩
      exact {
        marked
        removed := fun _ => own
        codeIs := fun _ => ⟨.inr bare, fun other found => by rw [unlisted] at found; cases found⟩
        lost := fun _ _ => .inr (by simp [removedIn, removes_iff.mpr gone]) }
    · -- Another account may be removed, but not this one.
      refine .of_same marked ?_ ?_
      · rw [← drift.state]
        simp only [destroyAccount]
        split
        · rename_i created
          have other : account ≠ mid.selfAddress := fun same => removes ⟨same, same ▸ created⟩
          rw [← swept]
          show (StateFork.getAccount _ _).code = (StateFork.getAccount _ _).code
          rw [removeAccount, StateFork.getAccount_erase, if_neg other]
        · exact swept
      · rw [← drift.contracts]
        simp only [destroyAccount]
        split
        · rename_i created
          exact AList.lookup_erase_ne fun same => removes ⟨same, same ▸ created⟩
        · rfl

section Steps

variable {survives : ExecutionResult → Evm → Bool}
  {resume : ExecutionResult → Evm → Tree Evm ExecutionResult Fault Unit}

/-- A frame is opened with the code, the contracts and the marks of its opener. -/
theorem Opened.same (opened : Opened host evm child) (account : Address) :
    child.state.getCode account = evm.state.getCode account ∧
      child.contracts = evm.contracts ∧
      child.createdInTransaction = evm.createdInTransaction := by
  cases opened with
  | call opening =>
    refine ⟨?_, opening.drift.contracts, opening.drift.createdInTransaction⟩
    rw [← opening.drift.state]
    rfl
  | create opening =>
    refine ⟨?_, opening.drift.contracts, opening.drift.createdInTransaction⟩
    rw [getCode_createdFrame, opening.drift.state]

/-- An opener has the marks it had and those of the frame below, beside the one it creates. -/
theorem Resumes.marked (resumes : Resumes host evm outcome last child survives result after)
    (begins : step host evm = .enter child survives resume)
    (other : ∀ input, creationInput host evm = some input → derivedAddress host input ≠ account)
    (member : account ∈ after.createdInTransaction) :
    account ∈ evm.createdInTransaction ∨ account ∈ last.createdInTransaction := by
  cases resumes with
  | @called _ delegate setup mid _ _ opening quiet =>
    rw [quiet.createdInTransaction] at member
    -- A call takes over the marks of a callee that succeeded, and of no other.
    unfold afterCall mergeCall at member
    split at member
    · exact .inr member
    · exact .inl (opening.drift.createdInTransaction ▸ member)
  | created opening quiet _ =>
    obtain ⟨input, derives, address⟩ := creationInput_of_opening opening begins
    rw [quiet.createdInTransaction, marked_afterCreate, opening.drift.createdInTransaction] at member
    refine member.resolve_left fun here => other input derives ?_
    rw [address, here.2]

/-- A step that opens a frame removes nothing by itself. -/
theorem Resumes.not_removes
    (resumes : Resumes host evm outcome last child survives result after) :
    ¬ Removes account ⟨evm, result, after⟩ := by
  cases resumes with
  -- Removals have an opcode of their own.
  | @called forceStatic delegate setup mid _ _ opening _ =>
    apply not_removes_of_opcode opening.opcode
    cases forceStatic <;> cases delegate <;> rfl
  | @created value salt initCode mid _ _ opening _ _ =>
    apply not_removes_of_opcode opening.opcode
    cases salt <;> rfl

/-- A step that does not create the account keeps its code, if the frame below does. -/
theorem keepsCode_of_resolves (running : (machine host).running evm = true)
    (allowed : evm.state.SnapshotsIndexed ∧ ∀ input, creationInput host evm = some input →
      derivedAddress host input ≠ account)
    (resolved : (step host evm).Resolves .halt
      ((machine host).Within (KeepsCode account code)) kept result after) :
    KeepsCode account code (kept ++ [⟨evm, result, after⟩]) evm after := by
  obtain ⟨indexed, other⟩ := allowed
  cases stepEnds_of_resolves running resolved with
  | alone closed ends =>
    rcases ends with ⟨drift, _⟩ | ⟨op, decoded, effect, rfl⟩
    · exact .of_same (by rw [drift.createdInTransaction]; exact id) (by rw [drift.state])
        (by rw [drift.contracts])
    · exact effect.keepsCode decoded
  | @resumed child survives resume history outcome last _ _ begins within resumes =>
    obtain ⟨stop, _, keeps, rfl⟩ := within
    obtain ⟨read, contracts, marks⟩ := resumes.opened.same account
    obtain ⟨listed, takesOver⟩ := resumes.elsewhere begins other
    -- A mark was there before, or was made by the frame below.
    have marked : account ∈ after.createdInTransaction → account ∈ evm.createdInTransaction := by
      intro member
      refine (resumes.marked begins other member).elim id fun inside => ?_
      rw [machine_closing, syncForkIntoLegacyState_createdInTransaction] at inside
      rw [← marks]
      exact keeps.marked inside
    cases succeeded : survives outcome ((machine host).closing stop) with
    | false =>
      obtain ⟨state, _⟩ := resumes.fails indexed succeeded
      exact .of_same marked (by rw [state]) listed
    | true =>
      -- The opener has the code that the frame below has left.
      have taken := takesOver succeeded
      rw [machine_closing, syncForkIntoLegacyState_state] at taken
      -- The frame starts from the same code, which the copy cannot change.
      have entered : CodeIs account code evm → CodeIs account code child := by
        intro is
        exact ⟨by rw [read]; exact is.read, by rw [contracts]; exact is.listed⟩
      have inside : KeepsCode account code history evm after := {
        marked
        removed := fun removed => by rw [← marks]; exact keeps.removed removed
        codeIs := fun is => by
          have ended := keeps.codeIs (entered is).opening.1
          exact ⟨by rw [taken]; exact ended.read, by rw [listed]; exact is.listed⟩
        lost := fun is bare => by
          rw [taken] at bare
          refine (keeps.lost (entered is).opening.1 bare).imp_left fun opened => ?_
          rw [← read]
          exact (entered is).opening.2 opened }
      exact inside.snoc resumes.not_removes

/-- A creation whose constructor succeeded leaves the same code in the fork and in the old map. -/
theorem Resumes.installs {input : Bytes}
    (resumes : Resumes host evm outcome last child survives result after)
    (begins : step host evm = .enter child survives resume)
    (derives : creationInput host evm = some input) (succeeded : survives outcome last = true) :
    ∃ code, after.state.getCode (derivedAddress host input) = code ∧
      after.contracts.lookup (derivedAddress host input) = some code := by
  cases resumes with
  | called opening _ =>
    rw [creationInput_of_call opening] at derives
    cases derives
  | @created value salt initCode mid _ _ opening quiet _ =>
    obtain ⟨found, derives', address⟩ := creationInput_of_opening opening begins
    obtain rfl := Option.some.inj (derives.symm.trans derives')
    -- The same bytes are written into both.
    obtain ⟨code, gasLeft, _, commits⟩ := afterCreate_commits succeeded
    rw [address, quiet.state, quiet.contracts, commits]
    refine ⟨code, ?_, AList.lookup_insert _⟩
    show (last.state.setCode _ code).getCode _ = code
    rw [StateFork.getCode_setCode, if_pos rfl]

/-- Nothing that a run does from here on derives the address of this account. -/
def Underivable (host : Host) (account : Address) (start : Evm) : Prop :=
  ∀ visited reached, (machine host).Reaches start visited reached →
    (machine host).running reached = true → ∀ input, creationInput host reached = some input →
      derivedAddress host input ≠ account

/-- A whole run keeps the code of an account that it does not create. -/
theorem keepsCode_of_trace {fuel : Nat} {start : Evm} (code : Bytes)
    (indexed : start.state.SnapshotsIndexed)
    (underivable : Underivable host account start)
    (traced : (machine host).trace fuel start = .value (history, result, last)) :
    KeepsCode account code history start last := by
  refine Machine.trace_relates (KeepsCode account code) (fun evm => evm.state.SnapshotsIndexed ∧
      ∀ input, creationInput host evm = some input → derivedAddress host input ≠ account)
    KeepsCode.refl KeepsCode.trans keepsCode_of_resolves fuel ?_ traced
  intro visited reached reaches running
  exact ⟨indexed_of_reaches indexed reaches, underivable visited reached reaches running⟩

/-- One step keeps the code of an account that neither it nor the frame below creates. -/
theorem keepsCode_of_steps (code : Bytes) (indexed : evm.state.SnapshotsIndexed)
    (underivable : Underivable host account evm)
    (steps : (machine host).Steps evm kept result after) :
    KeepsCode account code (kept ++ [⟨evm, result, after⟩]) evm after := by
  have allowed : ∀ visited reached, (machine host).Reaches evm visited reached →
      (machine host).running reached = true → reached.state.SnapshotsIndexed ∧
        ∀ input, creationInput host reached = some input → derivedAddress host input ≠ account := by
    intro visited reached reaches running
    exact ⟨indexed_of_reaches indexed reaches, underivable visited reached reaches running⟩
  -- The frame below is a run like any other, so what a run keeps it keeps.
  refine keepsCode_of_resolves steps.1 (allowed _ evm .refl steps.1) ?_
  exact steps.2.mono (Machine.within_of_opened (KeepsCode account code) _ KeepsCode.refl
    KeepsCode.trans keepsCode_of_resolves allowed .refl steps.1)

/-- The same for every state that a run visits. -/
theorem keepsCode_of_reaches {start : Evm} (code : Bytes)
    (indexed : start.state.SnapshotsIndexed)
    (underivable : Underivable host account start)
    (reaches : (machine host).Reaches start history evm) :
    KeepsCode account code history start evm := by
  refine Machine.reaches_relates (KeepsCode account code) (fun evm => evm.state.SnapshotsIndexed ∧
      ∀ input, creationInput host evm = some input → derivedAddress host input ≠ account)
    KeepsCode.refl KeepsCode.trans keepsCode_of_resolves ?_ ?_ reaches
  · intro visited reached reaches running
    exact ⟨indexed_of_reaches indexed reaches, underivable visited reached reaches running⟩
  · intro state kept child running _ enters
    -- Entering a frame copies the contracts of the opener, among them that of the account.
    obtain ⟨rfl, opened⟩ := opened_of_enters enters
    obtain ⟨read, contracts, marks⟩ := opened.same account
    have entered : CodeIs account code state → CodeIs account code child := by
      intro is
      exact ⟨by rw [read]; exact is.read, by rw [contracts]; exact is.listed⟩
    exact {
      marked := fun member => marks ▸ member
      removed := fun never => by cases never
      codeIs := fun is => (entered is).opening.1
      lost := fun is bare => .inl (by rw [← read]; exact (entered is).opening.2 bare) }

end Steps

end Keeping

end MiniEvm
