import MiniEvm.Proofs.Vm.Deployments
import MiniEvm.Proofs.Vm.Identity

/-! Accounts without code: no code acts for them, and nobody else touches their nonces. -/

namespace MiniEvm

open Frames

section Idleness

variable {host : Host} {start evm child after last : Evm} {account : Address}
  {history kept : History Evm ExecutionResult} {result : ExecutionResult}

/-- No creation among these steps derives the address of the account. -/
def Avoids (host : Host) (account : Address) (history : History Evm ExecutionResult) : Prop :=
  ∀ done ∈ history, ∀ input, creationInput host done.before = some input →
    derivedAddress host input ≠ account

/-- What avoids an account in both parts avoids it in the whole. -/
theorem Avoids.append {first second : History Evm ExecutionResult}
    (one : Avoids host account first) (other : Avoids host account second) :
    Avoids host account (first ++ second) := by
  intro done member
  rcases List.mem_append.mp member with left | right
  · exact one done left
  · exact other done right

/-- Nothing is put at an account that is avoided. -/
theorem Avoids.not_deployedIn (avoids : Avoids host account history) :
    ¬ DeployedIn host history account := by
  rintro ⟨done, member, _, input, derives, address⟩
  exact avoids done member input derives address

/-- One step avoids an account that it does not derive, as soon as the frame below it does. -/
theorem avoids_of_resolves (running : (machine host).running evm = true)
    (elsewhere : ∀ input, creationInput host evm = some input →
      derivedAddress host input ≠ account)
    (resolved : (step host evm).Resolves .halt
      ((machine host).Within fun history _ _ => Avoids host account history) kept result after) :
    Avoids host account (kept ++ [⟨evm, result, after⟩]) := by
  have own : Avoids host account [⟨evm, result, after⟩] := by
    intro done member
    obtain rfl := List.mem_singleton.mp member
    exact elsewhere
  refine Avoids.append ?_ own
  cases stepEnds_of_resolves running resolved with
  | alone _ _ => exact fun _ never => nomatch never
  | resumed _ within _ =>
    obtain ⟨_, _, below, _⟩ := within
    -- The steps of a frame that failed are not kept.
    split
    · exact below
    · exact fun _ never => nomatch never

/-- A run that derives the address nowhere leaves the account as free as it was. -/
theorem free_of_trace {fuel : Nat} (indexed : start.state.SnapshotsIndexed)
    (underivable : Underivable host account start)
    (traced : (machine host).trace fuel start = .value (history, result, last))
    (free : ¬ Occupied account start) : ¬ Occupied account last := by
  -- No step derives the address, and so none of the frames below does.
  have avoids : Avoids host account history :=
    Machine.trace_relates (fun history _ _ => Avoids host account history)
      (fun evm => ∀ input, creationInput host evm = some input →
        derivedAddress host input ≠ account)
      (fun _ _ never => nomatch never) Avoids.append avoids_of_resolves fuel underivable traced
  intro occupied
  exact (settles_of_trace indexed traced account occupied).elim free avoids.not_deployedIn

/-- The same for every state that the run visits. -/
theorem free_of_reaches (indexed : start.state.SnapshotsIndexed)
    (underivable : Underivable host account start)
    (reaches : (machine host).Reaches start history evm)
    (free : ¬ Occupied account start) : ¬ Occupied account evm := by
  have avoids : Avoids host account history := by
    refine Machine.reaches_relates (fun history _ _ => Avoids host account history)
      (fun evm => ∀ input, creationInput host evm = some input →
        derivedAddress host input ≠ account)
      (fun _ _ never => nomatch never) Avoids.append avoids_of_resolves underivable ?_ reaches
    intro state kept child _ _ enters
    -- Nothing has been completed when a frame is opened.
    obtain ⟨rfl, _⟩ := opened_of_enters enters
    exact fun _ never => nomatch never
  intro occupied
  exact (settles_of_reaches indexed reaches account occupied).elim free avoids.not_deployedIn

/-- A frame that is opened for an account without code has no code to run. -/
theorem Opened.idle (opened : Opened host evm child) (free : ¬ Occupied account evm)
    (busy : account ≠ evm.selfAddress)
    (elsewhere : ∀ input, creationInput host evm = some input →
      derivedAddress host input ≠ account)
    (begins : ∃ survives resume, step host evm = .enter child survives resume)
    (own : child.selfAddress = account) : child.code = [] := by
  have bare : evm.state.getCode account = [] := by
    by_contra coded
    exact free (.inl coded)
  cases opened with
  | @call forceStatic delegate setup mid opening =>
    have code : (calledFrame mid delegate setup).code = mid.state.getCode setup.frame.target := rfl
    -- The frame runs the code of its target, which is the account that it acts as.
    have target : setup.frame.target = account := by
      have shown : (calledFrame mid delegate setup).selfAddress =
          if (if delegate then mid.selfAddress else setup.frame.target) = 0 then setup.frame.target
          else if delegate then mid.selfAddress else setup.frame.target := rfl
      rw [shown] at own
      cases delegate with
      | false => simpa using own
      | true =>
        simp only [if_true] at own
        split at own
        · exact own
        · exact absurd (own.symm.trans opening.drift.selfAddress) busy
    rw [code, target, opening.drift.state, bare]
  | @create value salt initCode mid opening =>
    -- A constructor runs at the derived address, which is another.
    obtain ⟨survives, resume, begins⟩ := begins
    obtain ⟨input, derives, address⟩ := creationInput_of_opening opening begins
    rw [createdFrame_selfAddress] at own
    exact absurd (address.trans own) (elsewhere input derives)

/-- No code acts for an account without code, unless something is deployed there. -/
theorem idle_of_reaches (indexed : start.state.SnapshotsIndexed)
    (underivable : Underivable host account start) (free : ¬ Occupied account start)
    (idle : start.selfAddress = account → start.code = [])
    (reaches : (machine host).Reaches start history evm) :
    evm.selfAddress = account → evm.code = [] := by
  induction reaches with
  | refl => exact idle
  | step reaches steps ih =>
    -- A step stays in its frame.
    have same := (stepsTo_of_resolves steps.1 steps.2).sameFrame
    rw [same.selfAddress, same.code]
    exact ih
  | @enter history state kept child reaches opens ih =>
    obtain ⟨_, opened, begins⟩ := begins_of_enters opens.2
    have busy : account ≠ state.selfAddress := by
      rintro rfl
      have running := opens.1
      simp [machine, ih rfl] at running
    exact opened.idle (free_of_reaches indexed underivable reaches free) busy
      (underivable _ _ reaches opens.1) begins

/-- So whatever runs acts for somebody else. -/
theorem acts_for_others (indexed : start.state.SnapshotsIndexed)
    (underivable : Underivable host account start) (free : ¬ Occupied account start)
    (idle : start.selfAddress = account → start.code = [])
    (reaches : (machine host).Reaches start history evm)
    (running : (machine host).running evm = true) : account ≠ evm.selfAddress := by
  rintro rfl
  have bare := idle_of_reaches indexed underivable free idle reaches rfl
  simp [machine, bare] at running

end Idleness

section Standstill

variable {host : Host} {evm after : Evm} {account : Address} {nonce : Nat}
  {kept : History Evm ExecutionResult} {result : ExecutionResult}

/-- The fork has this nonce for the account, and the old map has no other one. -/
structure NonceIs (account : Address) (nonce : Nat) (evm : Evm) : Prop where
  fork : evm.state.nonceOf account = nonce
  map : ∀ listed, evm.nonces.lookup account = some listed → listed = nonce

/-- Reading the fork back lists the nonce that the fork has. -/
theorem NonceIs.closing (stands : NonceIs account nonce evm) :
    NonceIs account nonce (syncForkIntoLegacyState host evm) := by
  constructor
  · rw [syncForkIntoLegacyState_state]
    exact stands.fork
  · unfold syncForkIntoLegacyState
    refine List.foldlRecOn (motive := fun state : Evm =>
      ∀ listed, state.nonces.lookup account = some listed → listed = nonce) _ _ stands.map ?_
    intro state before entry member listed found
    simp only [readBackAccount] at found
    by_cases same : account = entry.1
    · subst same
      rw [AList.lookup_insert] at found
      obtain rfl := Option.some.inj found
      -- The entry that is read back is the account as the fork has it.
      have reads : evm.state.nonceOf entry.1 = entry.2.nonce := by
        rw [StateFork.nonceOf, getAccount_of_mem_order member]
      rw [← reads]
      exact stands.fork
    · rw [AList.lookup_insert_ne same] at found
      exact before listed found

/-- A drift of another account's frame keeps the nonce. -/
theorem NonceIs.of_drift (stands : NonceIs account nonce evm) (drift : Drift evm after)
    (other : account ≠ evm.selfAddress) : NonceIs account nonce after where
  fork := by
    rw [drift.state]
    exact stands.fork
  map := by
    rw [drift.nonces account other]
    exact stands.map

/-- What a frame does by itself leaves the nonces of others alone. -/
theorem NonceIs.of_effect {op : Opcode} (stands : NonceIs account nonce evm)
    (decoded : evm.opcode = some op) (effect : Effect evm op after)
    (other : account ≠ evm.selfAddress) : NonceIs account nonce after where
  fork := by
    rw [effect.nonceOf decoded fun removes => other removes.own.symm]
    exact stands.fork
  map := by
    cases effect with
    | plain _ drift => exact (stands.of_drift drift other).map
    | sstore _ _ drift | tstore _ _ drift | log _ drift =>
      exact (stands.of_drift drift other).map
    | @selfdestruct mid word _ _ _ drift =>
      -- Only the entry of the account that acts is taken out.
      simp only [destroyAccount]
      split
      · simp only [removeAccount]
        rw [AList.lookup_erase_ne (by rwa [drift.selfAddress])]
        exact (stands.of_drift drift other).map
      · exact (stands.of_drift drift other).map

/-- A quiet change keeps the nonce. -/
theorem NonceIs.of_quiet (stands : NonceIs account nonce evm) (quiet : Quiet evm after) :
    NonceIs account nonce after where
  fork := by
    rw [quiet.state]
    exact stands.fork
  map := by
    rw [quiet.nonces]
    exact stands.map

section Merges

variable {forceStatic delegate : Bool} {setup : CallSetup} {mid last : Evm} {value : Word}
  {salt : Option Word} {initCode : Bytes} {outcome : ExecutionResult}

/-- A called frame starts with the same nonce. -/
theorem NonceIs.calledFrame (stands : NonceIs account nonce evm)
    (opening : CallOpening evm forceStatic delegate setup mid) :
    NonceIs account nonce ((machine host).opening (calledFrame mid delegate setup)) where
  fork := (nonceOf_calledFrame opening account).trans stands.fork
  map := fun _ never => nomatch never

/-- A caller takes over the fork of its callee or keeps its own, and keeps its map. -/
theorem NonceIs.afterCall (ready : NonceIs account nonce mid)
    (indexed : mid.state.SnapshotsIndexed) (ended : last.state.nonceOf account = nonce) :
    NonceIs account nonce (afterCall mid outcome last) where
  fork := by
    cases succeeded : outcome.isSuccess with
    | true =>
      rw [afterCall_of_success succeeded]
      exact ended
    | false =>
      rw [afterCall_of_failure indexed.fresh succeeded]
      exact ready.fork
  map := by
    simp only [MiniEvm.afterCall, mergeCall]
    split <;> exact ready.map

/-- The bump of a creator is an entry of its own. -/
theorem NonceIs.reserved (ready : NonceIs account nonce mid) (other : account ≠ mid.selfAddress)
    (listed : Nat) (found : (mid.nonces.insert mid.selfAddress
      (saturatingAdd (mid.legacyNonce mid.selfAddress) 1)).lookup account = some listed) :
    listed = nonce := by
  rw [AList.lookup_insert_ne other] at found
  exact ready.map listed found

/-- A creation raises that of its creator only. -/
theorem NonceIs.createdFrame (ready : NonceIs account nonce mid)
    (other : account ≠ mid.selfAddress) :
    NonceIs account nonce ((machine host).opening (createdFrame host mid value salt initCode)) where
  fork := by
    show (syncLegacyStateIntoFork (MiniEvm.createdFrame host mid value salt initCode)).state.nonceOf
      account = nonce
    rw [nonceOf_syncLegacyStateIntoFork]
    cases here : (MiniEvm.createdFrame host mid value salt initCode).nonces.lookup account with
    | some listed => exact ready.reserved other listed here
    | none =>
      -- Funding the creation moves ether only.
      show ((mid.state.snapshot.2.setBalance _ _).setBalance _ _).nonceOf account = nonce
      rw [StateFork.nonceOf_setBalance, StateFork.nonceOf_setBalance]
      exact ready.fork
  map := ready.reserved other

/-- A creator takes over the fork and the map of its constructor, or keeps its own. -/
theorem NonceIs.afterCreate (ready : NonceIs account nonce mid)
    (other : account ≠ mid.selfAddress) (indexed : mid.state.SnapshotsIndexed)
    (ended : NonceIs account nonce last) :
    NonceIs account nonce (afterCreate host mid value salt initCode outcome last).2 := by
  cases succeeded : createSucceeds host mid value salt initCode outcome last with
  | true =>
    obtain ⟨code, state, _⟩ := afterCreate_of_success succeeded
    obtain ⟨_, gasLeft, _, commits⟩ := afterCreate_commits succeeded
    constructor
    · rw [state, StateFork.nonceOf_setCode]
      exact ended.fork
    · rw [commits]
      exact ended.map
  -- What a failed creation leaves behind is the nonce of its creator, another account.
  | false =>
    constructor
    · rw [(afterCreate_of_failure indexed.fresh succeeded).1]
      exact ready.fork
    · rw [afterCreate_abandons succeeded]
      exact ready.reserved other

end Merges

/-- A step on behalf of another account leaves the nonce, as soon as the frame below it does. -/
theorem nonceIs_of_resolves (running : (machine host).running evm = true)
    (allowed : evm.state.SnapshotsIndexed ∧ account ≠ evm.selfAddress)
    (resolved : (step host evm).Resolves .halt ((machine host).Within fun _ before after =>
      NonceIs account nonce before → NonceIs account nonce after) kept result after)
    (stands : NonceIs account nonce evm) : NonceIs account nonce after := by
  obtain ⟨indexed, other⟩ := allowed
  -- Only a step that opens a frame has more to it than its own effect.
  cases stepEnds_of_resolves running resolved with
  | alone closed ends =>
    rcases ends with ⟨drift, _⟩ | ⟨op, decoded, effect, _⟩
    · exact stands.of_drift drift other
    · exact stands.of_effect decoded effect other
  | resumed begins within resumes =>
    obtain ⟨stop, _, keeps, rfl⟩ := within
    cases resumes with
    | @called _ delegate setup mid _ _ opening quiet =>
      have ready := stands.of_drift opening.drift other
      have ended : NonceIs account nonce (syncForkIntoLegacyState host stop) :=
        (keeps (stands.calledFrame opening)).closing
      rw [← opening.drift.state] at indexed
      exact (ready.afterCall indexed ended.fork).of_quiet quiet
    | @created value salt initCode mid _ _ opening quiet _ =>
      have ready := stands.of_drift opening.drift other
      have apart : account ≠ mid.selfAddress := by rwa [opening.drift.selfAddress]
      have ended : NonceIs account nonce (syncForkIntoLegacyState host stop) :=
        (keeps (ready.createdFrame apart)).closing
      rw [← opening.drift.state] at indexed
      exact (ready.afterCreate apart indexed ended).of_quiet quiet

/-- A run in which no code acts for an account leaves its nonce alone. -/
theorem nonceOf_of_trace {fuel : Nat} {start last : Evm} {history : History Evm ExecutionResult}
    (indexed : start.state.SnapshotsIndexed) (unlisted : start.nonces = ∅)
    (others : ∀ visited reached, (machine host).Reaches start visited reached →
      (machine host).running reached = true → account ≠ reached.selfAddress)
    (traced : (machine host).trace fuel start = .value (history, result, last)) :
    last.state.nonceOf account = start.state.nonceOf account := by
  -- The map lists nothing yet, so that the fork alone counts.
  have started : NonceIs account (start.state.nonceOf account) start := by
    refine ⟨rfl, fun listed found => ?_⟩
    rw [unlisted] at found
    cases found
  refine (Machine.trace_relates
    (fun _ before after => NonceIs account _ before → NonceIs account _ after)
    (fun evm => evm.state.SnapshotsIndexed ∧ account ≠ evm.selfAddress)
    (fun _ stands => stands) (fun first second stands => second (first stands))
    nonceIs_of_resolves fuel ?_ traced started).fork
  intro visited reached reaches running
  exact ⟨indexed_of_reaches indexed reaches, others visited reached reaches running⟩

end Standstill

section Transactions

variable {host : Host} {fuel : Nat} {state after : StateFork} {tx : SignedTransaction}
  {account : Address} {answer : Except ExecutionError TxExecutionReceipt}

/-- A nonce is followed by the next number, or by zero at the end of its width. -/
theorem bumpNonce_mod {nonce bumped : Nat} (bumps : bumpNonce host nonce = .value bumped) :
    bumped = (nonce + 1) % 2 ^ 64 := by
  unfold bumpNonce at bumps
  split at bumps
  · rename_i fits
    cases bumps
    rw [u64Max] at fits
    omega
  · split at bumps
    · cases bumps
    · cases bumps
      rfl

/-- Charging an accepted transaction takes the next nonce of its sender, and nobody else's. -/
theorem nonceOf_charged {bumped : Nat} (accepted : rejection state tx = none)
    (bumps : bumpNonce host tx.nonce = .value bumped) (account : Address) :
    (chargeSender state tx bumped).nonceOf account =
      if account = tx.sender then (state.nonceOf account + 1) % 2 ^ 64
      else state.nonceOf account := by
  rw [nonceOf_chargeSender]
  split
  · rename_i own
    have nonce : tx.nonce = state.nonceOf account := by
      rw [own]
      exact nonce_of_accepted accepted
    rw [← nonce]
    exact bumpNonce_mod bumps
  · rfl

/-- Nothing that a transaction creates is put at this account. -/
def CreatesElsewhere (host : Host) (state : StateFork) (tx : SignedTransaction)
    (account : Address) : Prop :=
  ∀ vm, executedFrame host state tx = some vm →
    Underivable host account (syncLegacyStateIntoFork vm)

/-- An abort leaves all code as it is. -/
theorem getCode_abortedState (host : Host) (state : StateFork) (tx : SignedTransaction)
    (account : Address) : (abortedState host state tx).getCode account = state.getCode account := by
  rcases abortedState_cases host state tx with ⟨bumped, _, same⟩ | ⟨_, _, same⟩
  · rw [same, getCode_chargeSender]
  · rw [same, StateFork.getCode_setBalance]

/-- The account that a transaction names runs no code if it has none. -/
theorem idle_of_executed {vm : Evm} (executed : executedFrame host state tx = some vm)
    (bare : state.getCode account = []) (own : vm.selfAddress = account) : vm.code = [] := by
  obtain ⟨bumped, rfl⟩ := executedFrame_eq_some executed
  have code : (transactionVm (chargeSender state tx bumped) tx).code =
      (tx.to_.map (chargeSender state tx bumped).getCode).getD [] := rfl
  have self : (transactionVm (chargeSender state tx bumped) tx).selfAddress = tx.to_.getD 0 :=
    selfAddress_of_same rfl rfl
  rw [self] at own
  rw [code]
  cases named : tx.to_ with
  | none => rfl
  | some target =>
    rw [named] at own
    -- The frame runs at the account that is named, and with its code.
    obtain rfl : target = account := own
    exact (getCode_chargeSender state tx bumped target).trans bare

/-- An account without code is left without code, and acted for by no code. -/
theorem free_of_executed {vm : Evm} (executed : executedFrame host state tx = some vm)
    (bare : state.getCode account = []) : ¬ Occupied account (syncLegacyStateIntoFork vm) := by
  have read := @getCode_executedFrame host ⟨[], state⟩ tx vm executed account
  obtain ⟨bumped, rfl⟩ := executedFrame_eq_some executed
  rintro (coded | listed)
  · exact coded (read.trans bare)
  · cases listed

/-- An account without code keeps to that while a transaction creates elsewhere. -/
theorem getCode_applied_of_bare (indexed : state.SnapshotsIndexed)
    (bare : state.getCode account = []) (elsewhere : CreatesElsewhere host state tx account)
    (applied : applySignedTransaction host fuel state tx = .value (answer, after)) :
    after.getCode account = [] := by
  have cases_ := @getCode_applied host ⟨[], state⟩ tx fuel answer after applied
  rcases cases_ with same | ⟨vm, result, last, executed, traced, read⟩
  · rw [same, bare]
  · obtain ⟨bumped, rfl⟩ := executedFrame_eq_some executed
    have free := free_of_trace (indexed_of_executed indexed) (elsewhere _ executed) traced
      (free_of_executed executed bare)
    rw [read]
    -- Code at the end would make the account taken, while a free one stays free.
    by_contra coded
    exact free (.inl coded)

/-- Its nonce counts its own transactions, up to the width of a nonce. -/
theorem nonceOf_applied (indexed : state.SnapshotsIndexed)
    (bare : state.getCode account = []) (elsewhere : CreatesElsewhere host state tx account)
    (applied : applySignedTransaction host fuel state tx = .value (answer, after)) :
    after.nonceOf account =
      if account = tx.sender ∧ rejection state tx = none then (state.nonceOf account + 1) % 2 ^ 64
      else state.nonceOf account := by
  rcases applySignedTransaction_cases applied with ⟨error, refused, _, rfl⟩ |
    ⟨accepted, bumped, result, vm, bumps, ran, _, rfl⟩
  · simp [refused]
  · have executed := executedFrame_of_accepted accepted bumps
    -- The charge bumps the nonce of the sender and of nobody else.
    have charged : (chargeSender state tx bumped).nonceOf account =
        if account = tx.sender ∧ rejection state tx = none then (state.nonceOf account + 1) % 2 ^ 64
        else state.nonceOf account := by
      simp only [accepted, and_true]
      exact nonceOf_charged accepted bumps account
    obtain ⟨history, last, traced, rfl⟩ := run_eq_value ran
    simp only [settledState]
    rw [StateFork.nonceOf_setBalance, ← charged]
    split
    · -- The run acts for others only, and so leaves the nonce as it was charged.
      have started : (syncLegacyStateIntoFork
          (transactionVm (chargeSender state tx bumped) tx)).state.nonceOf account =
            (chargeSender state tx bumped).nonceOf account :=
        nonceOf_syncLegacyStateIntoFork _ account
      rw [← started]
      refine nonceOf_of_trace (indexed_of_executed indexed) rfl ?_ traced
      intro visited reached reaches running
      exact acts_for_others (indexed_of_executed indexed) (elsewhere _ executed)
        (free_of_executed executed bare) (idle_of_executed executed bare) reaches running
    · rfl

end Transactions

end MiniEvm
