import Mathlib.Logic.Relation
import MiniEvm.Proofs.Vm.Codes

/-! Deployed code along a chain of transactions, and the creations that leave it alone. -/

namespace MiniEvm

open Frames

section Freshness

/--
A creation that is like no other.

Its address is free in the state that the chain started from, no creation that lasted has used its
input, and none uses it while its own constructor runs.
-/
structure FreshCreation (host : Host) (start : StateFork) (past : History Evm ExecutionResult)
    (evm : Evm) : Prop where
  vacant : ∀ input, creationInput host evm = some input →
    start.getCode (derivedAddress host input) = []
  unused : ∀ input, creationInput host evm = some input → ∀ done ∈ past, ∀ account,
    Creates account done → creationInput host done.before ≠ some input
  alone : ∀ input, creationInput host evm = some input → ∀ sofar child visited reached,
    (machine host).Opens evm sofar child →
    (machine host).Reaches (syncLegacyStateIntoFork child) visited reached →
    creationInput host reached ≠ some input

/-- The input of a creation collides with none that it has to differ from. -/
structure CollisionFree (host : Host) (past : History Evm ExecutionResult) (evm : Evm) : Prop where
  earlier : ∀ input, creationInput host evm = some input → ∀ done ∈ past, ∀ other,
    creationInput host done.before = some other →
    derivedAddress host other = derivedAddress host input → other = input
  below : ∀ input, creationInput host evm = some input → ∀ sofar child visited reached other,
    (machine host).Opens evm sofar child →
    (machine host).Reaches (syncLegacyStateIntoFork child) visited reached →
    creationInput host reached = some other →
    derivedAddress host other = derivedAddress host input → other = input

/-- A run on a chain with this past, from a frame that knows no contracts yet. -/
structure SoundRun (host : Host) (start : StateFork) (past : History Evm ExecutionResult)
    (first : Evm) : Prop where
  indexed : first.state.SnapshotsIndexed
  unlisted : first.contracts = ∅
  unmarked : first.createdInTransaction = ∅
  codes : ∀ account, first.state.getCode account ≠ [] →
    start.getCode account ≠ [] ∨ DeployedIn host past account
  fresh : ∀ visited reached, (machine host).Reaches first visited reached →
    (machine host).running reached = true → FreshCreation host start (past ++ visited) reached
  collisionFree : ∀ visited reached, (machine host).Reaches first visited reached →
    (machine host).running reached = true → CollisionFree host (past ++ visited) reached

/-- What a visited state does to code: creations find none, and only a removal takes it away. -/
structure CodeSafe (host : Host) (visited : History Evm ExecutionResult) (evm : Evm) : Prop where
  vacant : ∀ input, creationInput host evm = some input →
    evm.state.getCode (derivedAddress host input) = [] ∧
      ∀ sofar child history outcome last, (machine host).Opens evm sofar child →
        (machine host).RunsNested child history outcome last →
        last.state.getCode (derivedAddress host input) = []
  lasts : ∀ account kept result after, (machine host).Steps evm kept result after →
    evm.state.getCode account ≠ [] →
    after.state.getCode account = evm.state.getCode account ∨
      after.state.getCode account = [] ∧
        removedIn (kept ++ [⟨evm, result, after⟩]) account = true ∧
        DeployedIn host visited account

namespace SoundRun

variable {host : Host} {start : StateFork} {past visited : History Evm ExecutionResult}
  {first evm : Evm} {account : Address}

/-- What is occupied in a visited state had code in the beginning, or has been deployed. -/
theorem known (sound : SoundRun host start past first)
    (reaches : (machine host).Reaches first visited evm) (occupied : Occupied account evm) :
    start.getCode account ≠ [] ∨ DeployedIn host (past ++ visited) account := by
  -- Occupied since the run began, or by a creation of this run.
  rcases settles_of_reaches sound.indexed reaches account occupied with before | deployed
  · rcases before with coded | listed
    · exact (sound.codes account coded).imp_right DeployedIn.before
    · rw [sound.unlisted] at listed
      cases listed
  · exact .inr deployed.after

/-- No creation derives an address that is known. -/
theorem underived (sound : SoundRun host start past first)
    (reaches : (machine host).Reaches first visited evm)
    (running : (machine host).running evm = true)
    (known : start.getCode account ≠ [] ∨ DeployedIn host (past ++ visited) account) :
    ∀ input, creationInput host evm = some input → derivedAddress host input ≠ account := by
  rintro input derives rfl
  have fresh := sound.fresh visited evm reaches running
  rcases known with coded | ⟨done, member, creates, other, derived, address⟩
  · exact coded (fresh.vacant input derives)
  · -- Two creations with one address have one input.
    obtain rfl := (sound.collisionFree visited evm reaches running).earlier input derives done member
      other derived address
    exact fresh.unused other derives done member _ creates derived

/-- From a state in which an account is occupied, nothing derives its address any more. -/
theorem underivable (sound : SoundRun host start past first)
    (reaches : (machine host).Reaches first visited evm) (occupied : Occupied account evm) :
    Underivable host account evm := by
  intro later reached further running
  apply sound.underived (reaches.trans further) running
  rw [← List.append_assoc]
  exact (sound.known reaches occupied).imp_right DeployedIn.before

/-- The code that the old map has for an account is the only one that the fork can have. -/
def Consistent (evm : Evm) : Prop :=
  ∀ account code, evm.contracts.lookup account = some code → CodeIs account code evm

theorem occupied_of_lookup {code : Bytes} (found : evm.contracts.lookup account = some code) :
    Occupied account evm := .inr (AList.lookup_isSome.mp (by rw [found]; rfl))

/-- Whatever a step does by itself, the old map stays consistent with the fork. -/
theorem consistent_alone {after : Evm} {result : ExecutionResult} (consistent : Consistent evm)
    (ends : Drift evm after ∧ result ≠ .halt ∨
      ∃ op, evm.opcode = some op ∧ Effect evm op after ∧ result = .halt) : Consistent after := by
  intro account code found
  -- The account has one code before the step, be it in the map or only in the fork.
  have known : ∃ other, CodeIs account other evm := by
    -- A listed account has the listed code, and any other is read from the fork alone.
    cases here : evm.contracts.lookup account with
    | some other => exact ⟨other, consistent account other here⟩
    | none =>
      refine ⟨evm.state.getCode account, .inl rfl, fun other listed => ?_⟩
      rw [here] at listed
      cases listed
  obtain ⟨other, is⟩ := known
  have ended : CodeIs account other after := by
    rcases ends with ⟨drift, _⟩ | ⟨op, decoded, effect, _⟩
    · exact ⟨by rw [drift.state]; exact is.read, by rw [drift.contracts]; exact is.listed⟩
    · exact (effect.keepsCode decoded).codeIs is
  rw [ended.listed code found]
  exact ended

/-- Every visited state is consistent. -/
theorem consistent (sound : SoundRun host start past first)
    (reaches : (machine host).Reaches first visited evm) : Consistent evm := by
  induction reaches with
  | refl =>
    intro account code found
    rw [sound.unlisted] at found
    cases found
  | @enter history state sofar child reaches opens ih =>
    -- A frame starts with the map of its opener, and the copy makes the fork agree with it.
    obtain ⟨rfl, opened⟩ := opened_of_enters opens.2
    intro account code found
    obtain ⟨read, contracts, _⟩ := opened.same account
    have listed : child.contracts.lookup account = some code := found
    rw [contracts] at listed
    have is := ih account code listed
    have entered : CodeIs account code child :=
      ⟨by rw [read]; exact is.read, by rw [contracts]; exact is.listed⟩
    exact entered.opening.1
  | @step history state kept after reaches steps ih =>
    have indexed := indexed_of_reaches sound.indexed reaches
    cases stepEnds_of_resolves steps.1 steps.2 with
    | alone closed ends => exact consistent_alone ih ends
    | @resumed child survives resume history outcome last _ _ begins ran resumes =>
      intro account code found
      by_cases here : ∃ input, creationInput host state = some input ∧
          derivedAddress host input = account
      · obtain ⟨input, derives, rfl⟩ := here
        cases succeeded : survives outcome last with
        | true =>
          obtain ⟨installed, read, listed⟩ := resumes.installs begins derives succeeded
          obtain rfl := Option.some.inj (listed.symm.trans found)
          exact ⟨.inl read, fun _ same => (Option.some.inj (listed.symm.trans same)).symm⟩
        | false =>
          -- The map would have had the account before, and the creation would not be fresh.
          rw [(resumes.fails indexed succeeded).2] at found
          have known := sound.known reaches (occupied_of_lookup found)
          exact absurd rfl (sound.underived reaches steps.1 known input derives)
      · -- The entry is an old one, which nothing below can have created again.
        rw [(resumes.elsewhere begins fun input derives address =>
          here ⟨input, derives, address⟩).1] at found
        have underivable := sound.underivable reaches (occupied_of_lookup found)
        exact (keepsCode_of_steps code indexed underivable steps).codeIs (ih account code found)

/-- A creation finds no code at its address, neither when it starts nor when it ends. -/
theorem vacant (sound : SoundRun host start past first)
    (reaches : (machine host).Reaches first visited evm)
    (running : (machine host).running evm = true) (input : Bytes)
    (derives : creationInput host evm = some input) :
    evm.state.getCode (derivedAddress host input) = [] ∧
      ∀ sofar child history outcome last, (machine host).Opens evm sofar child →
        (machine host).RunsNested child history outcome last →
        last.state.getCode (derivedAddress host input) = [] := by
  -- An occupied address is a known one, and no creation derives it.
  have free : ¬ Occupied (derivedAddress host input) evm := by
    intro occupied
    exact sound.underived reaches running (sound.known reaches occupied) input derives rfl
  constructor
  · by_contra coded
    exact free (.inl coded)
  · intro sofar child history outcome last opens ran
    obtain ⟨_, opened⟩ := opened_of_enters opens.2
    obtain ⟨stop, ⟨fuel, traced⟩, rfl⟩ := ran
    rw [machine_closing, syncForkIntoLegacyState_state]
    by_contra coded
    have indexed := indexed_of_reaches sound.indexed (reaches.enter opens)
    rcases settles_of_trace indexed traced _ (.inl coded) with before | deployed
    · exact free (opened.occupied before.opening)
    · -- The constructor has used the input a second time.
      obtain ⟨done, member, creates, other, derived, address⟩ := deployed
      obtain ⟨seen, below⟩ := Machine.reaches_of_mem traced member
      obtain rfl := (sound.collisionFree visited evm reaches running).below input derives sofar child
        seen done.before other opens below derived address
      exact (sound.fresh visited evm reaches running).alone other derives sofar child seen
        done.before opens below derived

/-- A step keeps code, unless it removes an account that this run has deployed. -/
theorem lasts (sound : SoundRun host start past first)
    (reaches : (machine host).Reaches first visited evm) {kept : History Evm ExecutionResult}
    {result : ExecutionResult} {after : Evm} (steps : (machine host).Steps evm kept result after)
    (coded : evm.state.getCode account ≠ []) :
    after.state.getCode account = evm.state.getCode account ∨
      after.state.getCode account = [] ∧
        removedIn (kept ++ [⟨evm, result, after⟩]) account = true ∧
        DeployedIn host visited account := by
  have indexed := indexed_of_reaches sound.indexed reaches
  -- The map cannot list another code, because the two are consistent.
  have is : CodeIs account (evm.state.getCode account) evm := by
    refine ⟨.inl rfl, fun other found => ?_⟩
    exact ((sound.consistent reaches account other found).read.resolve_right coded).symm
  have keeps := keepsCode_of_steps (evm.state.getCode account) indexed
    (sound.underivable reaches (.inl coded)) steps
  rcases (keeps.codeIs is).read with same | bare
  · exact .inl same
  · -- Code that is gone after the step was taken away by a removal.
    have removed := (keeps.lost is bare).resolve_left coded
    refine .inr ⟨bare, removed, ?_⟩
    -- An account that had code when the run began is never marked as new.
    refine (settles_of_reaches sound.indexed reaches account (.inl coded)).resolve_left fun old => ?_
    have untouched := keepsCode_of_reaches [] sound.indexed (sound.underivable .refl old) reaches
    have marked := untouched.marked (keeps.removed removed)
    rw [sound.unmarked] at marked
    cases marked

end SoundRun

end Freshness

section Chains

/-- A chain of transactions: the completed steps that lasted so far, and the state. -/
structure Ledger where
  past : History Evm ExecutionResult
  state : StateFork

/-- Every creation of a transaction is fresh, and its input collides with no other. -/
def CreatesFresh (host : Host) (start : StateFork) (ledger : Ledger) (tx : SignedTransaction) :
    Prop :=
  ∀ vm, executedFrame host ledger.state tx = some vm → ∀ visited reached,
    (machine host).Reaches (syncLegacyStateIntoFork vm) visited reached →
      (machine host).running reached = true →
        FreshCreation host start (ledger.past ++ visited) reached ∧
          CollisionFree host (ledger.past ++ visited) reached

/-- A transaction whose creations are fresh is applied to the chain. -/
inductive Applies (host : Host) (start : StateFork) : Ledger → Ledger → Prop
  | applied {ledger fuel tx answer after} : CreatesFresh host start ledger tx →
      applySignedTransaction host fuel ledger.state tx = .value (answer, after) →
      Applies host start ledger
        ⟨ledger.past ++ transactionHistory host fuel ledger.state tx, after⟩

/-- All code on a chain was there from the start, or is the work of a creation that lasted. -/
structure Recorded (host : Host) (start : StateFork) (ledger : Ledger) : Prop where
  indexed : ledger.state.SnapshotsIndexed
  codes : ∀ account, ledger.state.getCode account ≠ [] →
    start.getCode account ≠ [] ∨ DeployedIn host ledger.past account

variable {host : Host} {start : StateFork} {ledger next : Ledger} {tx : SignedTransaction}
  {fuel : Nat}

/-- Charging a transaction changes no code. -/
theorem getCode_chargeSender (state : StateFork) (tx : SignedTransaction) (bumped : Nat)
    (account : Address) :
    (chargeSender state tx bumped).getCode account = state.getCode account := by
  rw [chargeSender, StateFork.getCode_setNonce, StateFork.getCode_setBalance]

/-- The frame of a transaction starts with the codes of the chain. -/
theorem getCode_executedFrame {vm : Evm} (executed : executedFrame host ledger.state tx = some vm)
    (account : Address) :
    (syncLegacyStateIntoFork vm).state.getCode account = ledger.state.getCode account := by
  obtain ⟨bumped, rfl⟩ := executedFrame_eq_some executed
  rw [getCode_syncLegacyStateIntoFork]
  exact getCode_chargeSender _ _ _ _

/-- The run of a transaction whose creations are fresh is a sound one. -/
theorem soundRun_of_executed {vm : Evm} (recorded : Recorded host start ledger)
    (fresh : CreatesFresh host start ledger tx)
    (executed : executedFrame host ledger.state tx = some vm) :
    SoundRun host start ledger.past (syncLegacyStateIntoFork vm) := by
  have codes := getCode_executedFrame executed
  have allowed := fresh vm executed
  obtain ⟨bumped, rfl⟩ := executedFrame_eq_some executed
  exact {
    indexed := indexed_of_executed recorded.indexed
    unlisted := rfl
    unmarked := rfl
    codes := fun account coded => recorded.codes account (codes account ▸ coded)
    fresh := fun visited reached reaches running => (allowed visited reached reaches running).1
    collisionFree := fun visited reached reaches running =>
      (allowed visited reached reaches running).2 }

/-- What an applied transaction leaves: the codes as they were, or those at the end of its run. -/
theorem getCode_applied {answer : Except ExecutionError TxExecutionReceipt} {after : StateFork}
    (applied : applySignedTransaction host fuel ledger.state tx = .value (answer, after)) :
    (∀ account, after.getCode account = ledger.state.getCode account) ∨
      ∃ vm result last, executedFrame host ledger.state tx = some vm ∧
        (machine host).trace fuel (syncLegacyStateIntoFork vm) =
          .value (transactionHistory host fuel ledger.state tx, result, last) ∧
        ∀ account, after.getCode account = last.state.getCode account := by
  rcases applySignedTransaction_cases applied with ⟨error, _, _, rfl⟩ |
    ⟨accepted, bumped, result, vm, bumps, ran, _, rfl⟩
  · exact .inl fun _ => rfl
  · have executed := executedFrame_of_accepted accepted bumps
    obtain ⟨history, last, traced, rfl⟩ := run_eq_value ran
    simp only [settledState, StateFork.getCode_setBalance]
    cases succeeded : result.isSuccess with
    | false =>
      left
      intro account
      exact getCode_chargeSender _ _ _ _
    | true =>
      right
      -- Only the history of a success lasts.
      have lasting : transactionHistory host fuel ledger.state tx = history := by
        simp only [transactionHistory, executed, traced, succeeded, if_true]
      rw [lasting]
      exact ⟨_, result, last, executed, traced, fun _ => rfl⟩

/-- The record is kept from transaction to transaction. -/
theorem Recorded.applies (recorded : Recorded host start ledger)
    (applies : Applies host start ledger next) : Recorded host start next := by
  obtain ⟨fresh, applied⟩ := applies
  refine ⟨indexed_of_applied recorded.indexed applied, fun account coded => ?_⟩
  rcases getCode_applied applied with same | ⟨vm, result, last, executed, traced, read⟩
  · rw [same] at coded
    exact (recorded.codes account coded).imp_right DeployedIn.before
  · have sound := soundRun_of_executed recorded fresh executed
    rw [read] at coded
    rcases settles_of_trace sound.indexed traced account (.inl coded) with before | deployed
    · -- The frame starts with no contracts of its own.
      rcases before with old | listed
      · exact (sound.codes account old).imp_right DeployedIn.before
      · rw [sound.unlisted] at listed
        cases listed
    · exact .inr deployed.after

/-- A transaction keeps all code that is on the chain. -/
theorem getCode_of_applies (recorded : Recorded host start ledger)
    (applies : Applies host start ledger next) {account : Address}
    (coded : ledger.state.getCode account ≠ []) :
    next.state.getCode account = ledger.state.getCode account := by
  obtain ⟨fresh, applied⟩ := applies
  rcases getCode_applied applied with same | ⟨vm, result, last, executed, traced, read⟩
  · exact same account
  · have sound := soundRun_of_executed recorded fresh executed
    have first := getCode_executedFrame executed account
    rw [← first] at coded ⊢
    have underivable := sound.underivable .refl (.inl coded)
    have keeps := keepsCode_of_trace ((syncLegacyStateIntoFork vm).state.getCode account)
      sound.indexed underivable traced
    -- The frame knows no contracts yet, so nothing contradicts the fork.
    have is : CodeIs account ((syncLegacyStateIntoFork vm).state.getCode account)
        (syncLegacyStateIntoFork vm) := by
      refine ⟨.inl rfl, fun other found => ?_⟩
      rw [sound.unlisted] at found
      cases found
    rw [read]
    refine (keeps.codeIs is).read.resolve_right fun bare => ?_
    -- Nothing is marked when the transaction starts, so nothing old is removed.
    have marked := keeps.removed ((keeps.lost is bare).resolve_left coded)
    rw [sound.unmarked] at marked
    cases marked

/-- The record holds along the whole chain. -/
theorem recorded_of_chain (indexed : start.SnapshotsIndexed)
    (chain : Relation.ReflTransGen (Applies host start) ⟨[], start⟩ ledger) :
    Recorded host start ledger := by
  induction chain with
  | refl => exact ⟨indexed, fun _ coded => .inl coded⟩
  | tail _ applies ih => exact ih.applies applies

/--
Deployed code is immutable on a chain whose creations are all fresh.

Code on the chain stays as it is; in every transaction, creations find no code at their address,
and code is lost only where an account is removed that the same transaction has deployed.
-/
theorem deployed_code_is_immutable (host : Host) (start : StateFork) (first second : Ledger)
    (indexed : start.SnapshotsIndexed)
    (chain : Relation.ReflTransGen (Applies host start) ⟨[], start⟩ first)
    (later : Relation.ReflTransGen (Applies host start) first second) :
    (∀ account, first.state.getCode account ≠ [] →
      second.state.getCode account = first.state.getCode account) ∧
    ∀ tx vm, CreatesFresh host start second tx → executedFrame host second.state tx = some vm →
      ∀ visited evm, (machine host).Reaches (syncLegacyStateIntoFork vm) visited evm →
        (machine host).running evm = true → CodeSafe host visited evm := by
  have recorded := recorded_of_chain indexed chain
  have reached := recorded_of_chain indexed (chain.trans later)
  constructor
  · intro account coded
    -- Each transaction keeps what the one before it has left.
    induction later with
    | refl => rfl
    | @tail middle last before applies ih =>
      have known := recorded_of_chain indexed (chain.trans before)
      have same := ih known
      rw [← same] at coded ⊢
      exact getCode_of_applies known applies coded
  · intro tx vm fresh executed visited evm reaches running
    have sound := soundRun_of_executed reached fresh executed
    exact ⟨sound.vacant reaches running, fun account kept result after steps coded =>
      sound.lasts reaches steps coded⟩

end Chains

section Runs

/-- An account that deploys whatever init code it is called with. -/
def deployer : StateFork where
  baseState := (∅ : HashMap Address AccountState).insert 0x0a
    { code := [0x36, 0x60, 0, 0x60, 0, 0x37, 0x36, 0x60, 0, 0x60, 0, 0xf0] }

/-- A transaction that has it deploy a single byte. -/
def deployByte (nonce : Nat) (byte : UInt8) : SignedTransaction :=
  { callTransaction with
    nonce
    data := [0x60, byte, 0x60, 0, 0x53, 0x60, 1, 0x60, 0, 0xf3] }

/-- Whether a creation is the only one, and at a free address. -/
def soleCreation (host : Host) (fuel : Nat) (start : StateFork)
    (past : History Evm ExecutionResult) (evm : Evm) : Bool :=
  match creationInput host evm with
  | none => true
  | some input => start.getCode (derivedAddress host input) = [] &&
    past.all (fun done => creationInput host done.before = none) &&
    match step host evm with
    | .enter child _ _ => (machine host).visitsOnly
      (fun _ reached => creationInput host reached = none) fuel [] (syncLegacyStateIntoFork child)
    | _ => true

variable {host : Host} {start : StateFork} {past : History Evm ExecutionResult} {fuel : Nat}
  {evm : Evm}

/-- A frame that has stopped creates nothing. -/
theorem creationInput_of_idle (idle : (machine host).running evm = false) :
    creationInput host evm = none := by
  have outside : ¬ evm.pc < evm.code.length := of_decide_eq_false idle
  have stopped : evm.opcode = none := by simp [Evm.opcode, Nat.le_of_not_lt outside]
  simp only [creationInput, stopped]

theorem fresh_of_soleCreation (checked : soleCreation host fuel start past evm = true) :
    FreshCreation host start past evm ∧ CollisionFree host past evm := by
  cases derives : creationInput host evm with
  | none => constructor <;> constructor <;> intro input never <;> cases derives.symm.trans never
  | some input =>
    simp only [soleCreation, derives, Bool.and_eq_true, decide_eq_true_eq, List.all_eq_true]
      at checked
    obtain ⟨⟨vacant, unused⟩, inside⟩ := checked
    -- No frame below creates anything at all.
    have below : ∀ sofar child visited reached, (machine host).Opens evm sofar child →
        (machine host).Reaches (syncLegacyStateIntoFork child) visited reached →
        creationInput host reached = none := by
      intro sofar child visited reached opens reaches
      obtain ⟨survives, resume, begins⟩ := enter_of_enters opens.2
      rw [begins] at inside
      cases running : (machine host).running reached with
      | false => exact creationInput_of_idle running
      | true => simpa using Machine.passes_of_visitsOnly inside reaches running
    constructor
    · refine ⟨?_, ?_, ?_⟩
      · intro other again
        obtain rfl := Option.some.inj (derives.symm.trans again)
        exact vacant
      · intro other _ done member account _ again
        cases (unused done member).symm.trans again
      · intro other _ sofar child visited reached opens reaches again
        cases (below sofar child visited reached opens reaches).symm.trans again
    · refine ⟨?_, ?_⟩
      · intro other _ done member third again
        cases (unused done member).symm.trans again
      · intro other _ sofar child visited reached third opens reaches again
        cases (below sofar child visited reached opens reaches).symm.trans again

/-- Whether a transaction has at most one creation, the first one of its chain. -/
def createsOnce (host : Host) (fuel : Nat) (start : StateFork) (ledger : Ledger)
    (tx : SignedTransaction) : Bool :=
  match executedFrame host ledger.state tx with
  | some vm => (machine host).visitsOnly (soleCreation host fuel start) fuel ledger.past
    (syncLegacyStateIntoFork vm)
  | none => true

theorem createsFresh_of_check {ledger : Ledger} {tx : SignedTransaction}
    (checked : createsOnce host fuel start ledger tx = true) :
    CreatesFresh host start ledger tx := by
  intro vm executed visited reached reaches running
  simp only [createsOnce, executed] at checked
  exact fresh_of_soleCreation (Machine.passes_of_visitsOnly checked reaches running)

/-- What one transaction and the next one come to. -/
def applyTwice (host : Host) (fuel : Nat) (state : StateFork) (tx next : SignedTransaction) :
    Outcome Fault ((Except ExecutionError TxExecutionReceipt × StateFork) ×
      (Except ExecutionError TxExecutionReceipt × StateFork)) := do
  let one ← applySignedTransaction host fuel state tx
  let other ← applySignedTransaction host fuel one.2 next
  return (one, other)

theorem applyTwice_eq_value {tx next : SignedTransaction}
    {one other : Except ExecutionError TxExecutionReceipt × StateFork}
    (applied : applyTwice host fuel start tx next = .value (one, other)) :
    applySignedTransaction host fuel start tx = .value one ∧
      applySignedTransaction host fuel one.2 next = .value other := by
  obtain ⟨first, applies, rest⟩ := Outcome.bind_eq_value applied
  obtain ⟨second, follows, rest⟩ := Outcome.bind_eq_value rest
  simp only [Outcome.pure_eq, Outcome.value.injEq, Prod.mk.injEq] at rest
  obtain ⟨rfl, rfl⟩ := rest
  exact ⟨applies, follows⟩

/-- A byte that has been deployed stays when the sender goes on to something else. -/
theorem deployed_code_is_immutable_after_call :
    ∃ first second : Ledger, Applies createEmptyHost deployer ⟨[], deployer⟩ first ∧
      Applies createEmptyHost deployer first second ∧
      first.state.getCode 0xf6a171f57acac30c292e223ea8adbb28abd3e14d = [1] ∧
      second.state.getCode 0xf6a171f57acac30c292e223ea8adbb28abd3e14d =
        first.state.getCode 0xf6a171f57acac30c292e223ea8adbb28abd3e14d := by
  -- The first transaction creates once, at an address that is free.
  have deploys : createsOnce createEmptyHost 30 deployer ⟨[], deployer⟩ (deployByte 0 1) = true := by
    decide +kernel
  have ran : endsWith (applyTwice createEmptyHost 30 deployer (deployByte 0 1)
      { callTransaction with nonce := 1, to_ := none }) (fun ended =>
        ended.1.2.getCode 0xf6a171f57acac30c292e223ea8adbb28abd3e14d = [1] &&
          createsOnce createEmptyHost 30 deployer
            ⟨[] ++ transactionHistory createEmptyHost 30 deployer (deployByte 0 1), ended.1.2⟩
            { callTransaction with nonce := 1, to_ := none }) = true := by
    decide +kernel
  obtain ⟨⟨⟨answer, middle⟩, answer', after⟩, both, noted⟩ := exists_of_endsWith ran
  obtain ⟨one, other⟩ := applyTwice_eq_value both
  simp only [Bool.and_eq_true, decide_eq_true_eq] at noted
  obtain ⟨deployed, plain⟩ := noted
  -- The second transaction has no code to run, so it creates nothing.
  have first := Applies.applied (createsFresh_of_check deploys) one
  have second := Applies.applied (createsFresh_of_check plain) other
  refine ⟨_, _, first, second, deployed, ?_⟩
  refine (deployed_code_is_immutable createEmptyHost deployer _ _ ?_ (.single first)
    (.single second)).1 _ ?_
  · intro position snapshot found
    simp [deployer] at found
  · intro bare
    cases deployed.symm.trans bare

/-- Whether both of two deployments succeeded, and left these codes. -/
def deploysBoth (account : Address) (code code' : Bytes)
    (ended : (Except ExecutionError TxExecutionReceipt × StateFork) ×
      (Except ExecutionError TxExecutionReceipt × StateFork)) : Bool :=
  match ended with
  | ((.ok receipt, middle), (.ok receipt', after)) =>
    receipt.status = 1 && receipt'.status = 1 && middle.getCode account = code &&
      after.getCode account = code'
  | _ => false

/--
A second creation replaces deployed code.

The creator's nonces start over in each transaction, so both of its creations have the same address.
-/
theorem creation_replaces_code :
    ∃ receipt middle receipt' after,
      applySignedTransaction createEmptyHost 30 deployer (deployByte 0 1) =
        .value (.ok receipt, middle) ∧
      applySignedTransaction createEmptyHost 30 middle (deployByte 1 2) =
        .value (.ok receipt', after) ∧
      receipt.status = 1 ∧ receipt'.status = 1 ∧
      middle.getCode 0xf6a171f57acac30c292e223ea8adbb28abd3e14d = [1] ∧
      after.getCode 0xf6a171f57acac30c292e223ea8adbb28abd3e14d = [2] := by
  -- Both are deployed to the address that belongs to the first nonce.
  have ran : endsWith (applyTwice createEmptyHost 30 deployer (deployByte 0 1) (deployByte 1 2))
      (deploysBoth 0xf6a171f57acac30c292e223ea8adbb28abd3e14d [1] [2]) = true := by
    decide +kernel
  obtain ⟨⟨⟨answer, middle⟩, answer', after⟩, both, noted⟩ := exists_of_endsWith ran
  obtain ⟨one, other⟩ := applyTwice_eq_value both
  unfold deploysBoth at noted
  split at noted
  · rename_i shape
    simp only [Prod.mk.injEq] at shape
    obtain ⟨⟨rfl, rfl⟩, rfl, rfl⟩ := shape
    simp only [Bool.and_eq_true, decide_eq_true_eq] at noted
    exact ⟨_, _, _, _, one, other, noted.1.1.1, noted.1.1.2, noted.1.2, noted.2⟩
  · cases noted

end Runs

end MiniEvm
