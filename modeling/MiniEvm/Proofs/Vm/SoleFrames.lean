import MiniEvm.Proofs.State.Fork
import MiniEvm.Proofs.Vm.Runs

/-! Runs from the empty state that open no frame: what they leave in the fork and in the old
maps. -/

namespace MiniEvm

open EvmM Frames Frames.Program

variable {α β : Type} {host : Host}

/-- A handler that opens no frame and keeps the old nonce map empty at each of its ends. -/
def KeepsNonces (handler : EvmM α) : Prop :=
  ∀ evm : Evm, evm.nonces = ∅ → handler.Meets evm (fun _ => True)
    (fun _ after => after.nonces = ∅) fun _ after => after.nonces = ∅

namespace KeepsNonces

/-- A quiet handler changes no map at all. -/
theorem of_calm {handler : EvmM α} {post : Evm → α → Evm → Prop}
    (calm : ∀ evm, Calm (fun _ => True) evm handler (post evm)) : KeepsNonces handler := by
  intro evm empty
  refine Meets.weaken (calm evm) (fun _ _ => trivial) ?_ ?_
  · exact fun _ after ended => ended.1.nonces.trans empty
  · exact fun _ after ended => ended.1.nonces.trans empty

/-- Handlers that keep the map empty may follow each other. -/
theorem bind {first : EvmM α} {rest : α → EvmM β} (head : KeepsNonces first)
    (tail : ∀ value, KeepsNonces (rest value)) : KeepsNonces (first >>= rest) := by
  intro evm empty
  exact Meets.bind (head evm empty) fun value mid kept => tail value mid kept

/-- Looking at the frame keeps the map. -/
theorem get : KeepsNonces (Frames.Program.get : EvmM Evm) := fun _ empty => empty

/-- A result keeps the map. -/
theorem pure (value : α) : KeepsNonces (pure value : EvmM α) := fun _ empty => empty

/-- An end keeps the map. -/
theorem exit (result : ExecutionResult) : KeepsNonces (Frames.Program.exit result : EvmM α) :=
  fun _ empty => empty

/-- A change of the frame may be any that keeps the map empty. -/
theorem modify {change : Evm → Evm} (kept : ∀ evm : Evm, evm.nonces = ∅ → (change evm).nonces = ∅) :
    KeepsNonces (Frames.Program.modify change) := kept

/-- Popping is quiet. -/
theorem pop (underflow : ExecutionResult) [Stops underflow] : KeepsNonces (EvmM.pop underflow) :=
  of_calm fun _ => calm_pop underflow

/-- Pushing is quiet. -/
theorem push (value : Word) (overflow : ExecutionResult) [Stops overflow] :
    KeepsNonces (EvmM.push value overflow) :=
  of_calm fun _ => calm_push value overflow

/-- Paying is quiet. -/
theorem charge (cost : Nat) : KeepsNonces (EvmM.charge cost) :=
  of_calm fun _ => calm_charge cost

/-- A static frame ends, every other goes on. -/
theorem requireMutable : KeepsNonces MiniEvm.requireMutable :=
  of_calm fun _ => calm_requireMutable

/-- A jump changes the program counter only. -/
theorem jumpTo (dest : Nat) (invalid : String) : KeepsNonces (MiniEvm.jumpTo dest invalid) := by
  refine get.bind fun evm => ?_
  -- A destination without a mark ends the frame.
  split
  · exact modify fun _ empty => empty
  · exact exit _

/-- Tame handlers are quiet, whatever they abort with. -/
theorem of_tame {handler : EvmM Unit} (tame : Tame host handler) : KeepsNonces handler :=
  of_calm fun evm => Meets.weaken (tame evm) (fun _ _ => trivial) (fun _ _ ended => ended)
    fun _ _ ended => ended

/-- Handlers that pay for themselves are quiet, too. -/
theorem of_burns {handler : EvmM Unit} (burns : Burns host handler) : KeepsNonces handler :=
  of_calm fun evm => Meets.weaken (burns evm) (fun _ _ => trivial) (fun _ _ ended => ended)
    fun _ _ ended => ended

/-- An immediate is pushed behind its opcode. -/
theorem push1 : KeepsNonces opPush1 := by
  refine get.bind fun evm => ?_
  -- The end of the code may cut the immediate off.
  split
  · exact exit _
  · refine KeepsNonces.bind (modify fun _ empty => empty) fun _ => ?_
    exact push _ _

/-- An immediate of two bytes is pushed behind its opcode. -/
theorem push2 : KeepsNonces opPush2 := by
  refine get.bind fun evm => ?_
  split
  · refine KeepsNonces.bind (modify fun _ empty => empty) fun _ => ?_
    exact push _ _
  · exact exit _

/-- Every longer immediate is pushed behind its opcode. -/
theorem pushN (size : Nat) : KeepsNonces (executePushN size) := by
  refine get.bind fun evm => KeepsNonces.bind (modify fun _ empty => empty) fun _ => ?_
  exact push _ _

/-- A jump pops where it goes. -/
theorem jump : KeepsNonces opJump := (pop _).bind fun _ => jumpTo _ _

/-- A jump under a condition may stay. -/
theorem jumpi : KeepsNonces opJumpi := by
  refine (pop _).bind fun dest => (pop _).bind fun cond => ?_
  split
  · exact jumpTo _ _
  · exact KeepsNonces.pure _

/-- Growth of memory is quiet, whatever the build does with overflows. -/
theorem touch (offset size : Nat) : KeepsNonces (touchMemory host offset size) :=
  of_calm fun _ => calm_touchMemory (fun _ => trivial) offset size

/-- Paying for a copy is quiet. -/
theorem copyFee (size : Word) : KeepsNonces (chargeCopy size) :=
  of_calm fun _ => calm_chargeCopy size

/-- Reading memory may panic, which is no end. -/
theorem read {start stop : Nat} (ordered : start ≤ stop) :
    KeepsNonces (readMemory start stop) :=
  of_calm fun _ => calm_readMemory_checked ordered fun _ => trivial

/-- A hash reads memory, even past its end. -/
theorem hash : KeepsNonces (opKeccak256 host) := by
  refine (pop _).bind fun offset => (pop _).bind fun size => ?_
  refine (copyFee size).bind fun _ => (touch _ _).bind fun _ => ?_
  exact (read (by omega)).bind fun _ => push _ _

/-- A copy of return data writes to memory. -/
theorem returndatacopy : KeepsNonces (opReturndatacopy host) := by
  refine (pop _).bind fun dest => (pop _).bind fun offset => (pop _).bind fun size => ?_
  refine get.bind fun evm => ?_
  -- The range may overflow, or reach past the data.
  split
  · exact exit _
  · split
    · refine (copyFee size).bind fun _ => ?_
      refine (touch _ _).bind fun _ => ?_
      exact of_calm fun _ => calm_writeMemory_checked fun _ => trivial
    · exact exit _

/-- A log adds to the logs. -/
theorem log (topicCount : Nat) : KeepsNonces (opLog host topicCount) := by
  refine requireMutable.bind fun _ => (pop _).bind fun offset => (pop _).bind fun size => ?_
  refine (of_calm fun _ => calm_popTopics topicCount).bind fun topics => ?_
  -- Data without a price ends the frame.
  split
  · exact exit _
  · refine (charge _).bind fun _ => (touch _ _).bind fun _ => ?_
    exact (read (by omega)).bind fun _ => modify fun _ empty => empty

/-- A transient store writes to the fork. -/
theorem tstore : KeepsNonces opTstore :=
  requireMutable.bind fun _ => (pop _).bind fun _ => (pop _).bind fun _ =>
    modify fun _ empty => empty

/-- A store writes to the fork, behind its mark and its price. -/
theorem sstore : KeepsNonces opSstore := by
  refine requireMutable.bind fun _ => (pop _).bind fun key => (pop _).bind fun val => ?_
  refine get.bind fun evm => (of_calm fun _ => calm_markSlotWarm key).bind fun _ => ?_
  -- What is written goes into the fork, not into the old map.
  exact (charge _).bind fun _ => modify fun _ empty => empty

/-- A removed account may have been listed; nothing is added. -/
theorem selfdestruct : KeepsNonces opSelfdestruct := by
  refine requireMutable.bind fun _ => (pop _).bind fun word => get.bind fun evm => ?_
  refine (of_calm fun _ => calm_markAccessed _).bind fun _ => (charge _).bind fun _ => ?_
  -- The map is left as it is, or loses an entry.
  refine modify fun evm empty => ?_
  simp only [destroyAccount]
  split
  · simp only [removeAccount, empty]
    rfl
  · exact empty

/-- No opcode but a creation writes to the old nonce map. -/
theorem dispatch {op : Opcode} (closed : op.opensFrame = false) :
    KeepsNonces (MiniEvm.dispatch host op) := by
  -- Most opcodes are quiet, which was shown for all of them at once.
  cases tame : op.isTame with
  | true => exact of_tame (tame_dispatch host tame)
  | false =>
    cases burning : op.isBurning with
    | true => exact of_burns (burns_dispatch host burning)
    | false =>
      cases op with
      | stop => exact KeepsNonces.pure ()
      | keccak256 => exact hash
      | returndatacopy => exact returndatacopy
      | jump => exact jump
      | jumpi => exact jumpi
      | push1 => exact push1
      | push2 => exact push2
      | push size => exact pushN size
      | sstore => exact sstore
      | tstore => exact tstore
      | log topics => exact log topics
      | selfdestruct => exact selfdestruct
      | create | call | delegatecall | create2 | staticcall => cases closed
      -- Every other opcode is tame or pays for itself.
      | _ => simp [Opcode.isTame, Opcode.isBurning, Opcode.gasTable] at tame burning

end KeepsNonces

/-- A step that opens no frame leaves the old nonce map empty. -/
theorem nonces_of_resolves {evm after : Evm} {op : Opcode} {kept : History Evm ExecutionResult}
    {result : ExecutionResult}
    {nested : Evm → History Evm ExecutionResult → ExecutionResult → Evm → Prop}
    (decoded : evm.opcode = some op) (closed : op.opensFrame = false) (empty : evm.nonces = ∅)
    (resolved : (step host evm).Resolves .halt nested kept result after) : after.nonces = ∅ := by
  rw [step_apply decoded] at resolved
  -- Either the gas did not suffice for the opcode, or its handler has run.
  split at resolved
  · obtain ⟨_, _, rfl⟩ := resolved
    exact empty
  · rcases (KeepsNonces.dispatch closed (evm.begin op) empty).cases with
      ⟨cause, stands, _⟩ | ⟨outcome, final, stands, kept'⟩ | ⟨value, final, stands, kept'⟩ <;>
      rw [stands] at resolved
    · exact resolved.elim
    · obtain ⟨_, _, rfl⟩ := resolved
      exact kept'
    · obtain ⟨_, _, rfl⟩ := resolved
      exact kept'

/-- An account that holds storage at most. -/
structure AccountState.OnlyStores (account : AccountState) : Prop where
  nonce : account.nonce = 0
  balance : account.balance = 0
  code : account.code = []

/-- A fork over nothing in which the accounts hold storage at most, and only one of them does. -/
structure Bare (account : Address) (fork : StateFork) : Prop where
  base : fork.baseState = ∅
  plain : ∀ address, (fork.getAccount address).OnlyStores
  others : ∀ address, address ≠ account → (fork.getAccount address).storage.entries = []

namespace Bare

variable {account : Address} {fork : StateFork}

/-- The empty fork is bare. -/
theorem empty : Bare account {} := ⟨rfl, fun _ => ⟨rfl, rfl, rfl⟩, fun _ _ => rfl⟩

/-- A write that puts no more than storage into an account, and that only into the one. -/
theorem accountForWrite (bare : Bare account fork) {address : Address}
    {write : AccountState → AccountState} (plain : (write (fork.getAccount address)).OnlyStores)
    (others : address ≠ account → (write (fork.getAccount address)).storage.entries = []) :
    Bare account (fork.accountForWrite address write) := by
  refine ⟨bare.base, fun other => ?_, fun other apart => ?_⟩
  · -- First what each account looks like, then that the others have no slots.
    rw [StateFork.getAccount_accountForWrite]
    split
    · exact plain
    · exact bare.plain other
  · rw [StateFork.getAccount_accountForWrite]
    split
    · rename_i same
      exact others (same ▸ apart)
    · exact bare.others other apart

/-- Storage may be written, if it is that of the one account. -/
theorem setStorage (bare : Bare account fork) (slot value : Word) :
    Bare account (fork.setStorage account slot value) :=
  bare.accountForWrite { bare.plain account with } fun apart => absurd rfl apart

/-- A balance may be written where it is zero. -/
theorem setBalance (bare : Bare account fork) {address : Address} {balance : Word}
    (nothing : balance = 0) : Bare account (fork.setBalance address balance) :=
  bare.accountForWrite { bare.plain address with balance := nothing } (bare.others address)

/-- Transient storage is no part of the accounts. -/
theorem tstore (bare : Bare account fork) (address : Address) (key value : Word) :
    Bare account (fork.tstore address key value) := ⟨bare.base, bare.plain, bare.others⟩

/-- Where nobody has anything, a self-destruction moves nothing, but it writes two accounts. -/
theorem sweepBalance (bare : Bare account fork) (beneficiary : Address) :
    Bare account (sweepBalance fork account beneficiary) := by
  unfold MiniEvm.sweepBalance
  -- A beneficiary that is the account itself gets nothing.
  split
  · exact bare
  · have own : fork.getBalance account = 0 := (bare.plain account).balance
    have theirs : fork.getBalance beneficiary = 0 := (bare.plain beneficiary).balance
    -- Both balances are zero before, so both are zero after.
    apply Bare.setBalance _ rfl
    apply bare.setBalance
    simp only [own, theirs]
    rfl

end Bare

/-- A frame over such a fork, with nothing in its old maps and nothing created. -/
structure Sole (account : Address) (evm : Evm) : Prop where
  self : evm.selfAddress = account
  created : evm.createdInTransaction = ∅
  storage : evm.storage = ∅
  balances : evm.balances = ∅
  contracts : evm.contracts = ∅
  nonces : evm.nonces = ∅
  bare : Bare account evm.state

namespace Sole

variable {account : Address} {evm after : Evm}

/-- What only moves the frame along leaves it alone with its fork. -/
theorem of_drift (sole : Sole account evm) (drift : Drift evm after) (nonces : after.nonces = ∅) :
    Sole account after where
  self := drift.selfAddress.trans sole.self
  created := drift.createdInTransaction.trans sole.created
  storage := drift.storage.trans sole.storage
  balances := drift.balances.trans sole.balances
  contracts := drift.contracts.trans sole.contracts
  nonces := nonces
  bare := drift.state ▸ sole.bare

/-- Whatever an opcode does by itself, the frame stays alone with its storage. -/
theorem of_effect {op : Opcode} (sole : Sole account evm) (effect : Effect evm op after)
    (nonces : after.nonces = ∅) : Sole account after := by
  -- Each effect writes storage at most, and only that of the one account.
  cases effect with
  | plain _ drift => exact sole.of_drift drift nonces
  | @sstore mid key val rest _ _ drift =>
    have before := sole.of_drift drift nonces
    exact { before with bare := before.self ▸ (before.self ▸ before.bare).setStorage key val }
  | tstore _ _ drift =>
    have before := sole.of_drift drift nonces
    exact { before with bare := before.bare.tstore _ _ _ }
  | log _ drift => exact { sole.of_drift drift nonces with }
  | @selfdestruct mid word rest _ _ drift =>
    -- Nothing was created, so the account is not removed.
    have kept : destroyAccount mid (accountAddress word) =
        { mid with state := sweepBalance mid.state mid.selfAddress (accountAddress word) } := by
      have created := drift.createdInTransaction.trans sole.created
      simp [destroyAccount, created]
    rw [kept] at nonces ⊢
    have before := sole.of_drift drift nonces
    exact { before with bare := before.self ▸ (before.self ▸ before.bare).sweepBalance _ }

/-- A step that opens no frame keeps the frame alone. -/
theorem step {kept : History Evm ExecutionResult} {result : ExecutionResult}
    {nested : Evm → History Evm ExecutionResult → ExecutionResult → Evm → Prop}
    (sole : Sole account evm) (running : (machine host).running evm = true)
    (closed : ∀ op, evm.opcode = some op → op.opensFrame = false)
    (resolved : (MiniEvm.step host evm).Resolves .halt nested kept result after) :
    Sole account after := by
  obtain ⟨op, decoded⟩ := Option.ne_none_iff_exists'.mp (opcode_of_running running)
  have nonces := nonces_of_resolves decoded (closed op decoded) sole.nonces resolved
  -- The two cases that open a frame contradict the opcode that was decoded.
  cases stepsTo_of_resolves running resolved with
  | stopped drift _ => exact sole.of_drift drift nonces
  | done _ effect _ => exact sole.of_effect effect nonces
  | @called forceStatic delegate setup mid history outcome last _ _ opening _ _ =>
    have quiet := closed _ opening.opcode
    cases forceStatic <;> cases delegate <;> cases quiet
  | @created value salt initCode mid history outcome last _ _ opening _ _ _ =>
    have quiet := closed _ opening.opcode
    cases salt <;> cases quiet

end Sole

/-- No step of a run executes an opcode that can open a frame. -/
def NeverOpens (host : Host) (start : Evm) : Prop :=
  ∀ history visited op, (machine host).Reaches start history visited →
    visited.opcode = some op → op.opensFrame = false

/-- A run that executes no such opcode stays alone to its end. -/
theorem Sole.runs {account : Address} {start final : Evm} {history : History Evm ExecutionResult}
    {outcome : ExecutionResult} (sole : Sole account start) (closed : NeverOpens host start)
    (ran : (machine host).Runs start history outcome final) : Sole account final := by
  -- The invariant is kept by each step, as long as the step's opcode opens nothing.
  apply Machine.Runs.invariant (M := machine host) (fun _ evm => Sole account evm)
    (fun _ evm => ∀ op, evm.opcode = some op → op.opensFrame = false) ?_ ran []
  · intro visited reached reaches _ op decoded
    exact closed visited reached op reaches decoded
  · exact sole
  · intro past evm kept result after running allowed sole resolved
    exact sole.step running allowed resolved

/-- Code without such an opcode executes none. -/
theorem neverOpens_of_opensNothing {start : Evm} (closed : opensNothing start.code = true) :
    NeverOpens host start := by
  intro history visited op reaches decoded
  exact opensFrame_of_opensNothing (code_of_reaches closed reaches ▸ closed) decoded

end MiniEvm
