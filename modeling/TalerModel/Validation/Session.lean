import Mathlib
import TalerModel.Validation.Accept
import TalerModel.Validation.Tip

namespace Taler

section

def REJECT_NONSTANDARD : Nat := 0x40

-- What the interpreter says about an input that spends a coin: nothing, or the text of its error.
abbrev ScriptCheck := ScriptFlags → CTransaction → Nat → Coin → Option String

-- `flags & STANDARD_NOT_MANDATORY_VERIFY_FLAGS`
def ScriptFlags.notMandatory (flags : ScriptFlags) : Bool :=
  flags.dersig || flags.checkLockTimeVerify || flags.checkSequenceVerify || flags.witness ||
    flags.nullDummy

def ScriptFlags.mandatory (flags : ScriptFlags) : ScriptFlags where
  p2sh := flags.p2sh
  dersig := false
  checkLockTimeVerify := false
  checkSequenceVerify := false
  witness := false
  nullDummy := false

def checkInput (scriptCheck : ScriptCheck) (flags : ScriptFlags) (tx : CTransaction) (i : Nat)
    (coin : Coin) : Check Unit :=
  if coin.isSpent then Check.fault .assertion else
  match scriptCheck flags tx i coin with
  | none => .ok ()
  | some err =>
    if flags.notMandatory && (scriptCheck flags.mandatory tx i coin).isNone then
      .dos 0 REJECT_NONSTANDARD ("non-mandatory-script-verify-flag (" ++ err ++ ")")
    else .dos 100 REJECT_INVALID ("mandatory-script-verify-flag-failed (" ++ err ++ ")")

-- `CheckInputs` without its caches.
def checkInputs (scriptCheck : ScriptCheck) (fScriptChecks : Bool) (flags : ScriptFlags)
    (tx : CTransaction) (inputs : List (CTxIn × Coin)) : Check Unit :=
  if tx.isCoinBase || !fScriptChecks then .ok () else
  inputs.zipIdx.forM fun ((_, coin), i) => checkInput scriptCheck flags tx i coin

-- The interpreter is asked by `CheckInputs`.
def ConnectContext.AsksScripts (ctx : ConnectContext) : Prop :=
  ∃ scriptCheck fScriptChecks, ctx.checkInputs = Taler.checkInputs scriptCheck fScriptChecks

end

-- A node over its whole life: what is in memory while it runs, and what a restart finds.
structure Session extends TipState where
  index : List CBlockIndex
  files : CBlockIndex → Option CBlock
  -- `setDirtyBlockIndex`
  dirty : List CBlockIndex
  -- The entries in the database, each with its bit `BLOCK_STAKE_MODIFIER`.
  disk : CBlockIndex → Option Bool

namespace Session

open AcceptContext

variable [Crypto]

def lookupBlockIndex (s : Session) (hash : Uint256) : CBlockIndex :=
  (s.index.find? (CBlockIndex.getBlockHash · = hash)).getD []

def addToBlockIndex (pindexNew : CBlockIndex) (block : CBlockHeader) (s : Session) : Session :=
  { s with
    index := s.index ++ [pindexNew]
    dirty := pindexNew :: s.dirty
    stake := { s.stake with
      generated := Function.update s.stake.generated pindexNew (headerFlags block).stakeModifier } }

def saveBlock (pindex : CBlockIndex) (block : CBlock) (s : Session) : Session :=
  { s with
    files := Function.update s.files pindex (some block.fresh)
    dirty := pindex :: s.dirty }

def rootOf (genesis : CBlock) : CBlockIndex :=
  [IndexHeader.ofHeader genesis.getBlockHeader]

def loadGenesisBlock (params : Params) (genesis : CBlock) (s : Session) : Session :=
  if s.lookupBlockIndex params.hashGenesisBlock ≠ [] then s else
  (s.addToBlockIndex (rootOf genesis) genesis.getBlockHeader).saveBlock (rootOf genesis) genesis

def addHeader (pindex : CBlockIndex) (block : CBlockHeader) (s : Session) : Session :=
  if s.lookupBlockIndex block.getHash ≠ [] then s else s.addToBlockIndex pindex block

-- `chain` is the chain state at the time of a call, of which only the index is kept here.

def acceptBlockHeader (ctx : AcceptContext) (chain : NodeChain) (block : CBlockHeader)
    (s : Session) : Session :=
  match (ctx.acceptBlockHeader chain block).1 with
  | .error _ => s
  | .ok pindex => s.addHeader pindex block

def acceptBlock (ctx : AcceptContext) (chain : NodeChain) (block : CBlock) (fRequested : Bool)
    (s : Session) : Session :=
  let s := s.acceptBlockHeader ctx chain block.getBlockHeader
  match ctx.acceptBlockHeader chain block.getBlockHeader with
  | (.error _, _) => s
  | (.ok pindex, chain') =>
    if ctx.ignoresBlock chain' pindex fRequested then s else
    match (ctx.acceptBlock chain block fRequested).1 with
    | .error _ => s
    | .ok _ => s.saveBlock pindex block

variable (ctx : ConnectContext) (enumeration : Enumeration)

-- `marks`: the entry is put into the set of dirty ones.
def connectTip (pindexNew : CBlockIndex)
    (pblock : Option CBlock) (marks : Bool) (s : Session) : Session :=
  { s with
    toTipState := (ctx.connectTip enumeration pindexNew pblock s.toTipState).final
    dirty := if marks then pindexNew :: s.dirty else s.dirty }

def disconnectTip (s : Session) : Session :=
  { s with toTipState := (ctx.disconnectTip enumeration s.toTipState).final }

-- Every flush writes the entries that are dirty.
def flushStateToDisk (fDoFullFlush : Bool) (s : Session) : Session :=
  { s with
    toTipState := ctx.flushStateToDisk enumeration fDoFullFlush s.toTipState
    dirty := []
    disk := fun p => if p ∈ s.dirty then some (s.stake.generated p) else s.disk p }

-- What is left of a node after it stopped, however that happened. The order of the index and what the
-- block tree database has of the modifiers and proof hashes do not matter here.
structure Restarts (s s' : Session) : Prop where
  index : ∀ p, p ∈ s'.index ↔ (s.disk p).isSome
  files : s'.files = s.files
  dirty : s'.dirty = []
  disk : s'.disk = s.disk
  generated : ∀ p, s'.stake.generated p = (s.disk p).getD false
  view : s'.view = .onto s.view.base
  tip : s'.chainActive = s'.lookupBlockIndex s.view.base.getBestBlock

structure Sees (s : Session) (params : Params) (ctx : ConnectContext) : Prop where
  params : ctx.params = params
  lookup : ctx.lookupBlockIndex = s.lookupBlockIndex
  files : ctx.readBlockFromDisk = s.files
  scripts : ctx.AsksScripts

-- The block came back from `CheckBlock`. A wrong signature does not keep it from being checked.
def WentThrough (params : Params) (block : CBlock) : Prop :=
  ∃ (c : CheckContext) (pindexPrev : CBlockIndex), c.params = params ∧
    checkBeforeMemo c block pindexPrev true true = .ok () ∧ (checkAfterMemo c block true).Returns

-- What can happen to a node. `Flushes` restricts writes of the index, `Arrives` new headers.
inductive Step (params : Params) (genesis : CBlock) (Flushes : Session → Prop)
    (Arrives : Session → CBlockHeader → Prop) : Session → Session → Prop
  | loadGenesisBlock {s : Session} :
    Step params genesis Flushes Arrives s (s.loadGenesisBlock params genesis)
  | acceptBlockHeader {s : Session} {ctx : AcceptContext} {chain : NodeChain} {block : CBlockHeader}
    (same : ctx.params = params) (index : chain.blocks = s.index) (loaded : rootOf genesis ∈ s.index)
    (arrives : Arrives s block) :
    Step params genesis Flushes Arrives s (s.acceptBlockHeader ctx chain block)
  | acceptBlock {s : Session} {ctx : AcceptContext} {chain : NodeChain} {block : CBlock}
    {fRequested : Bool} (same : ctx.params = params) (index : chain.blocks = s.index)
    (loaded : rootOf genesis ∈ s.index) (arrives : Arrives s block.getBlockHeader)
    (memo : block.fChecked → WentThrough params block) :
    Step params genesis Flushes Arrives s (s.acceptBlock ctx chain block fRequested)
  | connectTip {s : Session} {ctx : ConnectContext} {enumeration : Enumeration}
    {pindexNew : CBlockIndex} {pblock : Option CBlock} {marks : Bool} (sees : s.Sees params ctx)
    (known : pindexNew ∈ s.index)
    (given : ∀ block, pblock = some block →
      Arrives s block.getBlockHeader ∧ WentThrough params block)
    (returns : ∀ f s', ctx.connectTip enumeration pindexNew pblock s.toTipState ≠ .error (.fault f) s')
    (unmarked : pindexNew.tail = [] →
      ctx.connectTip enumeration pindexNew pblock s.toTipState =
        .ok () (s.connectTip ctx enumeration pindexNew pblock marks).toTipState → marks = false) :
    Step params genesis Flushes Arrives s (s.connectTip ctx enumeration pindexNew pblock marks)
  | disconnectTip {s : Session} {ctx : ConnectContext} {enumeration : Enumeration}
    (sees : s.Sees params ctx)
    (returns : ∀ f s', ctx.disconnectTip enumeration s.toTipState ≠ .error (.fault f) s') :
    Step params genesis Flushes Arrives s (s.disconnectTip ctx enumeration)
  | flushStateToDisk {s : Session} {ctx : ConnectContext} {enumeration : Enumeration}
    {fDoFullFlush : Bool} (flushes : Flushes s) :
    Step params genesis Flushes Arrives s (s.flushStateToDisk ctx enumeration fDoFullFlush)
  | restart {s s' : Session} (restarts : Restarts s s') : Step params genesis Flushes Arrives s s'

structure Fresh (s : Session) : Prop where
  index : s.index = []
  files : ∀ p, s.files p = none
  dirty : s.dirty = []
  disk : ∀ p, s.disk p = none
  tip : s.chainActive = []

end Session

section

open ChainState

variable [Crypto] (verdict : CBlockIndex → CBlockIndex → Verdict) (ctx : ConnectContext)
  (enumeration : Enumeration)

-- How a round of `ActivateBestChainStep` ends, with the caller's state. `none`: no return.
def connectCandidate (chain : NodeChain) (pindexConnect : CBlockIndex) (pblock : Option CBlock)
    (s : TipState) : Option (StepResult × CValidationState × NodeChain × TipState) :=
  match ctx.connectTip enumeration pindexConnect pblock s with
  | .ok _ s => some (.done, {}, chain.connectTip pindexConnect, s)
  | .error (.returned state) s =>
    if state.mode = .invalid then
      let chain :=
        if state.corruptionPossible then chain else chain.invalidBlockFound verdict pindexConnect
      some (.invalidFound, {}, chain, s)
    else some (.systemError, state, chain, s)
  | .error (.fault _) _ => none

end

end Taler
