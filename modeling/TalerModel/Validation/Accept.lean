import TalerModel.Chain.Run
import TalerModel.Consensus.Pow
import TalerModel.Script.Num
import TalerModel.Validation.CheckBlock

namespace Taler

open Check

def MAX_FUTURE_BLOCK_TIME : Int := 2 * 60 * 60
def MIN_BLOCKS_TO_KEEP : Nat := 288

def getBlockWeight (block : CBlock) : Nat :=
  let legacy := !block.isNewFormatBlock
  block.strippedSize legacy * (WITNESS_SCALE_FACTOR - 1) + block.serializeSize legacy

-- The output of the coinbase that carries the witness commitment. The last one counts.
def getWitnessCommitmentIndex (block : CBlock) : Option Nat :=
  match block.vtx with
  | [] => none
  | coinbase :: _ =>
    ((coinbase.vout.zipIdx.filter fun (out, _) => isWitnessCommitment out.scriptPubKey).map
      Prod.snd).getLast?

abbrev blockProof (b : IndexHeader) : Nat :=
  getBlockProof b.nBits

abbrev NodeChain := ChainState blockProof

namespace NodeChain

def lookupBlockIndex (s : NodeChain) (hash : Uint256) : CBlockIndex :=
  (s.blocks.find? (CBlockIndex.getBlockHash · = hash)).getD []

end NodeChain

-- What the node is told from outside when it receives a header or a block.
structure AcceptContext where
  params : Params
  fCheckpointsEnabled : Bool
  mapCheckpoints : List (Nat × Uint256)
  nAdjustedTime : Int
  -- The order in which `m_failed_blocks` is iterated.
  failedOrder : List CBlockIndex
  -- What connecting a block yields, for `ActivateBestChain`.
  verdict : CBlockIndex → CBlockIndex → Verdict

namespace AcceptContext

variable [Crypto] (ctx : AcceptContext) (s : NodeChain)

def checkContext : CheckContext where
  params := ctx.params
  lookupBlockIndex := NodeChain.lookupBlockIndex s

def getLastCheckpoint : CBlockIndex :=
  ((ctx.mapCheckpoints.reverse.map fun (_, hash) => NodeChain.lookupBlockIndex s hash).find?
    (· ≠ [])).getD []

def hexDigits (n : BitVec 32) : String :=
  String.ofList ((List.range 8).map fun i => Nat.digitChar (n.toNat / 16 ^ (7 - i) % 16))

variable (block : CBlockHeader)

def contextualCheckBlockHeader (pindexPrev : CBlockIndex) : Check Unit := do
  let nHeight := nHeight pindexPrev + 1
  let nBits ← ctx.params.getNextWorkRequired pindexPrev block.isProofOfStake block.nTime
  rejectIf (block.nBits ≠ nBits) (.dos 100 REJECT_INVALID "bad-diffbits")
  let pcheckpoint := ctx.getLastCheckpoint s
  rejectIf
    (ctx.fCheckpointsEnabled && pcheckpoint ≠ [] && nHeight < Taler.nHeight pcheckpoint)
    (.dos 100 REJECT_CHECKPOINT "bad-fork-prior-to-checkpoint")
  rejectIf (ctx.params.forkNumber nHeight < 2 && block.isProofOfStake)
    (.dos 0 REJECT_INVALID "pos-restriction-initlim")
  rejectIf (block.nTime ≤ pindexPrev.getMedianTimePast) (.dos 0 REJECT_INVALID "time-too-old")
  rejectIf (block.nTime > ctx.nAdjustedTime + MAX_FUTURE_BLOCK_TIME)
    (.dos 0 REJECT_INVALID "time-too-new")
  rejectIf (block.nVersion.toInt < 2)
    (.dos 0 REJECT_OBSOLETE ("bad-version(0x" ++ hexDigits block.nVersion ++ ")"))

-- The tests of a header that is not known yet, but for those of the parent's ancestors.
def checkNewHeader : Check Unit := do
  let pindexPrev := NodeChain.lookupBlockIndex s block.hashPrevBlock
  rejectIf (pindexPrev = []) (.dos 10 0 "prev-blk-not-found")
  rejectIf (s.failed pindexPrev) (.dos 100 REJECT_INVALID "bad-prevblk")
  checkBlockHeader (ctx.checkContext s) block pindexPrev true
  ctx.contextualCheckBlockHeader s block pindexPrev

-- The entry that `AddToBlockIndex` makes, and the bits of its status that it takes from the flags.
def newIndex : CBlockIndex :=
  IndexHeader.ofHeader block :: NodeChain.lookupBlockIndex s block.hashPrevBlock

def headerFlags : ChainState.HeaderFlags where
  stakeModifier := block.nFlags &&& BLOCK_STAKE_MODIFIER ≠ 0
  newFormat := block.nFlags &&& BLOCK_NEW_FORMAT ≠ 0

def addHeader : Check CBlockIndex × NodeChain :=
  (.ok (newIndex s block), s.addToBlockIndex (newIndex s block) (headerFlags block))

def acceptBlockHeader : Check CBlockIndex × NodeChain :=
  let hash := block.getHash
  let pindex := NodeChain.lookupBlockIndex s hash
  if hash = ctx.params.hashGenesisBlock then
    if pindex ≠ [] then (.ok pindex, s) else addHeader s block
  else if pindex ≠ [] then
    if s.failed pindex then (dos 0 0 "duplicate", s) else (.ok pindex, s)
  else
    match ctx.checkNewHeader s block with
    | .error e => (.error e, s)
    | .ok _ =>
      match s.failedAncestor ctx.failedOrder (NodeChain.lookupBlockIndex s block.hashPrevBlock) with
      | none => (fault .assertion, s)
      | some (some s) => (dos 100 REJECT_INVALID "bad-prevblk", s)
      | some none => addHeader s block

def processNewBlockHeaders : List CBlockHeader → NodeChain → Check Unit × NodeChain
  | [], s => (.ok (), s)
  | header :: headers, s =>
    match ctx.acceptBlockHeader s header with
    | (.error e, s) => (.error e, s)
    | (.ok _, s) => processNewBlockHeaders headers s

variable (block : CBlock)

def firstInput : Check CTxIn :=
  match block.vtx.head? with
  | none => fault .outOfRange
  | some coinbase =>
    match coinbase.vin.head? with
    | none => fault .outOfRange
    | some txin => .ok txin

def checkCoinbaseHeight (nHeight : Nat) : Check Unit :=
  if nHeight ≥ ctx.params.BIP34Height then do
    let expect := CScript.pushInt64 nHeight
    let txin ← firstInput block
    rejectIf
      (txin.scriptSig.length < expect.length || txin.scriptSig.take expect.length ≠ expect)
      (.dos 100 REJECT_INVALID "bad-cb-height")
  else .ok ()

def checkCommitment (commitpos : Nat) : Check Unit := do
  let txin ← firstInput block
  let script := ((block.vtx.head?.bind (·.vout[commitpos]?)).map CTxOut.scriptPubKey).getD []
  match txin.scriptWitness with
  | [nonce] =>
    rejectIf (nonce.length ≠ 32) (.dos 100 REJECT_INVALID "bad-witness-nonce-size" true)
    let hashWitness := Crypto.commitHash (blockWitnessMerkleRoot block).1 nonce
    rejectIf (hashBytes hashWitness ≠ (script.drop 6).take 32)
      (.dos 100 REJECT_INVALID "bad-witness-merkle-match" true)
  | _ => dos 100 REJECT_INVALID "bad-witness-nonce-size" true

def checkWitness (pindexPrev : CBlockIndex) : Check Unit := do
  let commitpos :=
    if nHeight pindexPrev ≥ ctx.params.WitnessHeight then getWitnessCommitmentIndex block else none
  match commitpos with
  | some commitpos =>
    checkCommitment block commitpos
    rejectIf
      (ctx.params.forkNumber (nHeight pindexPrev + 1) ≥ 3 && !block.vtx.any CTransaction.hasWitness)
      (.dos 100 REJECT_INVALID "no-witness-data" true)
  | none =>
    rejectIf (block.vtx.any CTransaction.hasWitness)
      (.dos 100 REJECT_INVALID "unexpected-witness" true)

def contextualCheckBlock (pindexPrev : CBlockIndex) : Check Unit := do
  let nHeight := nHeight pindexPrev + 1
  let nLockTimeCutoff : Int :=
    if Taler.nHeight pindexPrev ≥ ctx.params.CSVHeight then pindexPrev.getMedianTimePast
    else block.nTime
  rejectIf (block.vtx.any fun tx => !isFinalTx tx nHeight nLockTimeCutoff)
    (.dos 10 REJECT_INVALID "bad-txns-nonfinal")
  ctx.checkCoinbaseHeight block nHeight
  ctx.checkWitness block pindexPrev
  rejectIf (getBlockWeight block > MAX_BLOCK_WEIGHT)
    (.dos 100 REJECT_INVALID "bad-blk-weight")

variable (pindex : CBlockIndex)

-- Whether a block is not looked at any further although its header was accepted.
def ignoresBlock (fRequested : Bool) : Bool :=
  (s.entry pindex).haveData ||
    !fRequested && ((s.entry pindex).nTx ≠ 0 ||
      s.tip ≠ [] && nChainWork blockProof pindex < nChainWork blockProof s.tip ||
      (nHeight pindex : Int) > (s.tip.length : Int) - 1 + MIN_BLOCKS_TO_KEEP ||
      nChainWork blockProof pindex < ctx.params.nMinimumChainWork)

def checkFormat : Check Unit := do
  let forkNumber := ctx.params.forkNumber (nHeight pindex)
  rejectIf (block.isNewestFormat ≠ (forkNumber = 3 : Bool)) (.dos 0 REJECT_INVALID "3fork-error")
  rejectIf (block.isNewFormatBlock ≠ (forkNumber = 2 : Bool))
    (.dos 0 REJECT_INVALID "2fork-error")

-- The genesis block is not checked.
def checkData : Check Unit :=
  if nHeight pindex > 0 then do
    (checkBlock (ctx.checkContext s) block pindex.tail true true).1
    ctx.contextualCheckBlock block pindex.tail
  else .ok ()

-- A rejection that does not depend on what the hash leaves open marks the block for good.
def condemns : Failure → Bool
  | .returned state => state.mode = .invalid && !state.corruptionPossible
  | .fault _ => false

def acceptBlock (fRequested : Bool) : Check CBlockIndex × NodeChain :=
  match ctx.acceptBlockHeader s block.getBlockHeader with
  | (.error e, s) => (.error e, s)
  | (.ok pindex, s) =>
    if ctx.ignoresBlock s pindex fRequested then (.ok pindex, s) else
    match ctx.checkFormat block pindex with
    | .error e => (.error e, s)
    | .ok _ =>
      match ctx.checkData s block pindex with
      | .error e =>
        (.error e,
          if condemns e then s.setEntry pindex { s.entry pindex with failedValid := true } else s)
      | .ok _ => (.ok pindex, s.receivedBlockTransactions ctx.verdict pindex block.vtx.length)

-- Whether the block was accepted, and the state after the call, or `none` if it does not return.
def processNewBlock (fForceProcessing : Bool) (fuel : Nat) : Option (Bool × NodeChain) :=
  match checkBlock (ctx.checkContext s) block [] true true with
  | (.error (.fault _), _) => none
  | (.error _, _) => some (false, s)
  | (.ok _, block) =>
    match ctx.acceptBlock s block fForceProcessing with
    | (.error (.fault _), _) => none
    | (.error _, s) => some (false, s)
    | (.ok _, s) => s.activateBestChain ctx.verdict fuel

end AcceptContext

end Taler
