import TalerModel.Chain.Stake
import TalerModel.Coins.AddressIndex
import TalerModel.Consensus.Subsidy
import TalerModel.Consensus.TxInputs
import TalerModel.Validation.CheckBlock

namespace Taler

open Check

abbrev CBlockUndo := List (List Coin)

-- What is around a connection and does not change during it.
structure ConnectContext where
  params : Params
  -- The tip of the active chain, and the coins at it.
  chainActive : CBlockIndex
  pcoinsTip : CCoinsView
  lookupBlockIndex : Uint256 → CBlockIndex
  readBlockFromDisk : CBlockIndex → Option CBlock
  fAddressIndex : Bool
  fTxIndex : Bool
  -- The interpreter's verdict on a transaction, and whether other threads report it at the end.
  checkInputs : ScriptFlags → CTransaction → List (CTxIn × Coin) → Check Unit
  fScriptQueue : Bool

def ConnectContext.checkContext (ctx : ConnectContext) : CheckContext where
  params := ctx.params
  lookupBlockIndex := ctx.lookupBlockIndex

-- The context of a connection when the active chain has another tip, with other coins.
def ConnectContext.withTip (ctx : ConnectContext) (tip : CBlockIndex) (coins : CCoinsView) :
    ConnectContext :=
  { ctx with chainActive := tip, pcoinsTip := coins }

-- What a connection or disconnection reads and writes. Reading and writing undo data succeeds. The
-- exact results of all operations on amounts are recorded for the statements about them.
structure ConnectState where
  view : CCoinsViewCache
  addressIndex : CAddressIndexDB
  stake : StakeStore
  undo : CBlockIndex → Option CBlockUndo
  amounts : List Int := []

abbrev Connect := EStateM Failure ConnectState

namespace Connect

def check (c : Check α) : Connect α := fun s =>
  match c with
  | .ok a => .ok a s
  | .error e => .error e s

def traced (x : Traced α) : Connect α := fun s =>
  .ok x.val { s with amounts := s.amounts ++ x.exact }

def stake (x : Stake α) : Connect α := fun s =>
  match x s.stake with
  | .ok a stake => .ok a { s with stake := stake }
  | .error e stake => .error e { s with stake := stake }

def when (c : Bool) (x : Connect Unit) : Connect Unit :=
  if c then x else pure ()

def setView (view : CCoinsViewCache) : Connect Unit :=
  modify fun s => { s with view := view }

def modifyStake (f : StakeStore → StakeStore) : Connect Unit :=
  modify fun s => { s with stake := f s.stake }

def modifyIndex (f : CAddressIndexDB → CAddressIndexDB) : Connect Unit :=
  modify fun s => { s with addressIndex := f s.addressIndex }

end Connect

def DEFAULT_TRANSACTION_MINFEE : CAmount := 1000

def getFee (nSatoshisPerK : CAmount) (nSize : Nat) : Traced CAmount := do
  let scaled ← amount (nSatoshisPerK * nSize)
  let nFee := scaled.tdiv 1000
  pure <|
    if nFee = 0 && nSize ≠ 0 then
      if nSatoshisPerK > 0 then 1 else if nSatoshisPerK < 0 then -1 else nFee
    else nFee

def NORMAL_SERIALIZE_SIZE : Nat := 84

def txOffset (vtx : List CTransaction) (hash : Uint256) : Nat :=
  go (getSizeOfCompactSize vtx.length + NORMAL_SERIALIZE_SIZE) 0 vtx
where
  go (position offset : Nat) : List CTransaction → Nat
    | [] => offset
    | tx :: rest =>
      go (position + tx.serializeSize) (if tx.getHash = hash then position else offset) rest

namespace ConnectContext

variable [Crypto] (ctx : ConnectContext)

-- The time and the offset of a coin, as far as they are known.
def correctCoin (prevout : COutPoint) (coin : Coin) : Nat × Nat :=
  let pi : CBlockIndex := getAncestor ctx.chainActive coin.nHeight
  if pi = [] then (0, 0) else
  let time := pi.getBlockTime.toNat
  if ctx.params.forkNumber coin.nHeight ≥ 3 then (time, 0) else
  match ctx.readBlockFromDisk pi with
  | none => (time, 0)
  | some block => (time, txOffset block.vtx prevout.hash)

variable (block : CBlock) (pindex : CBlockIndex)

-- The hash of the kernel of a proof-of-stake block, whose coin is looked up at the active tip.
def checkKernel : Connect Uint256 :=
  if !block.isProofOfStake then pure 0 else
  if ctx.params.forkNumber (nHeight pindex) < 2 then Connect.check plainError else
  match block.vtx[1]? with
  | none => Connect.check plainError
  | some coinstake =>
    match coinstake.vin with
    | [] => Connect.check plainError
    | txin :: _ =>
      match ctx.pcoinsTip.unspent txin.prevout with
      | none => Connect.check (dos 1 0 "")
      | some coin => do
        let (time, offset) := ctx.correctCoin txin.prevout coin
        match ← Connect.stake (checkProofOfStake ctx.params ctx.chainActive block.getBlockHeader
            txin.prevout coin.out.nValue time offset) with
        | none => Connect.check (dos 1 0 "")
        | some hashProofOfStake => return hashProofOfStake

def storeStake (hashProofOfStake : Uint256) (fJustCheck : Bool) : Connect Unit :=
  if block.isNewestFormat then pure () else do
  let (nStakeModifier, fGenerated) ←
    Connect.stake (getStakeModifier ctx.params ctx.lookupBlockIndex pindex)
  Connect.modifyStake (StakeStore.setStakeModifier pindex nStakeModifier fGenerated)
  Connect.when (!fJustCheck && block.isProofOfStake)
    (Connect.modifyStake (StakeStore.setStakeHash pindex hashProofOfStake))

-- What `AbortNode` makes of a rejection of the block as possibly corrupt.
def abortIfCorrupt : Failure → Failure
  | .returned state =>
    .returned (if state.corruptionPossible then { state with mode := .error } else state)
  | .fault f => .fault f

-- The output sums of `CheckTransaction`, unless the block has been checked before.
def checkBlockAmounts : Traced Unit where
  val := ()
  exact := if block.fChecked then [] else
    block.vtx.flatMap fun tx => (checkOutputs 0 tx.vout).exact

variable (fJustCheck : Bool)

def checkBlockAgain : Connect Unit := do
  Connect.traced (checkBlockAmounts block)
  Connect.check <|
    (checkBlock ctx.checkContext block pindex.tail (!fJustCheck) (!fJustCheck)).1.mapError
      abortIfCorrupt

def assertBestBlock : Connect Unit := do
  let view := (← get).view
  Connect.check <| rejectIf (CBlockIndex.getBlockHash pindex.tail ≠ view.getBestBlock)
    (fault .assertion)

def checkBIP30 : Connect Unit := do
  let view := (← get).view
  Connect.check <| rejectIf
    (block.vtx.any fun tx =>
      (List.range tx.vout.length).any fun o => view.haveCoin (tx.outpoint o))
    (.dos 100 REJECT_INVALID "bad-txns-BIP30")

structure Totals where
  nFees : CAmount := 0
  nSigOpsCost : Nat := 0
  posReward : CAmount := 0
  vtxundo : CBlockUndo := []
  -- The verdict of the script checks in other threads.
  scriptQueue : Bool := true

variable (tx : CTransaction)

def coinstakeReward (txfee : CAmount) : Connect CAmount := do
  let view := (← get).view
  let minFee ← Connect.traced (getFee DEFAULT_TRANSACTION_MINFEE tx.serializeSize)
  Connect.check <| rejectIf (txfee < minFee)
    (.dos 100 REJECT_INVALID "bad-txns-coinstake-fee-too-small")
  match getCoinAge ctx.params ctx.chainActive tx view block.nTime with
  | none => Connect.check plainError
  | some nCoinAge =>
    Connect.traced (getProofOfStakeReward ctx.params (wrap64 nCoinAge) pindex.nPowHeight)

variable (i : Nat)

def isCoinstake : Bool :=
  block.isProofOfStake && i = 1

variable (tx : CTransaction)

def updateReward (txfee posReward : CAmount) : Connect CAmount :=
  if isCoinstake block i then ctx.coinstakeReward block pindex tx txfee
  else pure posReward

def checkSequenceLocks (view : CCoinsViewCache) : Check Unit :=
  let prevheights := tx.vin.map fun txin => (view.accessCoin txin.prevout).nHeight
  match sequenceLocks tx (nHeight pindex ≥ ctx.params.CSVHeight) prevheights pindex with
  | .error f => fault f
  | .ok final => rejectIf (!final) (.dos 100 REJECT_INVALID "bad-txns-nonfinal")

-- The index entries of the spent outputs. Without a transaction index they are tombstones.
def spentEntry (coin : Coin) (j : Nat) : CAddressValue where
  value := coin.out.nValue
  height := if ctx.fTxIndex then coin.nHeight else 0
  iscoinbase := coin.isCoinBase
  spend_height := nHeight pindex
  spend_hash := tx.getHash
  spend_n := j

def indexSpent (view : CCoinsViewCache) (index : CAddressIndexDB) : CAddressIndexDB :=
  if !ctx.fAddressIndex then index else
  tx.vin.zipIdx.foldl (fun index (txin, j) =>
    let coin := view.accessCoin txin.prevout
    index.write (CAddressKey.ofScript coin.out.scriptPubKey txin.prevout)
      (ctx.spentEntry pindex tx coin j)) index

def createdEntry (out : CTxOut) : CAddressValue where
  value := out.nValue
  height := nHeight pindex
  iscoinbase := tx.isCoinBase

def indexOutputs (index : CAddressIndexDB) : CAddressIndexDB :=
  if !ctx.fAddressIndex then index else
  tx.vout.zipIdx.foldl (fun index (out, k) =>
    if out.scriptPubKey.isUnspendable then index else
    index.write (CAddressKey.ofScript out.scriptPubKey (tx.outpoint k)) (createdEntry pindex tx out))
    index

variable (totals : Totals)

def connectInputs : Connect Totals :=
  if tx.isCoinBase then pure totals else do
  let view := (← get).view
  let checked ← Connect.traced <|
    checkTxInputs ctx.params ctx.chainActive tx view (nHeight pindex) pindex.getBlockTime
  let txfee ← Connect.check checked
  let nFees ← Connect.traced (amount (totals.nFees + txfee))
  Connect.check <| rejectIf (!moneyRange nFees)
    (.dos 100 REJECT_INVALID "bad-txns-accumulated-fee-outofrange")
  let posReward ← ctx.updateReward block pindex i tx txfee totals.posReward
  Connect.check (ctx.checkSequenceLocks pindex tx view)
  Connect.modifyIndex (ctx.indexSpent pindex tx view)
  return { totals with nFees := nFees, posReward := posReward }

def countSigOps : Connect Totals := do
  let view := (← get).view
  let cost ← Connect.check <|
    getTransactionSigOpCost tx view (getBlockScriptFlags pindex ctx.params)
  let nSigOpsCost := totals.nSigOpsCost + cost
  Connect.check <| rejectIf (nSigOpsCost > MAX_BLOCK_SIGOPS_COST)
    (.dos 100 REJECT_INVALID "bad-blk-sigops")
  return { totals with nSigOpsCost := nSigOpsCost }

def checkScripts : Connect Totals :=
  if tx.isCoinBase then pure totals else do
  let view := (← get).view
  let verdict := ctx.checkInputs (getBlockScriptFlags pindex ctx.params) tx (inputCoins tx view)
  Connect.check (if ctx.fScriptQueue then .ok () else verdict)
  return { totals with scriptQueue := totals.scriptQueue && verdict.toBool }

-- Applies a transaction to the view and keeps its undo data, unless it is the first one.
def applyTransaction : Connect Totals := do
  let view := (← get).view
  let (vprevout, view) ← Connect.check (view.updateCoins tx (nHeight pindex))
  Connect.setView view
  return { totals with vtxundo := totals.vtxundo ++ if i = 0 then [] else [vprevout] }

def connectTransaction : Connect Totals := do
  let totals ← ctx.connectInputs block pindex i tx totals
  let totals ← ctx.countSigOps pindex tx totals
  let totals ← ctx.checkScripts pindex tx totals
  Connect.modifyIndex (ctx.indexOutputs pindex tx)
  applyTransaction pindex i tx totals

def connectTransactions (block : CBlock) (pindex : CBlockIndex) :
    List (CTransaction × Nat) → Totals → Connect Totals
  | [], totals => return totals
  | (tx, i) :: rest, totals => do
    let totals ← ctx.connectTransaction block pindex i tx totals
    connectTransactions block pindex rest totals

def blockSubsidy (posReward : CAmount) : Traced CAmount :=
  if block.isProofOfWork then getBlockSubsidy ctx.params pindex.nPowHeight else pure posReward

-- The coinbase pays at most the fees and the reward, and no less in the newest format.
def checkReward : Connect Unit := do
  let reward ← Connect.traced (ctx.blockSubsidy block pindex totals.posReward)
  let blockReward ← Connect.traced (amount (totals.nFees + reward))
  match block.vtx.head? with
  | none => Connect.check (fault .outOfRange)
  | some coinbase =>
    match ← Connect.traced coinbase.getValueOut with
    | none => Connect.check (fault .exception)
    | some valueOut =>
      Connect.check <| rejectIf
        (valueOut > blockReward || (valueOut < blockReward && block.isNewestFormat))
        (.dos 100 REJECT_INVALID "bad-cs-amount")

def writeUndoDataForBlock (blockundo : CBlockUndo) (s : ConnectState) : ConnectState :=
  match s.undo pindex with
  | some _ => s
  | none => { s with undo := Function.update s.undo pindex (some blockundo) }

def setBestBlock (hash : Uint256) (s : ConnectState) : ConnectState :=
  { s with view := s.view.setBestBlock hash }

def storeBlock (blockundo : CBlockUndo) : Connect Unit := do
  modify (writeUndoDataForBlock pindex blockundo)
  modify (setBestBlock pindex.getBlockHash)

def connectContents : Connect Unit := do
  Connect.check <| rejectIf (pindex.tail = []) (fault .assertion)
  checkBIP30 block
  let totals ← ctx.connectTransactions block pindex block.vtx.zipIdx {}
  ctx.checkReward block pindex totals
  Connect.check <| rejectIf (ctx.fScriptQueue && !totals.scriptQueue)
    (.dos 100 REJECT_INVALID "block-validation-failed")
  Connect.when (!fJustCheck) (storeBlock pindex totals.vtxundo)

def connectBlock : Connect Unit := do
  Connect.check <| rejectIf (pindex = [] || pindex.getBlockHash ≠ block.getHash)
    (fault .assertion)
  let hashProofOfStake ← ctx.checkKernel block pindex
  ctx.storeStake block pindex hashProofOfStake fJustCheck
  ctx.checkBlockAgain block pindex fJustCheck
  assertBestBlock pindex
  if block.getHash = ctx.params.hashGenesisBlock then
    Connect.when (!fJustCheck) (modify (setBestBlock pindex.getBlockHash))
  else ctx.connectContents block pindex fJustCheck

end ConnectContext

end Taler
