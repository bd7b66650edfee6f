import TalerModel.Chain.BlockIndex
import TalerModel.Consensus.Merkle
import TalerModel.Consensus.TxVerify

namespace Taler

open Check

variable [Crypto]

-- What a check sees of the outside: the parameters, and `LookupBlockIndex` at the time of the call.
structure CheckContext where
  params : Params
  lookupBlockIndex : Uint256 → CBlockIndex

variable (ctx : CheckContext)

-- The height at which the proof of work is checked. It is 0 if the parent is unknown.
def powCheckHeight (block : CBlockHeader) (pindexPrev : CBlockIndex) : Nat :=
  if pindexPrev ≠ [] then nHeight pindexPrev + 1 else
  let pi := ctx.lookupBlockIndex block.hashPrevBlock
  if pi ≠ [] then nHeight pi + 1 else 0

def checkBlockHeader (block : CBlockHeader) (pindexPrev : CBlockIndex)
    (fCheckPOW : Bool) : Check Unit :=
  rejectIf
    (fCheckPOW && !block.isProofOfStake &&
      !checkProofOfWork block (powCheckHeight ctx block pindexPrev) ctx.params)
    (.dos 50 REJECT_INVALID "high-hash")

variable (block : CBlock)

def checkMerkleRoot : Check Unit := do
  rejectIf (block.hashMerkleRoot ≠ (blockMerkleRoot block).1)
    (.dos 100 REJECT_INVALID "bad-txnmrklroot" true)
  rejectIf (blockMerkleRoot block).2
    (.dos 100 REJECT_INVALID "bad-txns-duplicate" true)

def checkTransactions : List CTransaction → Check Unit
  | [] => .ok ()
  | tx :: vtx => do
    checkTransaction tx true
    checkTransactions vtx

def checkCoinbase : List CTransaction → Check Unit
  | [] => dos 100 REJECT_INVALID "bad-cb-missing"
  | coinbase :: rest => do
    rejectIf (!coinbase.isCoinBase) (.dos 100 REJECT_INVALID "bad-cb-missing")
    rejectIf (rest.any CTransaction.isCoinBase) (.dos 100 REJECT_INVALID "bad-cb-multiple")

-- The checks of the contents alone. The size is measured in the format that the flag selects.
def checkContents : Check Unit := do
  rejectIf
    (block.vtx.isEmpty || block.vtx.length * WITNESS_SCALE_FACTOR > MAX_BLOCK_WEIGHT ||
      block.strippedSize (!block.isNewFormatBlock) * WITNESS_SCALE_FACTOR > MAX_BLOCK_WEIGHT)
    (.dos 100 REJECT_INVALID "bad-blk-length")
  checkCoinbase block.vtx
  checkTransactions block.vtx
  rejectIf
    ((block.vtx.map getLegacySigOpCount).sum * WITNESS_SCALE_FACTOR > MAX_BLOCK_SIGOPS_COST)
    (.dos 100 REJECT_INVALID "bad-blk-sigops")

-- The block signature has to be made with the key of the coinstake's first output.
def checkBlockSignature (params : Params) (block : CBlock) : Except Fault Bool :=
  if block.getHash = params.hashGenesisBlock || !block.isProofOfStake then
    .ok block.vchBlockSig.isEmpty
  else match block.vtx[1]? with
  | none => .error .outOfRange
  | some tx =>
    match tx.vout[0]? with
    | none => .error .outOfRange
    | some txout =>
      match solver txout.scriptPubKey with
      | some (.pubkey, vSolutions) =>
        match vSolutions[0]? with
        | none => .error .outOfRange
        | some vchPubKey =>
          .ok (!block.vchBlockSig.isEmpty &&
            Crypto.verify vchPubKey block.getHash block.vchBlockSig)
      | _ => .ok false

def requireBlockSignature (params : Params) (block : CBlock) : Check Unit :=
  match checkBlockSignature params block with
  | .error f => fault f
  | .ok valid => rejectIf (!valid) (.dos 100 REJECT_INVALID "bad-blk-sign")

def isWitnessCommitment (script : CScript) : Bool :=
  script.length ≥ 38 && script.take 6 = [OP_RETURN, 0x24, 0xaa, 0x21, 0xa9, 0xed]

def makeCheckStakeScript : CScript :=
  let leaf (i : Nat) (tx : CTransaction) : Uint256 :=
    if i = 0 then
      Crypto.coinbaseLeaf tx.nVersion tx.vin
        (tx.vout.filter fun out =>
          !(out.scriptPubKey.length = 38 && isWitnessCommitment out.scriptPubKey))
        tx.nLockTime
    else if i = 1 then
      Crypto.headerLeaf block.nVersion block.hashPrevBlock block.nTime block.nBits block.nNonce
    else tx.getHash
  let leaves := block.vtx.zipIdx.map fun (tx, i) => leaf i tx
  [OP_RETURN, 0x22, 0x6B, 0x76] ++ hashBytes (computeMerkleRoot leaves).1

-- Would replace the block signature after the third fork. Its size tests do not return.
def checkStakeMerkle : Check Unit :=
  match block.vtx[1]? with
  | none => fault .outOfRange
  | some tx =>
    match tx.vout[0]? with
    | none => fault .outOfRange
    | some out =>
      let sign := makeCheckStakeScript block
      rejectIf (out.scriptPubKey.length < sign.length || out.scriptPubKey.take 36 ≠ sign)
        (.dos 100 REJECT_INVALID "bad-stake-merkle")

def checkBeforeMemo (pindexPrev : CBlockIndex)
    (fCheckPOW fCheckMerkleRoot : Bool) : Check Unit := do
  checkBlockHeader ctx block.toCBlockHeader pindexPrev fCheckPOW
  if fCheckMerkleRoot then checkMerkleRoot block
  checkContents block

def checkAfterMemo (fCheckPOW : Bool) : Check Unit :=
  if fCheckPOW then
    let pi := ctx.lookupBlockIndex block.hashPrevBlock
    let height := if pi ≠ [] then nHeight pi else 0
    if ctx.params.forkNumber height < 3 then
      requireBlockSignature ctx.params block
    else if block.isProofOfStake then checkStakeMerkle block
    else .ok ()
  else .ok ()

def checkBlock (pindexPrev : CBlockIndex)
    (fCheckPOW fCheckMerkleRoot : Bool) : Check Unit × CBlock :=
  if block.fChecked then (.ok (), block) else
  match checkBeforeMemo ctx block pindexPrev fCheckPOW fCheckMerkleRoot with
  | .error e => (.error e, block)
  | .ok _ =>
    (checkAfterMemo ctx block fCheckPOW,
      { block with fChecked := block.fChecked || (fCheckPOW && fCheckMerkleRoot) })

end Taler
