import TalerModel.Chain.BlockIndex
import TalerModel.Coins.View
import TalerModel.Consensus.TxVerify

namespace Taler

section

def SEQUENCE_LOCKTIME_DISABLE_FLAG : Nat := 1 <<< 31
def SEQUENCE_LOCKTIME_TYPE_FLAG : Nat := 1 <<< 22
def SEQUENCE_LOCKTIME_MASK : Nat := 0x0000ffff
def SEQUENCE_LOCKTIME_GRANULARITY : Nat := 9

structure LockPair where
  nMinHeight : Int := -1
  nMinTime : Int := -1
  deriving DecidableEq, Repr

-- What one input adds. A missing ancestor is dereferenced.
def LockPair.extend (block : CBlockIndex) (lock : LockPair) (txin : CTxIn) (nCoinHeight : Nat) :
    Except Fault LockPair :=
  let value := txin.nSequence &&& SEQUENCE_LOCKTIME_MASK
  if txin.nSequence &&& SEQUENCE_LOCKTIME_DISABLE_FLAG ≠ 0 then .ok lock else
  if txin.nSequence &&& SEQUENCE_LOCKTIME_TYPE_FLAG ≠ 0 then
    match getAncestor block (nCoinHeight - 1) with
    | [] => .error .outOfRange
    | ancestor =>
      let nCoinTime := CBlockIndex.getMedianTimePast ancestor
      let nTime := nCoinTime + (value <<< SEQUENCE_LOCKTIME_GRANULARITY : Nat) - 1
      .ok { lock with nMinTime := max lock.nMinTime nTime }
  else .ok { lock with nMinHeight := max lock.nMinHeight (nCoinHeight + value - 1) }

def extendAll (block : CBlockIndex) : LockPair → List (CTxIn × Nat) → Except Fault LockPair
  | lock, [] => .ok lock
  | lock, (txin, nCoinHeight) :: rest =>
    match lock.extend block txin nCoinHeight with
    | .error f => .error f
    | .ok lock => extendAll block lock rest

-- `verifySequence` is the flag `LOCKTIME_VERIFY_SEQUENCE`. The version is compared as unsigned.
def calculateSequenceLocks (tx : CTransaction) (verifySequence : Bool) (prevHeights : List Nat)
    (block : CBlockIndex) : Except Fault LockPair :=
  if prevHeights.length ≠ tx.vin.length then .error .assertion else
  if !(tx.nVersion.toNat ≥ 2 && verifySequence) then .ok {} else
  extendAll block {} (tx.vin.zip prevHeights)

def evaluateSequenceLocks (block : CBlockIndex) (lock : LockPair) : Except Fault Bool :=
  match block.tail with
  | [] => .error .assertion
  | pprev =>
    .ok !(lock.nMinHeight ≥ nHeight block || lock.nMinTime ≥ CBlockIndex.getMedianTimePast pprev)

def sequenceLocks (tx : CTransaction) (verifySequence : Bool) (prevHeights : List Nat)
    (block : CBlockIndex) : Except Fault Bool :=
  match calculateSequenceLocks tx verifySequence prevHeights block with
  | .error f => .error f
  | .ok lock => evaluateSequenceLocks block lock

end

section

-- The script verification flags that depend on the height.
structure ScriptFlags where
  p2sh : Bool
  dersig : Bool
  checkLockTimeVerify : Bool
  checkSequenceVerify : Bool
  witness : Bool
  nullDummy : Bool
  deriving DecidableEq, Repr

def getBlockScriptFlags (pindex : CBlockIndex) (params : Params) : ScriptFlags where
  p2sh := true
  dersig := nHeight pindex ≥ params.BIP66Height
  checkLockTimeVerify := nHeight pindex ≥ params.BIP65Height
  checkSequenceVerify := nHeight pindex ≥ params.CSVHeight
  witness := nHeight pindex ≥ params.WitnessHeight
  nullDummy := nHeight pindex ≥ params.WitnessHeight

def witnessSigOps (witversion : Nat) (witprogram : List UInt8) (stack : List (List UInt8)) : Nat :=
  if witversion = 0 && witprogram.length = 20 then 1 else
  if witversion = 0 && witprogram.length = 32 then
    (stack.getLast?.map fun script => CScript.getSigOpCount script true).getD 0
  else 0

def countWitnessSigOps (txin : CTxIn) (scriptPubKey : CScript) (flags : ScriptFlags) : Nat :=
  if !flags.witness then 0 else
  match scriptPubKey.isWitnessProgram with
  | some (version, program) => witnessSigOps version program txin.scriptWitness
  | none =>
    if scriptPubKey.isPayToScriptHash && txin.scriptSig.isPushOnly then
      let subscript : CScript := ((CScript.ops txin.scriptSig).1.getLast?.map Prod.snd).getD []
      match subscript.isWitnessProgram with
      | some (version, program) => witnessSigOps version program txin.scriptWitness
      | none => 0
    else 0

def getP2SHSigOpCount (inputs : List (CTxIn × Coin)) : Nat :=
  (inputs.map fun (txin, coin) =>
    if coin.out.scriptPubKey.isPayToScriptHash then
      coin.out.scriptPubKey.getSigOpCountP2SH txin.scriptSig
    else 0).sum

def inputCoins (tx : CTransaction) (view : CCoinsViewCache) : List (CTxIn × Coin) :=
  tx.vin.map fun txin => (txin, view.accessCoin txin.prevout)

def getTransactionSigOpCost (tx : CTransaction) (inputs : CCoinsViewCache) (flags : ScriptFlags) :
    Check Nat :=
  let nSigOps := getLegacySigOpCount tx * WITNESS_SCALE_FACTOR
  if tx.isCoinBase then .ok nSigOps else
  let coins := inputCoins tx inputs
  if coins.any (·.2.isSpent) then Check.fault .assertion else
  let nP2SH := if flags.p2sh then getP2SHSigOpCount coins * WITNESS_SCALE_FACTOR else 0
  let nWitness :=
    (coins.map fun (txin, coin) => countWitnessSigOps txin coin.out.scriptPubKey flags).sum
  .ok (nSigOps + nP2SH + nWitness)

end

section

variable (params : Params) (chainActive : CBlockIndex)

def coinMaturity (nSpendHeight : Nat) : Nat :=
  if params.forkNumber nSpendHeight ≥ 3 then 50 else COINBASE_MATURITY

def spendsImmature (coin : Coin) (nSpendHeight : Nat) : Bool :=
  coin.isCoinBase && (nSpendHeight : Int) - coin.nHeight < coinMaturity params nSpendHeight

-- Since the second fork a coin must not be spent at a time before its own block's.
def spendsTooEarly (coin : Coin) (nSpendHeight : Nat) (nTime : Int) : Bool :=
  params.forkNumber nSpendHeight ≥ 2 &&
    let pindex := getAncestor chainActive coin.nHeight
    pindex ≠ [] && CBlockIndex.getBlockTime pindex > nTime

def checkInputValues (inputs : CCoinsViewCache) (nSpendHeight : Nat) (nTime : Int) :
    CAmount → List CTxIn → Traced (Check CAmount)
  | nValueIn, [] => pure (.ok nValueIn)
  | nValueIn, txin :: vin =>
    let coin := inputs.accessCoin txin.prevout
    if coin.isSpent then
      pure (Check.fault .assertion)
    else if spendsImmature params coin nSpendHeight then
      pure (.dos 0 REJECT_INVALID "bad-txns-premature-spend-of-coinbase")
    else if spendsTooEarly params chainActive coin nSpendHeight nTime then
      pure (.dos 100 REJECT_INVALID "bad-txns-spent-too-early")
    else do
      let nValueIn ← amount (nValueIn + coin.out.nValue)
      if !moneyRange coin.out.nValue || !moneyRange nValueIn then
        pure (.dos 100 REJECT_INVALID "bad-txns-inputvalues-outofrange")
      else checkInputValues inputs nSpendHeight nTime nValueIn vin

def checkFee (tx : CTransaction) (nValueIn : CAmount) : Traced (Check CAmount) := do
  match ← tx.getValueOut with
  | none => pure (Check.fault .exception)
  | some value_out =>
    if nValueIn < value_out then
      pure (.dos 100 REJECT_INVALID "bad-txns-in-belowout")
    else do
      let txfee_aux ← amount (nValueIn - value_out)
      if !moneyRange txfee_aux then
        pure (.dos 100 REJECT_INVALID "bad-txns-fee-outofrange")
      else pure (.ok txfee_aux)

def checkTxInputs (tx : CTransaction) (inputs : CCoinsViewCache) (nSpendHeight : Nat)
    (nTime : Int) : Traced (Check CAmount) :=
  if !inputs.haveInputs tx then
    pure (.dos 100 REJECT_INVALID "bad-txns-inputs-missingorspent")
  else do
    match ← checkInputValues params chainActive inputs nSpendHeight nTime 0 tx.vin with
    | .error e => pure (.error e)
    | .ok nValueIn => checkFee tx nValueIn

end

end Taler
