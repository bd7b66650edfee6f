import TalerModel.Validation.State

namespace Taler

def LOCKTIME_THRESHOLD : Nat := 500000000

variable (tx : CTransaction)

def isFinalTx (nBlockHeight : Nat) (nBlockTime : Int) : Bool :=
  if tx.nLockTime = 0 then true else
  let bound : Int := if tx.nLockTime < LOCKTIME_THRESHOLD then nBlockHeight else nBlockTime
  if tx.nLockTime < bound then true else
  tx.vin.all (·.nSequence = SEQUENCE_FINAL)

def getLegacySigOpCount : Nat :=
  (tx.vin.map (·.scriptSig.getSigOpCount false)).sum +
  (tx.vout.map (·.scriptPubKey.getSigOpCount false)).sum

-- No output amount is negative, and none of them nor a running sum exceeds the maximal amount.
def checkOutputs : CAmount → List CTxOut → Traced (Check Unit)
  | _, [] => pure (.ok ())
  | nValueOut, out :: rest =>
    if out.nValue < 0 then
      pure (.dos 100 REJECT_INVALID "bad-txns-vout-negative")
    else if out.nValue > MAX_MONEY then
      pure (.dos 100 REJECT_INVALID "bad-txns-vout-toolarge")
    else do
      let nValueOut ← amount (nValueOut + out.nValue)
      if !moneyRange nValueOut then
        pure (.dos 100 REJECT_INVALID "bad-txns-txouttotal-toolarge")
      else checkOutputs nValueOut rest

def hasDuplicateInputs (vin : List CTxIn) : Bool :=
  !(vin.map CTxIn.prevout).Nodup

def checkTransaction (fCheckDuplicateInputs : Bool) : Check Unit := do
  Check.rejectIf tx.vin.isEmpty (.dos 10 REJECT_INVALID "bad-txns-vin-empty")
  Check.rejectIf tx.vout.isEmpty (.dos 10 REJECT_INVALID "bad-txns-vout-empty")
  Check.rejectIf (tx.strippedSize * WITNESS_SCALE_FACTOR > MAX_BLOCK_WEIGHT)
    (.dos 100 REJECT_INVALID "bad-txns-oversize")
  (checkOutputs 0 tx.vout).val
  Check.rejectIf (fCheckDuplicateInputs && hasDuplicateInputs tx.vin)
    (.dos 100 REJECT_INVALID "bad-txns-inputs-duplicate")
  if tx.isCoinBase then
    match tx.vin with
    | [] => Check.fault .outOfRange
    | txin :: _ =>
      Check.rejectIf (txin.scriptSig.length < 2 || txin.scriptSig.length > 100)
        (.dos 100 REJECT_INVALID "bad-cb-length")
  else
    Check.rejectIf (tx.vin.any (·.prevout.isNull)) (.dos 10 REJECT_INVALID "bad-txns-prevout-null")

lemma checkOutputs_returns (vout n) : (checkOutputs n vout).val.Returns := by
  induction vout generalizing n
  case nil => simp [checkOutputs]
  case cons out rest hi =>
  simp only [checkOutputs]
  repeat' split
  case isTrue => simp
  case isTrue => simp
  simp only [Traced.bind_val]
  split
  · simp
  · exact hi _

lemma checkTransaction_returns (f) : (checkTransaction tx f).Returns := by
  simp only [checkTransaction, Check.bind_returns, Check.rejectIf_returns, checkOutputs_returns,
    true_and]
  intros
  split
  case isTrue h =>
    cases hv : tx.vin
    case nil => simp [CTransaction.isCoinBase, hv] at h
    case cons => simp
  · simp

end Taler
