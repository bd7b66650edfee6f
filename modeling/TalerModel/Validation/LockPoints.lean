import TalerModel.Consensus.Theorems.SequenceLocks

namespace Taler

open CBlockIndex List

def MEMPOOL_HEIGHT : Nat := 0x7fffffff

structure LockPoints where
  height : Int := 0
  time : Int := 0
  maxInputBlock : CBlockIndex := []

-- What is asked of the node: the active chain, headed by its tip, and `CCoinsViewMemPool`.
structure PoolView where
  tip : CBlockIndex
  getCoin : COutPoint → Option Coin

namespace PoolView

variable (view : PoolView)

-- The next block, of which only the height and the parent are looked at.
def index : CBlockIndex :=
  .null :: view.tip

-- Transactions in the pool are assumed to confirm in the next block.
def prevHeight (txin : CTxIn) : Nat :=
  match view.getCoin txin.prevout with
  | none => 0
  | some coin => if coin.nHeight = MEMPOOL_HEIGHT then nHeight view.tip + 1 else coin.nHeight

-- `CalculateSequenceLocks` leaves zero for an input that is not locked.
def lockedHeights (tx : CTransaction) (verifySequence : Bool) (prevheights : List Nat) : List Nat :=
  if !(tx.nVersion.toNat ≥ 2 && verifySequence) then prevheights else
  (tx.vin.zip prevheights).map fun p =>
    if p.1.nSequence &&& SEQUENCE_LOCKTIME_DISABLE_FLAG ≠ 0 then 0 else p.2

def maxInputHeight (prevheights : List Nat) : Nat :=
  (prevheights.filter (· ≠ nHeight view.tip + 1)).max?.getD 0

-- The answer, and the lock points after the call.
def checkSequenceLocks (tx : CTransaction) (verifySequence : Bool) (lp : LockPoints)
    (useExistingLockPoints : Bool) : Except Fault (Bool × LockPoints) :=
  if view.tip = [] then .error .assertion else
  if useExistingLockPoints then
    (evaluateSequenceLocks view.index ⟨lp.height, lp.time⟩).map (·, lp)
  else if tx.vin.any fun txin => (view.getCoin txin.prevout).isNone then .ok (false, lp)
  else do
    let prevheights := tx.vin.map view.prevHeight
    let lockPair ← calculateSequenceLocks tx verifySequence prevheights view.index
    let fFinal ← evaluateSequenceLocks view.index lockPair
    let prevheights := lockedHeights tx verifySequence prevheights
    .ok (fFinal, {
      height := lockPair.nMinHeight
      time := lockPair.nMinTime
      maxInputBlock := getAncestor view.tip (view.maxInputHeight prevheights) })

end PoolView

namespace PoolView

-- A chain with a pool that fits it; `creates` says which outputs the block with a header has.
structure Fits (creates : IndexHeader → COutPoint → Prop) (view : PoolView) : Prop where
  ne_nil : view.tip ≠ []
  times : ∀ p, p <:+ view.tip → p.tail ≠ [] → getMedianTimePast p.tail < getBlockTime p
  confirmed : view.getCoin o = some coin → coin.nHeight ≠ MEMPOOL_HEIGHT →
    ∃ b p, b :: p <:+ view.tip ∧ p.length = coin.nHeight ∧ creates b o
  pooled : view.getCoin o = some coin → coin.nHeight = MEMPOOL_HEIGHT → ∀ b ∈ view.tip, ¬creates b o
  once : b :: p <:+ view.tip → c :: q <:+ view.tip → creates b o → creates c o →
    p.length = q.length

variable {view : PoolView} {creates : IndexHeader → COutPoint → Prop} {tx : CTransaction}
  {verifySequence : Bool}

end PoolView

end Taler
