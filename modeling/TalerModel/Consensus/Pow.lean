import TalerModel.Chain.BlockIndex
import TalerModel.Validation.State

namespace Taler

-- `arith_uint256` with machine integers. Multiplication takes 32 bits, division all 64 of them.
namespace ArithUint256

def bits (bn : Nat) : Nat :=
  if bn = 0 then 0 else bn.log2 + 1

def add (bn bn' : Nat) : Nat :=
  (bn + bn') % 2 ^ 256

def sub (bn n : Nat) : Nat :=
  (bn + 2 ^ 256 - n) % 2 ^ 256

def mul (bn : Nat) (n : Int) : Nat :=
  bn * (n % 2 ^ 32).toNat % 2 ^ 256

def div (bn : Nat) (n : Int) : Check Nat :=
  if (n % 2 ^ 64).toNat = 0 then Check.fault .exception else .ok (bn / (n % 2 ^ 64).toNat)

def shiftLeft (bn n : Nat) : Nat :=
  bn * 2 ^ n % 2 ^ 256

-- The mantissa is shifted by a byte if its highest bit, which is the sign, is set.
def getCompact (bn : Nat) : Nat :=
  let nSize := (bits bn + 7) / 8
  let nCompact := if nSize ≤ 3 then bn * 2 ^ (8 * (3 - nSize)) else bn / 2 ^ (8 * (nSize - 3))
  if nCompact / 2 ^ 23 % 2 = 1 then nCompact / 2 ^ 8 + (nSize + 1) * 2 ^ 24
  else nCompact + nSize * 2 ^ 24

-- The same with the words of the machine and the assertions.
def getCompactAsserted (bn : Nat) : Except Fault Nat :=
  let nSize := (bits bn + 7) / 8
  let nCompact :=
    (if nSize ≤ 3 then bn * 2 ^ (8 * (3 - nSize)) else bn / 2 ^ (8 * (nSize - 3))) % 2 ^ 32
  let (nCompact, nSize) :=
    if nCompact / 2 ^ 23 % 2 = 1 then (nCompact / 2 ^ 8, nSize + 1) else (nCompact, nSize)
  if nCompact < 2 ^ 23 ∧ nSize < 256 then .ok (nCompact + nSize * 2 ^ 24) else .error .assertion

end ArithUint256

open ArithUint256

def IndexHeader.target (b : IndexHeader) : Nat :=
  (setCompact b.nBits).target

namespace Params

variable (params : Params)

-- The spacings and timespans are positive.

def difficultyAdjustmentIntervalPow (nHeight : Nat) : Int :=
  params.nPowTargetTimespan /
    if nHeight ≥ params.TLRHeight then params.nPowTargetSpacing else params.nPowTargetSpacing * 5

def difficultyAdjustmentIntervalPos : Int :=
  params.nPosTargetTimespan / params.nPosTargetSpacing

-- The last entry of a kind up to `pindex`, or genesis. Stakes are sought where staking begins.
def getLastBlockIndex (fProofOfStake : Bool) : CBlockIndex → CBlockIndex
  | [] => []
  | [b] => [b]
  | b :: pprev =>
    if fProofOfStake then
      if b.fProofOfStake then b :: pprev else
      if params.forkNumber (nHeight (b :: pprev)) < 2 then [] else
      getLastBlockIndex fProofOfStake pprev
    else
      if b.fProofOfStake then getLastBlockIndex fProofOfStake pprev else b :: pprev

variable (pindexLast : CBlockIndex)

def getNextWorkRequiredForPos : Check Nat := do
  Check.rejectIf (params.forkNumber (nHeight pindexLast + 1) < 2) (Check.fault .assertion)
  match params.getLastBlockIndex true pindexLast with
  | [] => return getCompact params.posLimit
  | indexPrev :: pprev =>
    match params.getLastBlockIndex true pprev with
    | [] => return getCompact params.posLimit
    | [_] => return getCompact params.posLimit
    | indexPrevPrev :: _ :: _ =>
      let nActualSpacing : Int := indexPrev.nTime - indexPrevPrev.nTime
      let nInterval := params.difficultyAdjustmentIntervalPos
      let bnNew := mul indexPrev.target
        ((nInterval - 1) * params.nPosTargetSpacing + nActualSpacing + nActualSpacing)
      let bnNew := if nHeight pindexLast + 1 ≥ 730000 then min bnNew (0xe * 2 ^ 252 - 1) else bnNew
      let bnNew ← div bnNew ((nInterval + 1) * params.nPosTargetSpacing)
      return getCompact (min bnNew params.powLimit)

def lastUsual (nProofOfWorkLimit : Nat) : CBlockIndex → CBlockIndex
  | [] => []
  | b :: pprev =>
    let nHeight := nHeight (b :: pprev)
    if pprev ≠ [] ∧ (nHeight : Int) % params.difficultyAdjustmentIntervalPow nHeight ≠ 0 ∧
        b.nBits = nProofOfWorkLimit then
      lastUsual nProofOfWorkLimit pprev
    else b :: pprev

-- The adjustment is limited to a factor of `n` in each direction.
def limited (nActualTimespan nTargetTimespan n : Int) : Int :=
  let nActualTimespan := max nActualTimespan (nTargetTimespan / n)
  min nActualTimespan (nTargetTimespan * n)

def getNextWorkRequiredBTC (nTime : Nat) : Check Nat := do
  let nProofOfWorkLimit := getCompact params.powLimitLegacy
  let nNextHeight := nHeight pindexLast + 1
  let nInterval := params.difficultyAdjustmentIntervalPow nNextHeight
  match pindexLast with
  | [] => Check.fault .assertion
  | indexLast :: _ =>
    if (nNextHeight : Int) % nInterval ≠ 0 then
      if params.fPowAllowMinDifficultyBlocks then
        if (nTime : Int) > indexLast.nTime + params.nPowTargetSpacing * 5 * 2 then
          return nProofOfWorkLimit
        else
          match params.lastUsual nProofOfWorkLimit pindexLast with
          | [] => Check.fault .outOfRange
          | b :: _ => return b.nBits
      else return indexLast.nBits
    else
      let blockstogoback := if nNextHeight ≠ nInterval then nInterval else nInterval - 1
      match pindexLast.drop blockstogoback.toNat with
      | [] => Check.fault .assertion
      | indexFirst :: _ =>
        if params.fPowNoRetargeting then return indexLast.nBits else
        let nActualTimespan := limited (indexLast.nTime - indexFirst.nTime) params.nPowTargetTimespan 4
        let bnNew := indexLast.target
        let fShift : Bool := bits bnNew > bits params.powLimitLegacy - 1
        let bnNew := if fShift then bnNew / 2 else bnNew
        let bnNew := mul bnNew nActualTimespan
        let bnNew ← div bnNew params.nPowTargetTimespan
        let bnNew := if fShift then shiftLeft bnNew 1 else bnNew
        return getCompact (min bnNew params.powLimitLegacy)

-- The loop of both averages: the first target counts twice, and the last entry has no interval.
def gravityLoop (last : CBlockIndex → CBlockIndex) (nBlocks : Nat) :
    Nat → CBlockIndex → Nat → Int → Check (Nat × Int)
  | 0, _, bnNew, nActualTimespan => .ok (bnNew, nActualTimespan)
  | _ + 1, [], _, _ => Check.fault .outOfRange
  | n + 1, b :: pprev, bnNew, nActualTimespan =>
    let bnNew := if n + 1 = nBlocks then b.target else bnNew
    let bnNew := add bnNew b.target
    if n = 0 then .ok (bnNew, nActualTimespan) else
    match last pprev with
    | [] => Check.fault .outOfRange
    | cur :: rest =>
      gravityLoop last nBlocks n (cur :: rest) bnNew (nActualTimespan + (b.nTime - cur.nTime))

def gravity (last : CBlockIndex → CBlockIndex) (nBlocks : Nat) (nTargetTimespan : Int)
    (pLast : CBlockIndex) : Check Nat :=
  if pLast = [] ∨ nHeight pLast < nBlocks then .ok (getCompact params.powLimit) else do
  let (bnNew, nActualTimespan) ← gravityLoop last nBlocks nBlocks pLast 0 0
  let bnNew ← div bnNew (nBlocks + 1)
  let bnNew := sub bnNew (nBlocks + 1)
  let bnNew := mul bnNew (limited nActualTimespan nTargetTimespan 3)
  let bnNew ← div bnNew nTargetTimespan
  return getCompact (min bnNew params.powLimit)

def darkGravityWaveOld : Check Nat :=
  let nTargetTimespan := params.nPowAveragingWindowv1 * params.nPowTargetSpacing
  params.gravity id params.nPowAveragingWindowv1
    (if nHeight pindexLast < params.TLRHeight then nTargetTimespan * 5 else nTargetTimespan) pindexLast

def darkGravityWave : Check Nat :=
  params.gravity (params.getLastBlockIndex false) params.nPowAveragingWindowv2
    (params.nPowAveragingWindowv2 * params.nPowTargetSpacing)
    (params.getLastBlockIndex false pindexLast)

def getNextWorkRequiredForPow (nTime : Nat) : Check Nat :=
  let nNextHeight := nHeight pindexLast + 1
  if nNextHeight < params.nLyra2ZHeight then params.getNextWorkRequiredBTC pindexLast nTime else
  if nNextHeight < params.nLyra2ZHeight + params.nPowAveragingWindowv1 then
    .ok (getCompact params.powLimit)
  else
  if nNextHeight < params.nNewDiffAdjustmentAlgorithmHeight then
    params.darkGravityWaveOld pindexLast
  else
  if nNextHeight < params.nNewDiffAdjustmentAlgorithmHeight + params.nPowAveragingWindowv2 then
    .ok 0x1c08b5b1
  else params.darkGravityWave pindexLast

-- The rule of the third fork, which never comes. The walk between entries stays where it is.

def thirdForkLoop (fProofOfStake : Bool) : Nat → CBlockIndex → Nat → Int → Option (Nat × Int)
  | 0, _, bnNew, srcTimes => some (bnNew, srcTimes)
  | _ + 1, [], _, _ => none
  | n + 1, b :: pprev, bnNew, srcTimes =>
    match (b :: pprev).dropWhile (·.fProofOfStake ≠ fProofOfStake) with
    | [] => none
    | c :: rest =>
      thirdForkLoop fProofOfStake n (c :: rest) (add bnNew b.target)
        (srcTimes + max ((b.nTime : Int) - c.nTime) 0)

def getNextWorkRequiredThirdFork (fProofOfStake : Bool) : Check Nat :=
  let bnLimit := params.powLimitLegacy
  let destBlockCount := 12
  let pPrev := pindexLast.dropWhile (·.fProofOfStake ≠ fProofOfStake)
  match pPrev with
  | [] => .ok (getCompact bnLimit)
  | indexPrev :: _ =>
    let bnOld := indexPrev.target
    if nHeight pindexLast - nHeight pPrev > destBlockCount then
      .ok (getCompact (min (shiftLeft bnOld 3) bnLimit))
    else
    match thirdForkLoop fProofOfStake destBlockCount pPrev 0 0 with
    | none => .ok (getCompact bnLimit)
    | some (bnNew, srcTimes) => do
      let bnNew ← div bnNew (destBlockCount * 2 * params.nPowTargetSpacing)
      let bnNew := mul bnNew srcTimes
      let bnNew := min bnNew (shiftLeft bnOld 2)
      let bnNew := max bnNew (bnOld / 2 ^ 3)
      return getCompact (min bnNew bnLimit)

-- The bits of a block of a kind on an entry. Its time only matters on test networks.
def getNextWorkRequired (fProofOfStake : Bool) (nTime : Nat) : Check Nat :=
  if pindexLast = [] then Check.fault .assertion else
  if params.forkNumber (nHeight pindexLast + 1) < 3 then
    if fProofOfStake then params.getNextWorkRequiredForPos pindexLast
    else params.getNextWorkRequiredForPow pindexLast nTime
  else params.getNextWorkRequiredThirdFork pindexLast fProofOfStake

def workLimit (nHeight : Nat) (fProofOfStake : Bool) : Nat :=
  if !fProofOfStake && nHeight < params.nLyra2ZHeight then params.powLimitLegacy else params.powLimit

end Params

end Taler
