import TalerModel.Chain.BlockIndex
import TalerModel.Library.LongDivision

namespace Taler

-- `GetBlockProof` as the 256-bit arithmetic computes it. There is no result if the division throws.
def findBlockProof (nBits : Nat) : Option (BitVec 256) :=
  let compact := setCompact nBits
  let bnTarget := BitVec.ofNat 256 compact.target
  if compact.fNegative || compact.fOverflow || bnTarget = 0 then some 0
  else (LongDivision.divide (~~~bnTarget) (bnTarget + 1)).map (· + 1)

structure ChainWork where
  word₀ : BitVec 32 := 0
  word₁ : BitVec 32 := 0
  word₂ : BitVec 32 := 0
  word₃ : BitVec 32 := 0
  deriving DecidableEq

namespace ChainWork

def get (work : ChainWork) : BitVec 256 :=
  (work.word₃ ++ work.word₂ ++ work.word₁ ++ work.word₀).setWidth 256

def set (nChainWork : BitVec 256) : ChainWork where
  word₀ := nChainWork.extractLsb' 0 32
  word₁ := nChainWork.extractLsb' 32 32
  word₂ := nChainWork.extractLsb' 64 32
  word₃ := nChainWork.extractLsb' 96 32

end ChainWork

variable {α : Type} [DecidableEq α] (nBits : α → Nat)

-- The assignment of `AddToBlockIndex` and `LoadBlockIndex`, in the words stored for an entry.
def setChainWork (stored : List α → ChainWork) (pindex : List α) : Option (List α → ChainWork) :=
  match pindex with
  | [] => none
  | b :: pprev => do
    let proof ← findBlockProof (nBits b)
    let nChainWork := (if pprev = [] then 0 else (stored pprev).get) + proof
    some (Function.update stored pindex (.set nChainWork))

structure WorkIndex (α : Type) where
  entries : List (List α) := []
  stored : List α → ChainWork := fun _ => {}

def WorkIndex.addToBlockIndex (s : WorkIndex α) (pindex : List α) : Option (WorkIndex α) :=
  if pindex ∈ s.entries then some s
  else do
    let stored ← setChainWork nBits s.stored pindex
    some { entries := pindex :: s.entries, stored }

def loadChainWork (stored : List α → ChainWork) (vSortedByHeight : List (List α)) :
    Option (List α → ChainWork) :=
  vSortedByHeight.foldlM (setChainWork nBits) stored

-- The nearest entry at or below that is no proof of stake. Below the genesis block the loop of the
-- source reads through the null pointer.
def skipProofOfStake : CBlockIndex → Option CBlockIndex
  | [] => none
  | b :: pprev => if b.fProofOfStake then skipProofOfStake pprev else some (b :: pprev)

def timeSpan : Nat → CBlockIndex → Int → Int → Option (CBlockIndex × Int × Int)
  | 0, pb0, minTime, maxTime => some (pb0, minTime, maxTime)
  | lookup + 1, pb0, minTime, maxTime => do
    let pb0 ← skipProofOfStake pb0.tail
    let time := pb0.getBlockTime
    timeSpan lookup pb0 (min time minTime) (max time maxTime)

-- The two numbers whose quotient the source returns.
def getNetworkHash (pb : CBlockIndex) : Option (Nat × Int) := do
  if pb.nPowHeight = 0 then return (0, 1)
  let pb0 ← skipProofOfStake pb
  let time := pb0.getBlockTime
  let (pb0, minTime, maxTime) ← timeSpan (min 120 (nHeight pb)) pb0 time time
  if minTime = maxTime then return (0, 1)
  let work := nChainWork fun b : IndexHeader => getBlockProof b.nBits
  return ((work pb + 2 ^ 256 - work pb0) % 2 ^ 256, maxTime - minTime)

end Taler
