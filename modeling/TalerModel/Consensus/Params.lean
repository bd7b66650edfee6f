import TalerModel.Primitives.Block

namespace Taler

structure Params where
  hashGenesisBlock : Uint256
  nSubsidyHalvingInterval : Nat
  BIP34Height : Nat
  BIP65Height : Nat
  BIP66Height : Nat
  CSVHeight : Nat
  WitnessHeight : Nat
  powLimit : Nat
  powLimitLegacy : Nat
  posLimit : Nat
  fPowAllowMinDifficultyBlocks : Bool
  fPowNoRetargeting : Bool
  nPowTargetSpacing : Int
  nPowTargetTimespan : Int
  nPosTargetSpacing : Int
  nPosTargetTimespan : Int
  nStakeModifierInterval : Int
  nCoinAgeTick : Int
  nStakeMinAge : Int
  nStakeMaxAge : Int
  nLyra2ZHeight : Nat
  TLRHeight : Nat
  nPowAveragingWindowv1 : Nat
  nPowAveragingWindowv2 : Nat
  nNewDiffAdjustmentAlgorithmHeight : Nat
  nMinimumChainWork : Nat

namespace Params

def forkNumber (params : Params) (nHeight : Nat) : Nat :=
  if nHeight ≥ params.TLRHeight then 2 else
  if nHeight ≥ params.nLyra2ZHeight then 1 else 0

-- The branches of the source for the third fork are dead.
lemma forkNumber_lt_three (params : Params) (nHeight) : params.forkNumber nHeight < 3 := by
  simp only [forkNumber]
  split <;> try split
  all_goals omega

def mainNet : Params where
  hashGenesisBlock := 0xc079fd1ae86223e1522928776899d46e329da7919ca1e11be23643c67dd05d5f
  nSubsidyHalvingInterval := 210000 * 5
  BIP34Height := 0
  BIP65Height := 32256
  BIP66Height := 32256
  CSVHeight := 32256
  WitnessHeight := 32256
  powLimit := (2 ^ 256 - 1) >>> 8
  powLimitLegacy := (2 ^ 256 - 1) >>> 20
  posLimit := (2 ^ 256 - 1) >>> 32
  fPowAllowMinDifficultyBlocks := false
  fPowNoRetargeting := false
  nPowTargetSpacing := 1 * 60
  nPowTargetTimespan := 10 * 60
  nPosTargetSpacing := 60 * 7 / 3
  nPosTargetTimespan := 14 * 24 * 60 * 60
  nStakeModifierInterval := 6 * 60 * 60
  nCoinAgeTick := 60 * 60 * 24
  nStakeMinAge := 60 * 60 * 24 * 2
  nStakeMaxAge := 60 * 60 * 24 * 90
  nLyra2ZHeight := 10000
  TLRHeight := 130000
  nPowAveragingWindowv1 := 24
  nPowAveragingWindowv2 := 120
  nNewDiffAdjustmentAlgorithmHeight := 250000
  nMinimumChainWork := 0x044082fb8920e95e

def testNet : Params where
  hashGenesisBlock := 0xf3b7fe4392b75efcaeb9fe5a617912a763572c69d088896bfe3cf796b1a6a866
  nSubsidyHalvingInterval := 20000
  BIP34Height := 0
  BIP65Height := 5
  BIP66Height := 5
  CSVHeight := 5
  WitnessHeight := 5
  powLimit := (2 ^ 256 - 1) >>> 16
  powLimitLegacy := (2 ^ 256 - 1) >>> 16
  posLimit := (2 ^ 256 - 1) >>> 24
  fPowAllowMinDifficultyBlocks := false
  fPowNoRetargeting := false
  nPowTargetSpacing := 30
  nPowTargetTimespan := 30 * 60
  nPosTargetSpacing := 60 * 7 / 3
  nPosTargetTimespan := 14 * 24 * 60 * 60
  nStakeModifierInterval := 6 * 60
  nCoinAgeTick := 10 * 60
  nStakeMinAge := 10 * 60 * 2
  nStakeMaxAge := 10 * 60 * 90
  nLyra2ZHeight := 10
  TLRHeight := 20
  nPowAveragingWindowv1 := 5
  nPowAveragingWindowv2 := 120
  nNewDiffAdjustmentAlgorithmHeight := 21000
  nMinimumChainWork := 0

end Params

def MAX_BLOCK_WEIGHT : Nat := 4000000
def MAX_BLOCK_SIGOPS_COST : Nat := 80000
def COINBASE_MATURITY : Nat := 20
def WITNESS_SCALE_FACTOR : Nat := 4

-- The compact encoding of a 256-bit target: a sign bit, a 23-bit mantissa and an exponent.
structure Compact where
  target : Nat
  fNegative : Bool
  fOverflow : Bool

def setCompact (nCompact : Nat) : Compact :=
  let nSize := nCompact / 2 ^ 24
  let word := nCompact % 2 ^ 23
  let nWord := if nSize ≤ 3 then word / 2 ^ (8 * (3 - nSize)) else word
  { target := if nSize ≤ 3 then nWord else nWord * 2 ^ (8 * (nSize - 3)) % 2 ^ 256
    fNegative := nWord ≠ 0 && nCompact / 2 ^ 23 % 2 = 1
    fOverflow := nWord ≠ 0 && (nSize > 34 || (nWord > 0xff && nSize > 33) ||
                   (nWord > 0xffff && nSize > 32)) }

def getBlockProof (nBits : Nat) : Nat :=
  let bnTarget := setCompact nBits
  if bnTarget.fNegative || bnTarget.fOverflow || bnTarget.target = 0 then 0
  else (2 ^ 256 - 1 - bnTarget.target) / (bnTarget.target + 1) + 1

variable [Crypto]

def checkProofOfWork (block : CBlockHeader) (height : Nat) (params : Params) : Bool :=
  let powLimit := if height < params.nLyra2ZHeight then params.powLimitLegacy else params.powLimit
  let powLimit := if params.forkNumber height ≥ 3 then params.powLimitLegacy else powLimit
  let bnTarget := setCompact block.nBits
  if bnTarget.fNegative || bnTarget.target = 0 || bnTarget.fOverflow || bnTarget.target > powLimit
  then false
  else block.getPoWHash height params.nLyra2ZHeight ≤ bnTarget.target

end Taler
