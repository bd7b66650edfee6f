import TalerModel.Chain.BlockIndex
import TalerModel.Coins.View

namespace Taler

variable (params : Params) (nPowHeight : Nat)

-- The heights that are counted for halvings: until the second fork a block counts for five.
def halvingHeight : Nat :=
  nPowHeight + (5 - 1) * min nPowHeight params.TLRHeight

-- The loop runs at most once for each halving interval below the height.
def getCoinSupply : Traced CAmount :=
  go (halvingHeight params nPowHeight / params.nSubsidyHalvingInterval)
    (halvingHeight params nPowHeight) (2333333 * COIN - 50 * COIN) (10 * COIN)
where
  finish (nPowHeight : Nat) (nSupply nSubsidy : CAmount) : Traced CAmount := do
    let added ← amount (nSubsidy * nPowHeight)
    amount (nSupply + added)
  go : Nat → Nat → CAmount → CAmount → Traced CAmount
    | 0, nPowHeight, nSupply, nSubsidy => finish nPowHeight nSupply nSubsidy
    | fuel + 1, nPowHeight, nSupply, nSubsidy =>
      if nPowHeight > params.nSubsidyHalvingInterval then do
        let added ← amount (nSubsidy * params.nSubsidyHalvingInterval)
        let nSupply ← amount (nSupply + added)
        go fuel (nPowHeight - params.nSubsidyHalvingInterval) nSupply (nSubsidy >>> (1 : Nat))
      else finish nPowHeight nSupply nSubsidy

def fullSubsidy : Traced CAmount :=
  if nPowHeight > params.TLRHeight then do
    let nSubsidy ← amount (10 * COIN * 70)
    pure (nSubsidy.tdiv 100)
  else amount (10 * COIN * 5)

def getBlockSubsidy : Traced CAmount :=
  if nPowHeight = 1 then pure (2333333 * COIN) else do
  let nSubsidy ← fullSubsidy params nPowHeight
  let halvings := halvingHeight params nPowHeight / params.nSubsidyHalvingInterval
  pure (if halvings ≥ 64 then 0 else nSubsidy >>> halvings)

def getProofOfStakeBlockSubsidy : Traced CAmount :=
  if params.forkNumber nPowHeight < 2 then pure 0 else do
  let nSubsidy ← getBlockSubsidy params nPowHeight
  let scaled ← amount (nSubsidy * 30)
  pure (scaled.tdiv 70)

def rewardCoinYear : Traced CAmount := do
  let nSubsidy ← getProofOfStakeBlockSubsidy params nPowHeight
  let yearly ← amount (nSubsidy * 525600)
  let scaled ← amount (CENT * 100 * yearly.tdiv COIN)
  let nSupply ← getCoinSupply params nPowHeight
  pure (scaled.tdiv (nSupply.tdiv COIN))

def getProofOfStakeReward (nCoinAge : Int) (nPowHeight : Nat) : Traced CAmount := do
  let nRewardCoinYear ← rewardCoinYear params nPowHeight
  let scaled ← amount (nCoinAge * 33)
  amount (scaled.tdiv (365 * 33 + 8) * nRewardCoinYear)

def coinTime (chainActive : CBlockIndex) (coin : Coin) : Int :=
  CBlockIndex.getBlockTime (getAncestor chainActive coin.nHeight)

-- The cent-seconds that one coin adds. A coin below the minimal age adds nothing.
def centSeconds (chainActive : CBlockIndex) (coin : Coin) (nTime : Int) : Nat :=
  let time := coinTime chainActive coin
  if time + params.nStakeMinAge > nTime then 0 else
  (coin.out.nValue % 2 ^ 64).toNat * ((nTime - time) % 2 ^ 32).toNat % 2 ^ 256 / CENT.toNat

def sumCentSeconds (chainActive : CBlockIndex) (view : CCoinsViewCache) (nTime : Int) :
    Nat → List CTxIn → Option Nat
  | bnCentSecond, [] => some bnCentSecond
  | bnCentSecond, txin :: vin =>
    match view.getCoin txin.prevout with
    | none => none
    | some coin =>
      sumCentSeconds chainActive view nTime
        ((bnCentSecond + centSeconds params chainActive coin nTime) % 2 ^ 256) vin

-- The coin age in days, or what the parameters have instead. Only the low 64 bits are returned.
def getCoinAge (chainActive : CBlockIndex) (tx : CTransaction) (view : CCoinsViewCache)
    (nTime : Int) : Option Nat :=
  if tx.isCoinBase then some 0 else
  (sumCentSeconds params chainActive view nTime 0 tx.vin).map fun bnCentSecond =>
    bnCentSecond * CENT.toNat % 2 ^ 256 / COIN.toNat / params.nCoinAgeTick.toNat % 2 ^ 64

end Taler
