import TalerModel.Chain.BlockIndex
import TalerModel.Coins.View

namespace Taler

-- A cache of reads. A use gives a new stamp, and a full cache drops old stamps. Writes bypass it.
structure StampCache (V : Type) where
  entries : List (Uint256 × V × Nat) := []
  cacheIndex : Nat := 1

namespace StampCache

variable {V : Type}

def MAX_SIZE : Nat := 1000
def KEPT_STAMPS : Nat := 300

variable (cache : StampCache V) (hash : Uint256)

def lookup : Option V :=
  (cache.entries.find? (·.1 = hash)).map (·.2.1)

def insert (value : V) : StampCache V where
  entries := (hash, value, cache.cacheIndex) :: cache.entries.filter (·.1 ≠ hash)
  cacheIndex := cache.cacheIndex + 1

def evict : StampCache V :=
  if cache.entries.length > MAX_SIZE then
    { cache with entries := cache.entries.filter (·.2.2 > cache.cacheIndex - KEPT_STAMPS) }
  else cache

-- The cached value, or `value` as it was just read.
def get (value : V) : V × StampCache V :=
  match cache.lookup hash with
  | some cached => (cached, cache.insert hash cached)
  | none => (value, cache.evict.insert hash value)

end StampCache

-- What is known of stakes: the flags `BLOCK_STAKE_MODIFIER`, the database, and the read caches.
structure StakeStore where
  generated : CBlockIndex → Bool
  modifiers : Uint256 → Option Nat
  stakeHashes : Uint256 → Option Uint256
  modifierCache : StampCache Nat := {}
  stakeHashCache : StampCache Uint256 := {}

abbrev Stake := EStateM Failure StakeStore

namespace StakeStore

def setStakeModifier (pindex : CBlockIndex) (nStakeModifier : Nat) (fGenerated : Bool)
    (store : StakeStore) : StakeStore :=
  if fGenerated then
    { store with
      generated := Function.update store.generated pindex true
      modifiers := Function.update store.modifiers pindex.getBlockHash (some nStakeModifier) }
  else store

def setStakeHash (pindex : CBlockIndex) (hashProofOfStake : Uint256) (store : StakeStore) :
    StakeStore :=
  if pindex.isProofOfStake then
    { store with
      stakeHashes := Function.update store.stakeHashes pindex.getBlockHash (some hashProofOfStake) }
  else store

-- What `GetStakeModifier` reads. Its loop tests the flag of the entry that it was called on.
def modifierEntry (store : StakeStore) (pindex : CBlockIndex) : CBlockIndex :=
  if store.generated pindex then pindex else getAncestor pindex 0

end StakeStore

variable (pindex : CBlockIndex)

def CBlockIndex.getStakeModifier : Stake Nat := do
  let store ← get
  let hash := (store.modifierEntry pindex).getBlockHash
  let (value, cache) := store.modifierCache.get hash ((store.modifiers hash).getD 0)
  set { store with modifierCache := cache }
  return value

def CBlockIndex.getStakeHash : Stake Uint256 :=
  if !pindex.isProofOfStake then pure 0 else do
  let store ← get
  let hash := pindex.getBlockHash
  let (value, cache) := store.stakeHashCache.get hash ((store.stakeHashes hash).getD 0)
  set { store with stakeHashCache := cache }
  return value

def CBlockIndex.getStakeEntropyBit : Nat :=
  pindex.getBlockHash % 2

section

variable [Crypto] (params : Params)

def getStakeModifierSelectionIntervalSection (nSection : Nat) : Int :=
  (params.nStakeModifierInterval * 63).tdiv (63 + (63 - nSection) * 2)

def getStakeModifierSelectionInterval : Int :=
  ((List.range 64).map (getStakeModifierSelectionIntervalSection params)).sum

-- The nearest entry from the given one downwards that generated a modifier, or the genesis block.
def lastGenerated (generated : CBlockIndex → Bool) : CBlockIndex → CBlockIndex
  | [] => []
  | b :: pprev =>
    if pprev ≠ [] && !generated (b :: pprev) then lastGenerated generated pprev else b :: pprev

def modifierEpoch (time : Int) : Int :=
  time.tdiv params.nStakeModifierInterval

def selectionIntervalStart (pindexPrev : CBlockIndex) : Int :=
  modifierEpoch params pindexPrev.getBlockTime * params.nStakeModifierInterval -
    getStakeModifierSelectionInterval params

-- Times and hashes of the candidates, sorted. Hashes are compared byte by byte.
def sortedCandidates (pindexPrev : CBlockIndex) : List (Int × Uint256) :=
  let recent := pindexPrev.tails.takeWhile fun pindex =>
    pindex ≠ [] && CBlockIndex.getBlockTime pindex ≥ selectionIntervalStart params pindexPrev
  let pairs := recent.map fun pindex => (CBlockIndex.getBlockTime pindex, pindex.getBlockHash)
  pairs.reverse.insertionSort fun a b => a.1 < b.1 ∨ a.1 = b.1 ∧ hashBytes a.2 ≤ hashBytes b.2

-- The selection hashes computed so far, by height, and the best candidate of the current round.
structure SelectionRound where
  mapHash : List (Nat × Nat)
  best : Option (CBlockIndex × Nat) := none

def proofHash (pi : CBlockIndex) : Stake Uint256 :=
  if pi.isProofOfStake then pi.getStakeHash else pure pi.getBlockHash

-- The stored selection hash of a candidate, or a new one from its proof hash.
def selectionHashOf (nStakeModifier : Nat) (mapHash : List (Nat × Nat)) (pi : CBlockIndex) :
    Stake (Nat × List (Nat × Nat)) :=
  match mapHash.lookup (nHeight pi) with
  | some hashSelection => return (hashSelection, mapHash)
  | none => do
    let hashProof ← proofHash pi
    let hash := Crypto.selectionHash hashProof nStakeModifier
    let hashSelection := if pi.isProofOfStake then hash >>> 32 else hash
    return (hashSelection, (nHeight pi, hashSelection) :: mapHash)

def SelectionRound.improve (round : SelectionRound) (pi : CBlockIndex) (hashSelection : Nat) :
    Option (CBlockIndex × Nat) :=
  match round.best with
  | some (_, hashBest) => if hashSelection < hashBest then some (pi, hashSelection) else round.best
  | none => some (pi, hashSelection)

-- One pass over the candidates, up to the first after the interval if there is a selected one.
def selectCandidate (lookupBlockIndex : Uint256 → CBlockIndex) (nStakeModifier : Nat)
    (nSelectionIntervalStop : Int) (mapSelected : List Nat) :
    List (Int × Uint256) → SelectionRound → Stake SelectionRound
  | [], round => return round
  | (_, hash) :: rest, round =>
    let pi := lookupBlockIndex hash
    if pi = [] then throw (.returned {}) else
    if round.best.isSome && CBlockIndex.getBlockTime pi > nSelectionIntervalStop then
      return round
    else if mapSelected.contains (nHeight pi) then
      selectCandidate lookupBlockIndex nStakeModifier nSelectionIntervalStop mapSelected rest round
    else do
      let (hashSelection, mapHash) ← selectionHashOf nStakeModifier round.mapHash pi
      let round := { mapHash := mapHash, best := round.improve pi hashSelection }
      selectCandidate lookupBlockIndex nStakeModifier nSelectionIntervalStop mapSelected rest round

-- Collects the entropy bits of the selected blocks. The first argument counts the rounds to go.
def collectBits (lookupBlockIndex : Uint256 → CBlockIndex) (candidates : List (Int × Uint256))
    (nStakeModifier : Nat) :
    Nat → Nat → Int → List Nat → List (Nat × Nat) → Nat → Stake Nat
  | 0, _, _, _, _, nStakeModifierNew => return nStakeModifierNew
  | rounds + 1, nRound, stop, mapSelected, mapHash, nStakeModifierNew => do
    let stop := stop + getStakeModifierSelectionIntervalSection params nRound
    let round ← selectCandidate lookupBlockIndex nStakeModifier stop mapSelected candidates
      { mapHash := mapHash }
    match round.best with
    | none => throw (.returned {})
    | some (pindex, _) =>
      collectBits lookupBlockIndex candidates nStakeModifier rounds (nRound + 1) stop
        (nHeight pindex :: mapSelected) round.mapHash
        (nStakeModifierNew ||| (pindex.getStakeEntropyBit <<< nRound))

def getStakeModifier (lookupBlockIndex : Uint256 → CBlockIndex) (pindexCurrent : CBlockIndex) :
    Stake (Nat × Bool) := do
  let pindexPrev : CBlockIndex := pindexCurrent.tail
  if pindexPrev = [] then return (0, true) else
  let store ← get
  let pi := lastGenerated store.generated pindexPrev
  if !store.generated pi then throw (.returned {}) else
  let nStakeModifier ← pi.getStakeModifier
  let epoch := modifierEpoch params pi.getBlockTime
  if epoch ≥ modifierEpoch params pindexPrev.getBlockTime ||
      epoch ≥ modifierEpoch params pindexCurrent.getBlockTime then
    return (nStakeModifier, false)
  else
    let candidates := sortedCandidates params pindexPrev
    let nStakeModifierNew ← collectBits params lookupBlockIndex candidates nStakeModifier
      (min 64 candidates.length) 0 (selectionIntervalStart params pindexPrev) [] [] 0
    return (nStakeModifierNew, true)

end

section

variable [Crypto] (params : Params)

-- Walks down from an entry until the time of the last modifier passed is not after the bound.
def kernelModifierEntry (generated : CBlockIndex → Bool) (bound : Int) :
    CBlockIndex → Int → Option CBlockIndex
  | [], _ => none
  | b :: pprev, nStakeModifierTime =>
    if nStakeModifierTime > bound then
      if pprev = [] then none else
      kernelModifierEntry generated bound pprev
        (if generated pprev then CBlockIndex.getBlockTime pprev else nStakeModifierTime)
    else some (b :: pprev)

-- The target weighted with value and age. The weight in time is multiplied by 32-bit words.
def kernelTarget (block : CBlockHeader) (value : CAmount) (time : Nat) : Nat :=
  let nTimeWeight := min ((block.nTime : Int) - time) params.nStakeMaxAge - params.nStakeMinAge
  let weight := (value % 2 ^ 64).toNat * (nTimeWeight % 2 ^ 32).toNat % 2 ^ 256 / COIN.toNat /
    params.nCoinAgeTick.toNat
  (setCompact block.nBits).target * weight % 2 ^ 256

-- The kernel's hash if it meets the target. The dead branch for the third fork is left out.
def checkProofOfStake (chainActive : CBlockIndex) (block : CBlockHeader) (out : COutPoint)
    (value : CAmount) (time offset : Nat) : Stake (Option Uint256) := do
  if chainActive = [] then throw (.fault .outOfRange) else
  let bound := getStakeModifierSelectionInterval params + time - params.nStakeMinAge
  let tipTime := chainActive.getBlockTime
  if tipTime ≤ bound then return none else
  let store ← get
  match kernelModifierEntry store.generated bound chainActive tipTime with
  | none => return none
  | some pindex =>
    let nStakeModifier ← pindex.getStakeModifier
    let hash := Crypto.kernelHash nStakeModifier time offset out.n block.nTime
    return if hash > kernelTarget params block value time then none else some hash

end

end Taler
