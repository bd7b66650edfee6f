import TalerModel.Chain.Stake

namespace Taler

-- The stake data of the block tree database. Writes are collected in two maps until a flush.
structure CBlockTreeDB where
  cacheHash : Finmap fun _ : Uint256 => Uint256 := ∅
  cacheModifier : Finmap fun _ : Uint256 => Nat := ∅
  dbHash : Uint256 → Option Uint256 := fun _ => none
  dbModifier : Uint256 → Option Nat := fun _ => none

namespace CBlockTreeDB

def MAX_CACHE_SIZE : Nat := 64000

def readThrough (cache : Finmap fun _ : Uint256 => V) (db : Uint256 → Option V) (hash : Uint256) :
    Option V :=
  match cache.lookup hash with
  | some value => some value
  | none => db hash

variable (tree : CBlockTreeDB)

def flushStake : CBlockTreeDB where
  cacheHash := ∅
  cacheModifier := ∅
  dbHash := readThrough tree.cacheHash tree.dbHash
  dbModifier := readThrough tree.cacheModifier tree.dbModifier

def writeStakeHash (hash hashProofOfStake : Uint256) : CBlockTreeDB :=
  let tree := if tree.cacheHash.keys.card > MAX_CACHE_SIZE then tree.flushStake else tree
  { tree with cacheHash := tree.cacheHash.insert hash hashProofOfStake }

def readStakeHash (hash : Uint256) : Option Uint256 :=
  readThrough tree.cacheHash tree.dbHash hash

def writeStakeModifier (hash : Uint256) (nStakeModifier : Nat) : CBlockTreeDB :=
  let tree := if tree.cacheModifier.keys.card > MAX_CACHE_SIZE then tree.flushStake else tree
  { tree with cacheModifier := tree.cacheModifier.insert hash nStakeModifier }

def readStakeModifier (hash : Uint256) : Option Nat :=
  readThrough tree.cacheModifier tree.dbModifier hash

end CBlockTreeDB

-- The database with the flags of the entries, and the caches of reads of the two getters.
structure StakeIndex where
  pblocktree : CBlockTreeDB := {}
  generated : CBlockIndex → Bool
  modifierCache : StampCache Nat := {}
  stakeHashCache : StampCache Uint256 := {}

namespace StakeIndex

variable (index : StakeIndex)

def store : StakeStore where
  generated := index.generated
  modifiers := index.pblocktree.readStakeModifier
  stakeHashes := index.pblocktree.readStakeHash
  modifierCache := index.modifierCache
  stakeHashCache := index.stakeHashCache

variable (pindex : CBlockIndex)

def setStakeModifier (nStakeModifier : Nat) (fGeneratedStakeModifier : Bool) : StakeIndex :=
  if fGeneratedStakeModifier then
    { index with
      generated := Function.update index.generated pindex true
      pblocktree := index.pblocktree.writeStakeModifier pindex.getBlockHash nStakeModifier }
  else index

def getStakeModifier : Nat × StakeIndex :=
  let hash := (index.store.modifierEntry pindex).getBlockHash
  let (value, cache) :=
    index.modifierCache.get hash ((index.pblocktree.readStakeModifier hash).getD 0)
  (value, { index with modifierCache := cache })

def setStakeHash (hashProofOfStake : Uint256) : StakeIndex :=
  if pindex.isProofOfStake then
    { index with
      pblocktree := index.pblocktree.writeStakeHash pindex.getBlockHash hashProofOfStake }
  else index

def getStakeHash : Uint256 × StakeIndex :=
  if !pindex.isProofOfStake then (0, index) else
  let hash := pindex.getBlockHash
  let (value, cache) := index.stakeHashCache.get hash ((index.pblocktree.readStakeHash hash).getD 0)
  (value, { index with stakeHashCache := cache })

def flushStake : StakeIndex :=
  { index with pblocktree := index.pblocktree.flushStake }

end StakeIndex

inductive StakeOp
  | setStakeHash (pindex : CBlockIndex) (hashProofOfStake : Uint256)
  | setStakeModifier (pindex : CBlockIndex) (nStakeModifier : Nat) (fGeneratedStakeModifier : Bool)
  | getStakeHash (pindex : CBlockIndex)
  | getStakeModifier (pindex : CBlockIndex)
  | flushStake

def StakeIndex.step (index : StakeIndex) : StakeOp → StakeIndex
  | .setStakeHash pindex hashProofOfStake => index.setStakeHash pindex hashProofOfStake
  | .setStakeModifier pindex nStakeModifier fGenerated =>
    index.setStakeModifier pindex nStakeModifier fGenerated
  | .getStakeHash pindex => (index.getStakeHash pindex).2
  | .getStakeModifier pindex => (index.getStakeModifier pindex).2
  | .flushStake => index.flushStake

end Taler
