import TalerModel.Consensus.Params
import Mathlib.Data.List.Sort

namespace Taler

-- The part of a `CBlockIndex` that never changes once it is linked, and that the hash covers.
structure IndexHeader where
  hash : Uint256
  nVersion : BitVec 32
  hashMerkleRoot : Uint256
  nTime : Nat
  nBits : Nat
  nNonce : Nat
  fProofOfStake : Bool
  deriving DecidableEq, Repr

-- A pointer to a `CBlockIndex` is modelled by the linked list it heads: the entry itself, what
-- `pprev` points to, and so on down to the genesis block. The null pointer is the empty list, and an
-- ancestor of an entry is a nonempty suffix of it.
abbrev CBlockIndex := List IndexHeader

instance (pindex : CBlockIndex) (l : List CBlockIndex) : Decidable (pindex ∈ l) := inferInstance

def IndexHeader.ofHeader [Crypto] (block : CBlockHeader) : IndexHeader where
  hash := block.getHash
  nVersion := block.nVersion
  hashMerkleRoot := block.hashMerkleRoot
  nTime := block.nTime
  nBits := block.nBits
  nNonce := block.nNonce
  fProofOfStake := block.isProofOfStake

-- The number of an entry with its parent's number; of the null pointer it is never asked.
def nHeight (pindex : List α) : Nat :=
  pindex.length - 1

-- The ancestor at a height, or the null pointer. The skip list is only a shortcut for this walk.
def getAncestor (pindex : List α) (height : Nat) : List α :=
  if height > nHeight pindex then [] else pindex.drop (pindex.length - 1 - height)

namespace CBlockIndex

def nPowHeight : CBlockIndex → Nat
  | [] => 0
  | [_] => 0
  | b :: pprev => nPowHeight pprev + if b.fProofOfStake then 0 else 1

variable (pindex : CBlockIndex)

def getBlockHash : Uint256 :=
  (pindex.head?.map IndexHeader.hash).getD 0

def getBlockTime : Int :=
  (pindex.head?.map IndexHeader.nTime).getD 0

def isProofOfStake : Bool :=
  (pindex.head?.map IndexHeader.fProofOfStake).getD false

def nMedianTimeSpan : Nat := 11

def getMedianTimePast : Int :=
  let times := ((pindex.take nMedianTimeSpan).map IndexHeader.nTime).insertionSort (· ≤ ·)
  times.getD (times.length / 2) 0

end CBlockIndex

-- The accumulated work of an entry. Only the low 128 bits of the sum are stored.
def nChainWork (proof : α → Nat) : List α → Nat
  | [] => 0
  | b :: pprev => (nChainWork proof pprev + proof b) % 2 ^ 128

end Taler
