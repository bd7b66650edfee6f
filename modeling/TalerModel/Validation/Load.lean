import Mathlib
import TalerModel.Chain.DiskIndex
import TalerModel.Chain.Skip
import TalerModel.Validation.Accept

open Codec

namespace Taler

-- Where the block and its undo data are. The two bits of `nStatus` come with a connection.
structure FilePart where
  nFile : Nat := 0
  nDataPos : Nat := 0
  nUndoPos : Nat := 0
  haveUndo : Bool := false
  generated : Bool := false
  deriving DecidableEq

-- `nStatus` of an entry. The validity takes three bits.
def statusWord (fProofOfStake : Bool) (e : IndexEntry) (f : FilePart) : BitVec 32 :=
  BitVec.ofNat 32 e.validity |||
    (if e.haveData then BLOCK_HAVE_DATA else 0) ||| (if f.haveUndo then BLOCK_HAVE_UNDO else 0) |||
    (if e.failedValid then BLOCK_FAILED_VALID else 0) |||
    (if e.failedChild then BLOCK_FAILED_CHILD else 0) |||
    (if fProofOfStake then STATUS_PROOF_OF_STAKE else 0) |||
    (if e.stakeModifier || f.generated then STATUS_STAKE_MODIFIER else 0) |||
    (if e.newFormat then STATUS_NEW_FORMAT else 0)

namespace IndexHeader

def isNewestFormat (b : IndexHeader) : Bool :=
  b.nVersion &&& 0xFF010000 = 0x00010000

end IndexHeader

structure NodeState where
  chain : NodeChain
  files : CBlockIndex → FilePart

namespace NodeState

variable (st : NodeState)

def nStatus (pindex : CBlockIndex) : BitVec 32 :=
  let fProofOfStake := pindex.head?.any fun b => b.fProofOfStake && !b.isNewestFormat
  statusWord fProofOfStake (st.chain.entry pindex) (st.files pindex)

def node (pindex : CBlockIndex) : IndexNode :=
  match pindex with
  | [] => {}
  | b :: pprev =>
    { nHeight := pprev.length
      nPowHeight := CBlockIndex.nPowHeight pindex
      nFile := (st.files pindex).nFile
      nDataPos := (st.files pindex).nDataPos
      nUndoPos := (st.files pindex).nUndoPos
      nTx := (st.chain.entry pindex).nTx
      nStatus := st.nStatus pindex
      nVersion := b.nVersion
      hashMerkleRoot := b.hashMerkleRoot
      nTime := b.nTime
      nBits := b.nBits
      nNonce := b.nNonce
      pprev := if pprev = [] then none else some (CBlockIndex.getBlockHash pprev) }

def blockMap : BlockMap := fun hash =>
  let pindex := st.chain.lookupBlockIndex hash
  if pindex = [] then none else some (st.node pindex)

end NodeState

namespace IndexNode

def indexHeader (hash : Uint256) (node : IndexNode) : IndexHeader where
  hash := hash
  nVersion := node.nVersion
  hashMerkleRoot := node.hashMerkleRoot
  nTime := node.nTime
  nBits := node.nBits
  nNonce := node.nNonce
  fProofOfStake :=
    if node.nVersion &&& 0xFF010000 = 0x00010000 then node.nVersion &&& 0x00020000 ≠ 0
    else node.hasStatus STATUS_PROOF_OF_STAKE

def indexEntry (node : IndexNode) : IndexEntry where
  nTx := node.nTx
  validity := (node.nStatus &&& BLOCK_VALID_MASK).toNat
  haveData := node.hasStatus BLOCK_HAVE_DATA
  failedValid := node.hasStatus BLOCK_FAILED_VALID
  failedChild := node.hasStatus BLOCK_FAILED_CHILD
  stakeModifier := node.hasStatus STATUS_STAKE_MODIFIER
  newFormat := node.hasStatus STATUS_NEW_FORMAT

def filePart (node : IndexNode) : FilePart where
  nFile := node.nFile
  nDataPos := node.nDataPos
  nUndoPos := node.nUndoPos
  haveUndo := node.hasStatus BLOCK_HAVE_UNDO

end IndexNode

namespace BlockMap

-- What a pointer into the map points to, as the linked list it heads. The number bounds its length.
def pointer (m : BlockMap) : Nat → Option Uint256 → CBlockIndex
  | 0, _ => []
  | _, none => []
  | n + 1, some hash =>
    match m hash with
    | none => []
    | some node => node.indexHeader hash :: pointer m n node.pprev

def nHeight (m : BlockMap) (hash : Uint256) : Nat :=
  ((m hash).map fun node => node.nHeight).getD 0

-- `vSortedByHeight`. Entries of one height stay in the order in which they are given.
def sortedByHeight (m : BlockMap) (keys : List Uint256) : List Uint256 :=
  keys.insertionSort fun a b => m.nHeight a ≤ m.nHeight b

end BlockMap

-- The node in the loop of `LoadBlockIndex`, with the work and skip pointers computed there.
structure LoadState extends NodeState where
  objects : BlockMap
  nChainWork : CBlockIndex → Nat := fun _ => 0
  pskip : CBlockIndex → CBlockIndex := fun _ => []

namespace LoadState

variable (verdict : CBlockIndex → CBlockIndex → Verdict)

def load (ld : LoadState) (pindex : CBlockIndex) : LoadState :=
  let proof := (pindex.head?.map blockProof).getD 0
  let work := ((if pindex.tail = [] then 0 else ld.nChainWork pindex.tail) + proof) % 2 ^ 128
  { ld with
    nChainWork := Function.update ld.nChainWork pindex work
    chain := ld.chain.loadEntry verdict pindex
    pskip := Function.update ld.pskip pindex (buildSkip ld.pskip pindex) }

-- The node once the records are read. Its tip is that of the coins database.
def start (m : BlockMap) (order : List Uint256) (hashBestBlock : Uint256) : LoadState :=
  let pointer (hash : Uint256) : CBlockIndex := m.pointer (m.nHeight hash + 1) (some hash)
  let pointers := order.map pointer
  let object (pindex : CBlockIndex) : IndexNode :=
    if pindex ∈ pointers then (m pindex.getBlockHash).getD {} else {}
  { chain :=
      { blocks := pointers
        entry := fun pindex => (object pindex).indexEntry
        tip := pointer hashBestBlock
        candidates := .empty
        unlinked := []
        failedBlocks := []
        bestHeader := [] }
    files := fun pindex => (object pindex).filePart
    objects := m }

end LoadState

-- `LoadBlockIndex` on an empty node. `keys` lists what is in the map.
def loadBlockIndex (verdict : CBlockIndex → CBlockIndex → Verdict) (cursor : List (Uint256 × Bytes))
    (keys : List Uint256) (hashBestBlock : Uint256) : Option LoadState := do
  let m ← BlockMap.loadBlockIndexGuts cursor
  let ld := LoadState.start m (m.sortedByHeight keys) hashBestBlock
  return ld.chain.blocks.foldl (LoadState.load verdict) ld

end Taler
