import TalerModel.Primitives.Serialize
import TalerModel.Chain.State

open Codec

namespace Taler

def BLOCK_VALID_MASK : BitVec 32 := 7
def BLOCK_HAVE_DATA : BitVec 32 := 8
def BLOCK_HAVE_UNDO : BitVec 32 := 16
def BLOCK_FAILED_VALID : BitVec 32 := 32
def BLOCK_FAILED_CHILD : BitVec 32 := 64
def BLOCK_FAILED_MASK : BitVec 32 := BLOCK_FAILED_VALID ||| BLOCK_FAILED_CHILD

-- The bits of `nStatus` that hold the flags of a header.
def STATUS_PROOF_OF_STAKE : BitVec 32 := 0x00010000
def STATUS_STAKE_MODIFIER : BitVec 32 := 0x00020000
def STATUS_NEW_FORMAT : BitVec 32 := 0x00040000

-- A `CBlockIndex` object without its pointers and without what is kept in memory only.
structure IndexObject where
  nHeight : Nat := 0
  nPowHeight : Nat := 0
  nFile : Nat := 0
  nDataPos : Nat := 0
  nUndoPos : Nat := 0
  nTx : Nat := 0
  nStatus : BitVec 32 := 0
  nVersion : BitVec 32 := 0
  hashMerkleRoot : Uint256 := 0
  nTime : Nat := 0
  nBits : Nat := 0
  nNonce : Nat := 0
  deriving DecidableEq

namespace IndexObject

variable (pindex : IndexObject)

def hasStatus (mask : BitVec 32) : Bool :=
  pindex.nStatus &&& mask ≠ 0

def nFlags : BitVec 32 :=
  (if pindex.hasStatus STATUS_PROOF_OF_STAKE then BLOCK_PROOF_OF_STAKE else 0) |||
    (if pindex.hasStatus STATUS_STAKE_MODIFIER then BLOCK_STAKE_MODIFIER else 0) |||
    (if pindex.hasStatus STATUS_NEW_FORMAT then BLOCK_NEW_FORMAT else 0)

def flagStatus (nFlags : BitVec 32) : BitVec 32 :=
  (if nFlags &&& BLOCK_PROOF_OF_STAKE ≠ 0 then STATUS_PROOF_OF_STAKE else 0) |||
    (if nFlags &&& BLOCK_STAKE_MODIFIER ≠ 0 then STATUS_STAKE_MODIFIER else 0) |||
    (if nFlags &&& BLOCK_NEW_FORMAT ≠ 0 then STATUS_NEW_FORMAT else 0)

def addStatus (bits : BitVec 32) : IndexObject :=
  { pindex with nStatus := pindex.nStatus ||| bits }

def nFlags_set (nFlags : BitVec 32) : IndexObject :=
  pindex.addStatus (flagStatus nFlags)

def ofHeader (block : CBlockHeader) : IndexObject :=
  nFlags_set {
    nVersion := block.nVersion, hashMerkleRoot := block.hashMerkleRoot, nTime := block.nTime,
    nBits := block.nBits, nNonce := block.nNonce } block.nFlags

def raiseValidity (nUpTo : BitVec 32) : IndexObject :=
  if pindex.hasStatus BLOCK_FAILED_MASK then pindex
  else if pindex.nStatus &&& BLOCK_VALID_MASK < nUpTo then
    { pindex with nStatus := pindex.nStatus &&& ~~~BLOCK_VALID_MASK ||| nUpTo }
  else pindex

-- The header of an entry below `hashPrev`, with those flags that `mask` leaves.
def header (hashPrev : Uint256) (mask : BitVec 32) : CBlockHeader where
  nVersion := pindex.nVersion
  hashPrevBlock := hashPrev
  hashMerkleRoot := pindex.hashMerkleRoot
  nTime := pindex.nTime
  nBits := pindex.nBits
  nNonce := pindex.nNonce
  nFlags := pindex.nFlags &&& mask

structure Fits (pindex : IndexObject) : Prop where
  nHeight : pindex.nHeight ≤ 2 ^ 31 - 1
  nPowHeight : pindex.nPowHeight ≤ 2 ^ 31 - 1
  nFile : pindex.nFile ≤ 2 ^ 31 - 1
  nDataPos : pindex.nDataPos ≤ 2 ^ 32 - 1
  nUndoPos : pindex.nUndoPos ≤ 2 ^ 32 - 1
  nTx : pindex.nTx ≤ 2 ^ 32 - 1
  hashMerkleRoot : pindex.hashMerkleRoot < 256 ^ 32
  nTime : pindex.nTime < 256 ^ 4
  nBits : pindex.nBits < 256 ^ 4
  nNonce : pindex.nNonce < 256 ^ 4

end IndexObject

structure CDiskBlockIndex extends IndexObject where
  hashPrev : Uint256 := 0
  deriving DecidableEq

namespace CDiskBlockIndex

def getBlockHash [Crypto] (diskindex : CDiskBlockIndex) : Uint256 :=
  (diskindex.header diskindex.hashPrev BLOCK_PROOF_OF_STAKE).getHash

def serialize (diskindex : CDiskBlockIndex) (clientVersion : Nat) : Bytes :=
  writeVarInt clientVersion ++ (writeVarInt diskindex.nHeight ++
    (writeVarInt diskindex.nStatus.toNat ++ (writeVarInt diskindex.nTx ++
    ((if diskindex.hasStatus (BLOCK_HAVE_DATA ||| BLOCK_HAVE_UNDO) then writeVarInt diskindex.nFile
      else []) ++
    ((if diskindex.hasStatus BLOCK_HAVE_DATA then writeVarInt diskindex.nDataPos else []) ++
    ((if diskindex.hasStatus BLOCK_HAVE_UNDO then writeVarInt diskindex.nUndoPos else []) ++
    ((diskindex.header diskindex.hashPrev 0).serializeFields ++
      writeVarInt diskindex.nPowHeight)))))))

def INT_MAX : Nat := 2 ^ 31 - 1
def UINT_MAX : Nat := 2 ^ 32 - 1

-- Reads a number that is there only if the status says so.
def readIf (c : Bool) (max : Nat) : Reader Nat :=
  if c then readVarInt max else pure 0

def unserialize : Reader CDiskBlockIndex := do
  let _ ← readVarInt INT_MAX
  let nHeight ← readVarInt INT_MAX
  let nStatus ← readVarInt UINT_MAX
  let status : IndexObject := { nStatus := BitVec.ofNat 32 nStatus }
  let nTx ← readVarInt UINT_MAX
  let nFile ← readIf (status.hasStatus (BLOCK_HAVE_DATA ||| BLOCK_HAVE_UNDO)) INT_MAX
  let nDataPos ← readIf (status.hasStatus BLOCK_HAVE_DATA) UINT_MAX
  let nUndoPos ← readIf (status.hasStatus BLOCK_HAVE_UNDO) UINT_MAX
  let header ← CBlockHeader.readFields
  let nPowHeight ← readVarInt INT_MAX
  pure {
    nHeight := nHeight, nPowHeight := nPowHeight, nFile := nFile, nDataPos := nDataPos,
    nUndoPos := nUndoPos, nTx := nTx, nStatus := BitVec.ofNat 32 nStatus,
    nVersion := header.nVersion, hashMerkleRoot := header.hashMerkleRoot, nTime := header.nTime,
    nBits := header.nBits, nNonce := header.nNonce, hashPrev := header.hashPrevBlock }

-- What is left of a record on disk: a position that the status does not announce is not stored.
def stored (diskindex : CDiskBlockIndex) : CDiskBlockIndex :=
  { diskindex with
    nFile :=
      if diskindex.hasStatus (BLOCK_HAVE_DATA ||| BLOCK_HAVE_UNDO) then diskindex.nFile else 0
    nDataPos := if diskindex.hasStatus BLOCK_HAVE_DATA then diskindex.nDataPos else 0
    nUndoPos := if diskindex.hasStatus BLOCK_HAVE_UNDO then diskindex.nUndoPos else 0 }

end CDiskBlockIndex

structure IndexNode extends IndexObject where
  pprev : Option Uint256 := none
  deriving DecidableEq

namespace IndexNode

variable (node : IndexNode)

def hashPrev : Uint256 :=
  node.pprev.getD 0

def getBlockHeader : CBlockHeader :=
  node.header node.hashPrev (BLOCK_PROOF_OF_STAKE ||| BLOCK_NEW_FORMAT)

def toDisk : CDiskBlockIndex :=
  { node with hashPrev := node.hashPrev }

end IndexNode

abbrev BlockMap := Uint256 → Option IndexNode

namespace BlockMap

variable (m : BlockMap)

def setNode (hash : Uint256) (node : IndexNode) : BlockMap :=
  Function.update m hash (some node)

def newNode (block : CBlockHeader) (pprev : Option IndexNode) : IndexNode :=
  let pindexNew := IndexObject.ofHeader block
  match pprev with
  | none => { pindexNew.raiseValidity 2 with }
  | some prev =>
    let nPowHeight := prev.nPowHeight + if block.isProofOfStake then 0 else 1
    let pindexNew := { pindexNew with nHeight := prev.nHeight + 1, nPowHeight := nPowHeight }
    { (pindexNew.nFlags_set block.nFlags).raiseValidity 2 with pprev := some block.hashPrevBlock }

variable [Crypto]

-- Returns the key of the entry. The new entry is in the map already when its parent is looked for.
def addToBlockIndex (m : BlockMap) (block : CBlockHeader) : Uint256 × BlockMap :=
  let hash := block.getHash
  match m hash with
  | some _ => (hash, m)
  | none =>
    let pprev := m.setNode hash { IndexObject.ofHeader block with } block.hashPrevBlock
    (hash, m.setNode hash (newNode block pprev))

-- `AcceptBlockHeader` without the marks; `checks` are the tests of a header with a known parent.
def acceptBlockHeader (hashGenesisBlock : Uint256) (checks : BlockMap → CBlockHeader → Bool)
    (m : BlockMap) (block : CBlockHeader) : Option (Uint256 × BlockMap) :=
  let hash := block.getHash
  if hash = hashGenesisBlock then some (m.addToBlockIndex block) else
  match m hash with
  | some pindex => if pindex.hasStatus BLOCK_FAILED_MASK then none else some (hash, m)
  | none =>
    if (m block.hashPrevBlock).isSome && checks m block then some (m.addToBlockIndex block)
    else none

omit [Crypto]

-- `InsertBlockIndex`; the pointer that it returns may be null.
def insertBlockIndex (hash : Uint256) : Option Uint256 × BlockMap :=
  if hash = 0 then (none, m) else
  match m hash with
  | some _ => (some hash, m)
  | none => (some hash, m.setNode hash {})

-- One round of `LoadBlockIndexGuts`. The pointer to the entry is dereferenced without a test.
def loadRecord (key : Uint256) (diskindex : CDiskBlockIndex) : Option BlockMap :=
  let (pindexNew, m) := m.insertBlockIndex key
  let (pprev, m) := m.insertBlockIndex diskindex.hashPrev
  pindexNew.map fun hash => m.setNode hash { diskindex.toIndexObject with pprev := pprev }

def loadBlockIndexGuts (cursor : List (Uint256 × Bytes)) : Option BlockMap :=
  cursor.foldlM (fun m record => do
    let (diskindex, _) ← CDiskBlockIndex.unserialize record.2
    m.loadRecord record.1 diskindex) fun _ => none

def writeBatch (clientVersion : Nat) (keys : List Uint256) : List (Uint256 × Bytes) :=
  keys.filterMap fun hash =>
    (m hash).map fun node => (hash, node.toDisk.serialize clientVersion)

end BlockMap

end Taler
