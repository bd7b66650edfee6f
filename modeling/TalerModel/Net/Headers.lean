import TalerModel.Primitives.Serialize
import TalerModel.Validation.Accept

open Codec

namespace Taler

def MAX_HEADERS_RESULTS : Nat := 2000
def MAX_LOCATOR_SZ : Nat := 101
def STALE_RELAY_AGE_LIMIT : Int := 30 * 24 * 60 * 60
def TLR_HARD_FORK_VERSION : Nat := 70020

def isLegacyBlockHeader (version : Nat) : Bool :=
  version < TLR_HARD_FORK_VERSION

namespace NodeChain

-- The header of an entry as it is sent to peers. The newest format has no flags.
def getBlockHeader (s : NodeChain) (pindex : CBlockIndex) : CBlockHeader :=
  match pindex with
  | [] => ⟨0, 0, 0, 0, 0, 0, 0⟩
  | b :: pprev =>
    let header : CBlockHeader :=
      { nVersion := b.nVersion
        hashPrevBlock := CBlockIndex.getBlockHash pprev
        hashMerkleRoot := b.hashMerkleRoot
        nTime := b.nTime
        nBits := b.nBits
        nNonce := b.nNonce }
    { header with
      nFlags := (if b.fProofOfStake && !header.isNewestFormat then BLOCK_PROOF_OF_STAKE else 0) |||
        if (s.entry pindex).newFormat then BLOCK_NEW_FORMAT else 0 }

def next (s : NodeChain) (pindex : CBlockIndex) : CBlockIndex :=
  if pindex = [] then [] else getAncestor s.tip (nHeight pindex + 1)

def findForkLocator (s : NodeChain) : List Uint256 → CBlockIndex
  | [] => getAncestor s.tip 0
  | hash :: vHave =>
    let pindex := s.lookupBlockIndex hash
    if pindex = [] then s.findForkLocator vHave
    else if s.contains pindex then pindex
    else if getAncestor pindex (nHeight s.tip) = s.tip then s.tip
    else s.findForkLocator vHave

end NodeChain

-- How long it would take to redo the difference in work of two entries at the difficulty of a third.
def getBlockProofEquivalentTime (pto pfrom tip : CBlockIndex) (params : Params) : Int :=
  let workTo := nChainWork blockProof pto
  let workFrom := nChainWork blockProof pfrom
  let (r, sign) : Nat × Int :=
    if workTo > workFrom then (workTo - workFrom, 1) else (workFrom - workTo, -1)
  let r : Nat := r * params.nPowTargetSpacing.toNat % 2 ^ 256 / (tip.head?.map blockProof).getD 0
  sign * if r ≥ 2 ^ 63 then 2 ^ 63 - 1 else (r : Int)

def blockRequestAllowed (s : NodeChain) (pindex : CBlockIndex) (params : Params) : Bool :=
  s.contains pindex ||
    (s.entry pindex).isValid BLOCK_VALID_SCRIPTS && s.bestHeader ≠ [] &&
      CBlockIndex.getBlockTime s.bestHeader - pindex.getBlockTime < STALE_RELAY_AGE_LIMIT &&
      getBlockProofEquivalentTime s.bestHeader pindex s.bestHeader params < STALE_RELAY_AGE_LIMIT

structure GetHeaders where
  locator : List Uint256
  hashStop : Uint256

namespace GetHeaders

def collect (s : NodeChain) (hashStop : Uint256) : Nat → CBlockIndex → List CBlockIndex
  | 0, _ => []
  | nLimit + 1, pindex =>
    if pindex = [] then [] else
    pindex ::
      if pindex.getBlockHash = hashStop then [] else collect s hashStop nLimit (s.next pindex)

-- The entries to send. `fIgnored`: the peer is not served while the node downloads the chain.
def answer (request : GetHeaders) (params : Params) (s : NodeChain) (fIgnored : Bool) :
    Option (List CBlockIndex) :=
  if request.locator.length > MAX_LOCATOR_SZ || fIgnored then none
  else if request.locator = [] then
    let pindex := s.lookupBlockIndex request.hashStop
    if pindex = [] || !blockRequestAllowed s pindex params then none
    else some (collect s request.hashStop MAX_HEADERS_RESULTS pindex)
  else
    some (collect s request.hashStop MAX_HEADERS_RESULTS (s.next (s.findForkLocator request.locator)))

end GetHeaders

variable (legacy : Bool)

def writeHeaderBlock (header : CBlockHeader) : Bytes :=
  header.serialize false legacy ++ (writeCompactSize 0 ++
    if !legacy && header.isProofOfStake && !header.isNewestFormat then writeCompactSize 0 else [])

def writeHeaders (headers : List CBlockHeader) : Bytes :=
  writeCompactSize headers.length ++ headers.flatMap (writeHeaderBlock legacy)

-- A header of the message, with the count of transactions and the signature skipped.
def readHeaderBlock : Reader CBlockHeader := do
  let header ← CBlockHeader.unserialize legacy
  let _ ← readCompactSize
  if header.isProofOfStake && header.isNewFormatBlock then
    let _ ← readCompactSize
    pure header
  else pure header

def readHeaders : Reader (List CBlockHeader) := do
  let nCount ← readCompactSize
  if nCount > MAX_HEADERS_RESULTS then failure else readMany (readHeaderBlock legacy) nCount

def headersMessage (s : NodeChain) (sendVersion : Nat) (entries : List CBlockIndex) : Bytes :=
  writeHeaders (isLegacyBlockHeader sendVersion) (entries.map s.getBlockHeader)

end Taler
