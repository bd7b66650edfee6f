import TalerModel.Primitives.Transaction

namespace Taler

def BLOCK_PROOF_OF_STAKE : BitVec 32 := 1
def BLOCK_STAKE_ENTROPY : BitVec 32 := 2
def BLOCK_STAKE_MODIFIER : BitVec 32 := 4
def BLOCK_NEW_FORMAT : BitVec 32 := 0x80000000

structure CBlockHeader where
  nVersion : BitVec 32
  hashPrevBlock : Uint256
  hashMerkleRoot : Uint256
  nTime : Nat
  nBits : Nat
  nNonce : Nat
  nFlags : BitVec 32 := 0
  deriving DecidableEq, Repr

-- What is written to the hash writer: the six header fields, followed by the flag word
-- `BLOCK_PROOF_OF_STAKE` for a proof-of-stake block that does not have the newest format.
structure HashPreimage where
  nVersion : BitVec 32
  hashPrevBlock : Uint256
  hashMerkleRoot : Uint256
  nTime : Nat
  nBits : Nat
  nNonce : Nat
  stakeFlag : Bool
  deriving DecidableEq, Repr

-- The primitives of the crypto libraries. Nothing is assumed about them here: a statement that
-- needs one of them to bind its argument says so.
class Crypto where
  -- Double SHA-256 of a header.
  blockHash : HashPreimage → Uint256
  -- Double SHA-256 of two concatenated hashes.
  sha256d64 : Uint256 → Uint256 → Uint256
  -- Double SHA-256 of a hash followed by arbitrary bytes.
  commitHash : Uint256 → List UInt8 → Uint256
  -- The proof-of-work hashes of the six header fields.
  scrypt : HashPreimage → Uint256
  lyra2z : HashPreimage → Uint256
  -- Double SHA-256 of a coinbase and of a header, as leaves of the stake merkle tree.
  coinbaseLeaf : BitVec 32 → List CTxIn → List CTxOut → Nat → Uint256
  headerLeaf : BitVec 32 → Uint256 → Nat → Nat → Nat → Uint256
  -- RIPEMD-160 of SHA-256.
  hash160 : List UInt8 → Fin 20 → UInt8
  -- Double SHA-256 of a modifier, the staked coin's time, offset and index, and the block's time.
  kernelHash : Nat → Nat → Nat → Nat → Nat → Uint256
  -- Double SHA-256 of a proof hash and a stake modifier.
  selectionHash : Uint256 → Nat → Uint256
  -- ECDSA verification with a serialised public key and a (leniently parsed) DER signature.
  verify : List UInt8 → Uint256 → List UInt8 → Bool

-- For concrete blocks: hashes are sums and no signature is ever valid.
@[reducible]
def Crypto.additive : Crypto where
  blockHash p := p.nNonce + 1
  sha256d64 a b := a + b
  commitHash a _ := a
  scrypt _ := 0
  lyra2z _ := 0
  coinbaseLeaf _ _ _ _ := 0
  headerLeaf _ _ _ _ _ := 0
  hash160 _ _ := 0
  kernelHash _ _ _ _ _ := 0
  selectionHash _ _ := 0
  verify _ _ _ := false

namespace CBlockHeader

variable (header : CBlockHeader)

def isNewestFormat : Bool :=
  header.nVersion &&& 0xFF010000 = 0x00010000

def isProofOfStake : Bool :=
  if header.isNewestFormat then header.nVersion &&& 0x00020000 ≠ 0
  else header.nFlags &&& BLOCK_PROOF_OF_STAKE ≠ 0

def isNewFormatBlock : Bool :=
  header.nFlags &&& BLOCK_NEW_FORMAT ≠ 0

def preimage (stakeFlag : Bool) : HashPreimage where
  nVersion := header.nVersion
  hashPrevBlock := header.hashPrevBlock
  hashMerkleRoot := header.hashMerkleRoot
  nTime := header.nTime
  nBits := header.nBits
  nNonce := header.nNonce
  stakeFlag := stakeFlag

def hashPreimage : HashPreimage :=
  header.preimage (!header.isNewestFormat && header.nFlags &&& BLOCK_PROOF_OF_STAKE ≠ 0)

def getHash [Crypto] (header : CBlockHeader) : Uint256 :=
  Crypto.blockHash header.hashPreimage

def getPoWHash [Crypto] (header : CBlockHeader) (nHeight nLyra2ZHeight : Nat) : Uint256 :=
  if nHeight ≥ nLyra2ZHeight then Crypto.lyra2z (header.preimage false)
  else Crypto.scrypt (header.preimage false)

def serializeSize (legacy : Bool) : Nat :=
  if header.isNewestFormat || legacy then 80 else 84

lemma isProofOfStake_of_hashPreimage_eq {h1 h2 : CBlockHeader}
    (h : h1.hashPreimage = h2.hashPreimage) : h1.isProofOfStake = h2.isProofOfStake := by
  have hv : h1.nVersion = h2.nVersion := congrArg HashPreimage.nVersion h
  have hf := congrArg HashPreimage.stakeFlag h
  have hn : h1.isNewestFormat = h2.isNewestFormat := by simp [isNewestFormat, hv]
  simp only [hashPreimage, preimage, hn] at hf
  simp only [isProofOfStake, hn, hv]
  cases hc : h2.isNewestFormat
  case true => rfl
  case false => simpa [hc] using hf

end CBlockHeader

structure CBlock extends CBlockHeader where
  vtx : List CTransaction
  vchBlockSig : List UInt8 := []
  -- Memory only: set once the block passed its context-free checks.
  fChecked : Bool := false
  deriving DecidableEq, Repr

namespace CBlock

variable (block : CBlock)

def getBlockHeader : CBlockHeader :=
  block.toCBlockHeader

def isProofOfWork : Bool :=
  !block.isProofOfStake

def fresh : CBlock :=
  { block with fChecked := false }

def sigSize (legacy : Bool) : Nat :=
  if !legacy && block.isProofOfStake && !block.isNewestFormat then bytesSize block.vchBlockSig
  else 0

def strippedSize (legacy : Bool) : Nat :=
  block.toCBlockHeader.serializeSize legacy + vectorSize CTransaction.strippedSize block.vtx +
    block.sigSize legacy

def serializeSize (legacy : Bool) : Nat :=
  block.toCBlockHeader.serializeSize legacy + vectorSize CTransaction.serializeSize block.vtx +
    block.sigSize legacy

end CBlock

end Taler
