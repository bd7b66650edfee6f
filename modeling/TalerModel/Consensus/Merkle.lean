import TalerModel.Primitives.Block

namespace Taler

variable [Crypto]

namespace Merkle

def nextLevel : List Uint256 → List Uint256
  | [] => []
  | [a] => [Crypto.sha256d64 a a]
  | a :: b :: rest => Crypto.sha256d64 a b :: nextLevel rest

-- Two equal nodes at positions `2k` and `2k + 1` (CVE-2012-2459).
def hasEqualPair : List Uint256 → Bool
  | a :: b :: rest => a = b || hasEqualPair rest
  | _ => false

end Merkle

open Merkle

-- The root and whether a level had a repeated pair. Each round at least halves the nodes.
def computeMerkleRoot (hashes : List Uint256) : Uint256 × Bool :=
  go hashes.length hashes false
where
  go : Nat → List Uint256 → Bool → Uint256 × Bool
    | 0, hashes, mutation => (hashes.headD 0, mutation)
    | fuel + 1, hashes, mutation =>
      if hashes.length ≤ 1 then (hashes.headD 0, mutation)
      else go fuel (nextLevel hashes) (mutation || hasEqualPair hashes)

def blockMerkleRoot (block : CBlock) : Uint256 × Bool :=
  computeMerkleRoot (block.vtx.map CTransaction.getHash)

def blockWitnessMerkleRoot (block : CBlock) : Uint256 × Bool :=
  computeMerkleRoot (0 :: block.vtx.tail.map CTransaction.getWitnessHash)

end Taler
