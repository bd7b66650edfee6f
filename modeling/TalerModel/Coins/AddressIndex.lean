import TalerModel.Coins.View
import TalerModel.Primitives.Serialize

namespace Taler

inductive CTxDestination
  | keyID (hash : List UInt8)
  | scriptID (hash : List UInt8)
  | witnessV0ScriptHash (hash : List UInt8)
  | witnessV0KeyHash (hash : List UInt8)
  | witnessUnknown (version : Nat) (program : List UInt8)
  deriving DecidableEq, Repr

def pushData (data : List UInt8) : CScript :=
  UInt8.ofNat data.length :: data

def encodeOpN (n : Nat) : UInt8 :=
  if n = 0 then OP_0 else OP_1 + UInt8.ofNat (n - 1)

def getScriptForDestination : CTxDestination → CScript
  | .keyID hash => [OP_DUP, OP_HASH160] ++ pushData hash ++ [OP_EQUALVERIFY, OP_CHECKSIG]
  | .scriptID hash => OP_HASH160 :: pushData hash ++ [OP_EQUAL]
  | .witnessV0ScriptHash hash => OP_0 :: pushData hash
  | .witnessV0KeyHash hash => OP_0 :: pushData hash
  | .witnessUnknown version program => encodeOpN version :: pushData program

-- The output of an outpoint, and the input that spends it. An entry with height 0 is a tombstone.
structure CAddressValue where
  value : CAmount := 0
  height : Nat := 0
  iscoinbase : Bool := false
  spend_height : Nat := 0
  spend_hash : Uint256 := 0
  spend_n : Nat := 0
  deriving DecidableEq, Repr

structure CAddressKey where
  script : CScript
  out : COutPoint
  deriving DecidableEq, Repr

section

variable [Crypto]

def CPubKey.getID (vch : List UInt8) : List UInt8 :=
  List.ofFn (Crypto.hash160 vch)

def extractDestination (scriptPubKey : CScript) : Option CTxDestination :=
  match solver scriptPubKey with
  | some (.pubkey, [pubKey]) => some (.keyID (CPubKey.getID pubKey))
  | some (.pubkeyhash, [hash]) => some (.keyID hash)
  | some (.scripthash, [hash]) => some (.scriptID hash)
  | some (.witnessV0Keyhash, [hash]) => some (.witnessV0KeyHash hash)
  | some (.witnessV0Scripthash, [hash]) => some (.witnessV0ScriptHash hash)
  | some (.witnessUnknown, [[version], program]) => some (.witnessUnknown version.toNat program)
  | _ => none

-- The script, or that of its destination if it is a public key script of the given key size.
def normalizeSize (size : Nat) (script : CScript) : CScript :=
  if script.length = size + 2 && script[0]? = some (UInt8.ofNat size) &&
      script.getLast? = some OP_CHECKSIG
  then ((extractDestination script).map getScriptForDestination).getD script
  else script

def addressScript (script : CScript) : CScript :=
  normalizeSize 33 (normalizeSize 65 script)

def CAddressKey.ofScript (pscript : CScript) (pout : COutPoint) : CAddressKey where
  script := addressScript pscript
  out := pout

end

-- The cache has one entry for an outpoint, under the script it was first written with.
structure CAddressIndexDB where
  cache : Finmap fun _ : COutPoint => CScript × CAddressValue
  db : CAddressKey → Option CAddressValue

namespace CAddressIndexDB

def MAX_CACHE_SIZE : Nat := 64000

variable (index : CAddressIndexDB)

def size : Nat :=
  index.cache.keys.card

def flush : CAddressIndexDB where
  cache := ∅
  db key :=
    match index.cache.lookup key.out with
    | none => index.db key
    | some (script, value) =>
      if script ≠ key.script then index.db key else
      if value.height = 0 then none else some value

def assign (key : CAddressKey) (value : CAddressValue) : CAddressIndexDB :=
  let script := ((index.cache.lookup key.out).map Prod.fst).getD key.script
  { index with cache := index.cache.insert key.out (script, value) }

def write (key : CAddressKey) (value : CAddressValue) : CAddressIndexDB :=
  (if index.size > MAX_CACHE_SIZE then index.flush else index).assign key value

-- The result's keys are also compared by their outpoints, and all of them have the given script. The
-- cursor starts at the null outpoint, which only entries of a transaction with a null hash precede:
-- `scan` leaves them out.
def read (script : CScript) (out : COutPoint) : Option CAddressValue :=
  match index.cache.lookup out with
  | none => index.db { script := script, out := out }
  | some (script', value) =>
    if script' ≠ script then index.db { script := script, out := out } else
    if value.height > 0 then some value else none

-- Keys of one script are ordered by the bytes of the hash and of the index.
def precedesNull (out : COutPoint) : Bool :=
  out.hash = 0 && writeVarInt out.n < writeVarInt 0xffffffff

-- The cursor starts at the normal form of the script and stops at another script than given.
def scan : CScript → COutPoint → Option CAddressValue :=
  read { index with db := fun key => if precedesNull key.out then none else index.db key }

end CAddressIndexDB

end Taler
