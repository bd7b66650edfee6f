import Mathlib.Tactic.Ring

namespace Taler

abbrev CScript := List UInt8

def OP_0 : UInt8 := 0x00
def OP_PUSHDATA1 : UInt8 := 0x4c
def OP_PUSHDATA2 : UInt8 := 0x4d
def OP_PUSHDATA4 : UInt8 := 0x4e
def OP_1 : UInt8 := 0x51
def OP_16 : UInt8 := 0x60
def OP_RETURN : UInt8 := 0x6a
def OP_DUP : UInt8 := 0x76
def OP_EQUAL : UInt8 := 0x87
def OP_EQUALVERIFY : UInt8 := 0x88
def OP_HASH160 : UInt8 := 0xa9
def OP_CHECKSIG : UInt8 := 0xac
def OP_CHECKSIGVERIFY : UInt8 := 0xad
def OP_CHECKMULTISIG : UInt8 := 0xae
def OP_CHECKMULTISIGVERIFY : UInt8 := 0xaf
def OP_INVALIDOPCODE : UInt8 := 0xff

def MAX_SCRIPT_SIZE : Nat := 10000
def MAX_PUBKEYS_PER_MULTISIG : Nat := 20

namespace CScript

-- The operand size of a push opcode, together with the rest of the script after the size bytes.
def operandSize (opcode : UInt8) (pc : List UInt8) : Option (Nat × List UInt8) :=
  if opcode < OP_PUSHDATA1 then some (opcode.toNat, pc) else
  if opcode = OP_PUSHDATA1 then
    match pc with
    | a :: pc => some (a.toNat, pc)
    | _ => none
  else if opcode = OP_PUSHDATA2 then
    match pc with
    | a :: b :: pc => some (a.toNat + 256 * b.toNat, pc)
    | _ => none
  else
    match pc with
    | a :: b :: c :: d :: pc =>
      some (a.toNat + 256 * b.toNat + 65536 * c.toNat + 16777216 * d.toNat, pc)
    | _ => none

-- An instruction: its opcode, operand and what follows. A failed read has no result.
def getScriptOp : List UInt8 → Option (UInt8 × List UInt8 × List UInt8)
  | [] => none
  | opcode :: pc =>
    if opcode ≤ OP_PUSHDATA4 then
      match operandSize opcode pc with
      | none => none
      | some (nSize, pc) =>
        if pc.length < nSize then none else some (opcode, pc.take nSize, pc.drop nSize)
    else some (opcode, [], pc)

variable (script : CScript)

-- All instructions up to one that cannot be read, and whether the end was reached.
def ops : List (UInt8 × List UInt8) × Bool :=
  go script.length script
where
  go : Nat → List UInt8 → List (UInt8 × List UInt8) × Bool
    | _, [] => ([], true)
    | 0, _ => ([], false)
    | fuel + 1, pc =>
      match getScriptOp pc with
      | none => ([], false)
      | some (opcode, data, pc) => ((opcode, data) :: (go fuel pc).1, (go fuel pc).2)

def decodeOpN (opcode : UInt8) : Nat :=
  if opcode = OP_0 then 0 else opcode.toNat - (OP_1.toNat - 1)

def isSmallInteger (opcode : UInt8) : Bool :=
  OP_1 ≤ opcode && opcode ≤ OP_16

-- Signature operations of a script. Without `fAccurate` every multisig counts for the maximum.
def getSigOpCount (fAccurate : Bool) : Nat :=
  go OP_INVALIDOPCODE (ops script).1
where
  go (lastOpcode : UInt8) : List (UInt8 × List UInt8) → Nat
    | [] => 0
    | (opcode, _) :: rest =>
      let n :=
        if opcode = OP_CHECKSIG || opcode = OP_CHECKSIGVERIFY then 1 else
        if opcode = OP_CHECKMULTISIG || opcode = OP_CHECKMULTISIGVERIFY then
          if fAccurate && isSmallInteger lastOpcode then decodeOpN lastOpcode
          else MAX_PUBKEYS_PER_MULTISIG
        else 0
      n + go opcode rest

def isPayToScriptHash : Bool :=
  script.length = 23 && script[0]? = some OP_HASH160 && script[1]? = some 0x14 &&
    script[22]? = some OP_EQUAL

-- The version and the program of a witness program script.
def isWitnessProgram : Option (Nat × List UInt8) :=
  if script.length < 4 || script.length > 42 then none else
  match script with
  | version :: size :: program =>
    if version ≠ OP_0 && (version < OP_1 || version > OP_16) then none else
    if size.toNat + 2 = script.length then some (decodeOpN version, program) else none
  | _ => none

def isPushOnly : Bool :=
  (ops script).2 && (ops script).1.all (·.1 ≤ OP_16)

def isUnspendable : Bool :=
  (script.length > 0 && script[0]? = some OP_RETURN) || script.length > MAX_SCRIPT_SIZE

-- The operations of a spent script, or of the last item of `scriptSig` for a script hash.
def getSigOpCountP2SH (script scriptSig : CScript) : Nat :=
  if !script.isPayToScriptHash then script.getSigOpCount true else
  if !scriptSig.isPushOnly then 0 else
  getSigOpCount (((ops scriptSig).1.getLast?.map Prod.snd).getD []) true

end CScript

namespace CPubKey

def PUBLIC_KEY_SIZE : Nat := 65
def COMPRESSED_PUBLIC_KEY_SIZE : Nat := 33

def getLen (chHeader : UInt8) : Nat :=
  if chHeader = 2 || chHeader = 3 then COMPRESSED_PUBLIC_KEY_SIZE else
  if chHeader = 4 || chHeader = 6 || chHeader = 7 then PUBLIC_KEY_SIZE else 0

def validSize (vch : List UInt8) : Bool :=
  match vch with
  | [] => false
  | chHeader :: _ => getLen chHeader = vch.length

end CPubKey

inductive TxnOutType
  | nonstandard
  | pubkey
  | pubkeyhash
  | scripthash
  | multisig
  | nullData
  | witnessV0Scripthash
  | witnessV0Keyhash
  | witnessUnknown
  deriving DecidableEq, Repr

variable (script : CScript)

def matchPayToPubkey : Option (List UInt8) :=
  match [CPubKey.PUBLIC_KEY_SIZE, CPubKey.COMPRESSED_PUBLIC_KEY_SIZE].find? (matchesSize ·) with
  | none => none
  | some size =>
    let pubkey := (script.drop 1).take size
    if CPubKey.validSize pubkey then some pubkey else none
where
  matchesSize (size : Nat) : Bool :=
    script.length = size + 2 && script[0]? = some (UInt8.ofNat size) &&
      script.getLast? = some OP_CHECKSIG

def matchPayToPubkeyHash : Option (List UInt8) :=
  if script.length = 25 && script[0]? = some OP_DUP && script[1]? = some OP_HASH160 &&
      script[2]? = some 20 && script[23]? = some OP_EQUALVERIFY && script[24]? = some OP_CHECKSIG
  then some ((script.drop 3).take 20)
  else none

-- The number of required signatures and the public keys of a bare multisig script.
def matchMultisig : Option (Nat × List (List UInt8)) :=
  if script.getLast? ≠ some OP_CHECKMULTISIG then none else
  match CScript.getScriptOp script with
  | none => none
  | some (opcode, _, pc) =>
    if !CScript.isSmallInteger opcode then none else
    let required := CScript.decodeOpN opcode
    match keys pc.length pc with
    | none => none
    | some (pubkeys, opcode, pc) =>
      if !CScript.isSmallInteger opcode then none else
      if pubkeys.length ≠ CScript.decodeOpN opcode || pubkeys.length < required then none else
      if pc.length = 1 then some (required, pubkeys) else none
where
  -- Reads public keys until an instruction that is none, which is returned with the rest.
  keys : Nat → List UInt8 → Option (List (List UInt8) × UInt8 × List UInt8)
    | 0, _ => none
    | fuel + 1, pc =>
      match CScript.getScriptOp pc with
      | none => none
      | some (opcode, data, pc) =>
        if CPubKey.validSize data then
          (keys fuel pc).map fun (pubkeys, rest) => (data :: pubkeys, rest)
        else some ([], opcode, pc)

-- The type of an output script and the data pushed in it. `none` is the source's `false`.
def solver (scriptPubKey : CScript) : Option (TxnOutType × List (List UInt8)) :=
  if scriptPubKey.isPayToScriptHash then
    some (.scripthash, [(scriptPubKey.drop 2).take 20])
  else match scriptPubKey.isWitnessProgram with
  | some (version, program) =>
    if version = 0 && program.length = 20 then some (.witnessV0Keyhash, [program]) else
    if version = 0 && program.length = 32 then some (.witnessV0Scripthash, [program]) else
    if version ≠ 0 then some (.witnessUnknown, [[UInt8.ofNat version], program]) else none
  | none =>
    if scriptPubKey[0]? = some OP_RETURN && CScript.isPushOnly (scriptPubKey.drop 1) then
      some (.nullData, [])
    else match matchPayToPubkey scriptPubKey with
    | some pubkey => some (.pubkey, [pubkey])
    | none =>
      match matchPayToPubkeyHash scriptPubKey with
      | some pubkeyhash => some (.pubkeyhash, [pubkeyhash])
      | none =>
        match matchMultisig scriptPubKey with
        | some (required, keys) =>
          some (.multisig, [UInt8.ofNat required] :: keys ++ [[UInt8.ofNat keys.length]])
        | none => none

end Taler
