import TalerModel.Primitives.Serialize

namespace Taler

open Codec

def OP_CODESEPARATOR : UInt8 := 0xab

def SIGHASH_NONE : BitVec 32 := 2
def SIGHASH_SINGLE : BitVec 32 := 3
def SIGHASH_ANYONECANPAY : BitVec 32 := 0x80

def serializeVector (serialize : α → Bytes) (l : List α) : Bytes :=
  writeCompactSize l.length ++ l.flatMap serialize

def CScript.serialize (script : CScript) : Bytes :=
  writeCompactSize script.length ++ script

def COutPoint.serialize (o : COutPoint) : Bytes :=
  writeLE 32 o.hash ++ writeLE 4 o.n

def CTxIn.serialize (txin : CTxIn) : Bytes :=
  txin.prevout.serialize ++ txin.scriptSig.serialize ++ writeLE 4 txin.nSequence

def CTxOut.serialize (out : CTxOut) : Bytes :=
  writeLE 8 (out.nValue % 2 ^ 64).toNat ++ out.scriptPubKey.serialize

def CTransaction.serialize (tx : CTransaction) : Bytes :=
  writeLE 4 tx.nVersion.toNat ++ serializeVector CTxIn.serialize tx.vin ++
    serializeVector CTxOut.serialize tx.vout ++ writeLE 4 tx.nLockTime

-- Iterators are represented by what follows them in the script.
namespace CScript

-- A read that fails leaves the iterator after the opcode and the operand size, if there is one.
def afterFailure : List UInt8 → List UInt8
  | [] => []
  | opcode :: pc => ((operandSize opcode pc).map Prod.snd).getD pc

-- What is left of the script, and how often `b` has been found at the start of an instruction.
def findAndDelete (script b : CScript) : CScript × Nat :=
  if b = [] then (script, 0) else
  let (result, nFound) := go script.length script
  (if nFound > 0 then result else script, nFound)
where
  go : Nat → List UInt8 → CScript × Nat
    | 0, pc => (pc, 0)
    | fuel + 1, pc =>
      if b.isPrefixOf pc then
        ((go fuel (pc.drop b.length)).1, (go fuel (pc.drop b.length)).2 + 1)
      else match getScriptOp pc with
        | none => (pc, 0)
        | some (_, _, rest) =>
          (pc.take (pc.length - rest.length) ++ (go fuel rest).1, (go fuel rest).2)

end CScript

structure CTransactionSignatureSerializer where
  txTo : CTransaction
  scriptCode : CScript
  nIn : Nat
  fAnyoneCanPay : Bool
  fHashSingle : Bool
  fHashNone : Bool

namespace CTransactionSignatureSerializer

def ofHashType (txTo : CTransaction) (scriptCode : CScript) (nIn : Nat) (nHashType : BitVec 32) :
    CTransactionSignatureSerializer where
  txTo := txTo
  scriptCode := scriptCode
  nIn := nIn
  fAnyoneCanPay := nHashType &&& SIGHASH_ANYONECANPAY ≠ 0
  fHashSingle := nHashType &&& 0x1f = SIGHASH_SINGLE
  fHashNone := nHashType &&& 0x1f = SIGHASH_NONE

-- The second loop over the script. Every code separator ends a piece that is written without it.
def pieces : Nat → List UInt8 → List UInt8 → Bytes
  | 0, _, _ => []
  | fuel + 1, itBegin, it =>
    match CScript.getScriptOp it with
    | none => itBegin.take (itBegin.length - (CScript.afterFailure it).length)
    | some (opcode, _, rest) =>
      if opcode = OP_CODESEPARATOR then
        itBegin.take (itBegin.length - rest.length - 1) ++ pieces fuel rest rest
      else pieces fuel itBegin rest

variable (s : CTransactionSignatureSerializer)

def serializeScriptCode : Bytes :=
  let nCodeSeparators := s.scriptCode.ops.1.countP (·.1 = OP_CODESEPARATOR)
  writeCompactSize (s.scriptCode.length - nCodeSeparators) ++
    pieces (s.scriptCode.length + 1) s.scriptCode s.scriptCode

def serializeInput (nInput : Nat) : Bytes :=
  let nInput := if s.fAnyoneCanPay then s.nIn else nInput
  match s.txTo.vin[nInput]? with
  | none => []
  | some txin =>
    txin.prevout.serialize ++
    (if nInput ≠ s.nIn then CScript.serialize [] else s.serializeScriptCode) ++
    writeLE 4 (if nInput ≠ s.nIn && (s.fHashSingle || s.fHashNone) then 0 else txin.nSequence)

def serializeOutput (nOutput : Nat) : Bytes :=
  if s.fHashSingle && nOutput ≠ s.nIn then CTxOut.null.serialize else
  match s.txTo.vout[nOutput]? with
  | none => []
  | some out => out.serialize

def serialize : Bytes :=
  let nInputs := if s.fAnyoneCanPay then 1 else s.txTo.vin.length
  let nOutputs := if s.fHashNone then 0 else if s.fHashSingle then s.nIn + 1
    else s.txTo.vout.length
  writeLE 4 s.txTo.nVersion.toNat ++
    (writeCompactSize nInputs ++ (List.range nInputs).flatMap s.serializeInput) ++
    (writeCompactSize nOutputs ++ (List.range nOutputs).flatMap s.serializeOutput) ++
    writeLE 4 s.txTo.nLockTime

end CTransactionSignatureSerializer

variable (sha256d : Bytes → Uint256) (scriptCode : CScript) (txTo : CTransaction) (nIn : Nat)
  (nHashType : BitVec 32)

-- For `SigVersion::BASE`. There is no result when the assertion fails.
def signatureHash : Option Uint256 :=
  if nIn < txTo.vin.length then
    if nHashType &&& 0x1f = SIGHASH_SINGLE && nIn ≥ txTo.vout.length then some 1 else
    let txTmp := CTransactionSignatureSerializer.ofHashType txTo scriptCode nIn nHashType
    some (sha256d (txTmp.serialize ++ writeLE 4 nHashType.toNat))
  else none

-- Lets the others update at will.
def updatable (vin : List CTxIn) : List CTxIn :=
  vin.mapIdx fun i txin => if i ≠ nIn then { txin with nSequence := 0 } else txin

-- The inputs and outputs of the copy of `SignatureHashOld`, if the output is in range.
def modifiedCopy : Option CTransaction :=
  let scriptCode := (scriptCode.findAndDelete [OP_CODESEPARATOR]).1
  let vin := txTo.vin.map fun txin => { txin with scriptSig := [] }
  let vin := vin.modify nIn fun txin => { txin with scriptSig := scriptCode }
  let txTmp : Option (List CTxIn × List CTxOut) :=
    if nHashType &&& 0x1f = SIGHASH_NONE then some (updatable nIn vin, []) else
    if nHashType &&& 0x1f = SIGHASH_SINGLE then
      if nIn ≥ txTo.vout.length then none else
      let vout := txTo.vout.take (nIn + 1)
      some (updatable nIn vin, vout.mapIdx fun i out => if i < nIn then CTxOut.null else out)
    else some (vin, txTo.vout)
  txTmp.map fun (vin, vout) =>
    { txTo with
      vin := if nHashType &&& SIGHASH_ANYONECANPAY ≠ 0 then (vin.drop nIn).take 1 else vin
      vout := vout }

def signatureHashOld : Uint256 :=
  if nIn ≥ txTo.vin.length then 1 else
  match modifiedCopy scriptCode txTo nIn nHashType with
  | none => 1
  | some txTmp => sha256d (txTmp.serialize ++ writeLE 4 nHashType.toNat)

end Taler
