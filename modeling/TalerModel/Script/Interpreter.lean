import TalerModel.Library.Effect
import TalerModel.Script.Num
import TalerModel.Script.SignatureHash

namespace Taler

open Codec

def OP_1NEGATE : UInt8 := 0x4f
def OP_IF : UInt8 := 0x63
def OP_NOTIF : UInt8 := 0x64
def OP_ELSE : UInt8 := 0x67
def OP_ENDIF : UInt8 := 0x68

def MAX_SCRIPT_ELEMENT_SIZE : Nat := 520
def MAX_OPS_PER_SCRIPT : Nat := 201
def MAX_STACK_SIZE : Nat := 1000

-- The errors of the opcodes that are not modelled one by one, and of the encoding checks, are numbers.
inductive ScriptError
  | UNKNOWN_ERROR
  | SCRIPT_SIZE
  | PUSH_SIZE
  | OP_COUNT
  | STACK_SIZE
  | SIG_COUNT
  | PUBKEY_COUNT
  | CHECKMULTISIGVERIFY
  | CHECKSIGVERIFY
  | BAD_OPCODE
  | DISABLED_OPCODE
  | INVALID_STACK_OPERATION
  | UNBALANCED_CONDITIONAL
  | MINIMALDATA
  | MINIMALIF
  | SIG_NULLDUMMY
  | SIG_NULLFAIL
  | OP_CODESEPARATOR
  | SIG_FINDANDDELETE
  | other (serror : Nat)
  deriving DecidableEq, Repr

-- The variables of `EvalScript`, with the top of the stack first. The code starts at `pbegincodehash`.
structure Machine where
  stack : List Bytes
  altstack : List Bytes := []
  vfExec : List Bool := []
  nOpCount : Nat := 0
  code : CScript

-- The checker, the signature version, the flags, and what every other opcode does.
structure EvalContext where
  checkSig : Bytes → Bytes → CScript → Bool
  base : Bool := true
  fRequireMinimal : Bool := false
  constScriptCode : Bool := false
  nullFail : Bool := false
  nullDummy : Bool := false
  minimalIf : Bool := false
  checkSignatureEncoding : Bytes → Except ScriptError Unit := fun _ => .ok ()
  checkPubKeyEncoding : Bytes → Except ScriptError Unit := fun _ => .ok ()
  perform : UInt8 → Machine → Except ScriptError Machine := fun _ _ => .error .BAD_OPCODE

-- The state counts the calls of the checker.
abbrev Eval := EStateM ScriptError Nat

namespace CScriptNum

-- The constructor and `getint`. What it throws is caught at the end of `EvalScript`.
def getint (vch : Bytes) (fRequireMinimal : Bool) : Except ScriptError Int :=
  if vch.length > 4 || fRequireMinimal && !isMinimal vch then .error .UNKNOWN_ERROR
  else .ok (setVch vch)

end CScriptNum

def checkMinimalPush (data : Bytes) (opcode : UInt8) : Bool :=
  match data with
  | [] => opcode = OP_0
  | [b] => !(1 ≤ b && b ≤ 16) && b ≠ 0x81 && opcode = 1
  | _ =>
    if data.length ≤ 75 then opcode.toNat = data.length
    else if data.length ≤ 255 then opcode = OP_PUSHDATA1
    else if data.length ≤ 65535 then opcode = OP_PUSHDATA2
    else true

-- The last byte of a zero may be a sign.
def castToBool (vch : Bytes) : Bool :=
  match vch.reverse with
  | [] => false
  | back :: l => l.any (· ≠ 0) || back ≠ 0 && back ≠ 0x80

def stacktop (stack : List Bytes) (i : Nat) : Except ScriptError Bytes :=
  (stack[i - 1]?).elim (.error .UNKNOWN_ERROR) .ok

def boolBytes (fSuccess : Bool) : Bytes :=
  if fSuccess then [1] else []

namespace EvalContext

variable (ctx : EvalContext)

def check (vchSig vchPubKey : Bytes) (scriptCode : CScript) : Eval Bool :=
  fun checks => .ok (ctx.checkSig vchSig vchPubKey scriptCode) (checks + 1)

-- The code without the signatures, which only stay in segwit scripts.
def scriptCode (code : CScript) : List Bytes → Except ScriptError CScript
  | [] => .ok code
  | vchSig :: sigs =>
    if !ctx.base then scriptCode code sigs else
    let (code, found) := code.findAndDelete (CScript.pushData vchSig)
    if found > 0 && ctx.constScriptCode then .error .SIG_FINDANDDELETE else scriptCode code sigs

def finish (verify fSuccess : Bool) (e : ScriptError) (m : Machine) : Eval Machine :=
  if !verify then pure { m with stack := boolBytes fSuccess :: m.stack }
  else if fSuccess then pure m else throw e

def evalCheckSig (verify : Bool) (m : Machine) : Eval Machine :=
  match m.stack with
  | vchPubKey :: vchSig :: stack => do
    let scriptCode ← ofExcept (ctx.scriptCode m.code [vchSig])
    ofExcept (ctx.checkSignatureEncoding vchSig)
    ofExcept (ctx.checkPubKeyEncoding vchPubKey)
    let fSuccess ← ctx.check vchSig vchPubKey scriptCode
    if !fSuccess && ctx.nullFail && vchSig ≠ [] then throw .SIG_NULLFAIL
    else finish verify fSuccess .CHECKSIGVERIFY { m with stack := stack }
  | _ => throw .INVALID_STACK_OPERATION

-- The loop over the keys. There are never more signatures left than keys.
def matchSigs (stack : List Bytes) (scriptCode : CScript) : Nat → Nat → Nat → Nat → Eval Bool
  | _, 0, _, _ => pure true
  | 0, _, _, _ => pure false
  | nKeysCount + 1, nSigsCount + 1, ikey, isig => do
    let vchSig ← ofExcept (stacktop stack isig)
    let vchPubKey ← ofExcept (stacktop stack ikey)
    ofExcept (ctx.checkSignatureEncoding vchSig)
    ofExcept (ctx.checkPubKeyEncoding vchPubKey)
    let fOk ← ctx.check vchSig vchPubKey scriptCode
    let nSigsCount := if fOk then nSigsCount else nSigsCount + 1
    let isig := if fOk then isig + 1 else isig
    if nSigsCount > nKeysCount then pure false
    else matchSigs stack scriptCode nKeysCount nSigsCount (ikey + 1) isig

def cleanUp (fSuccess : Bool) (i : Nat) (sigs : List Bytes) (stack : List Bytes) :
    Except ScriptError (List Bytes) :=
  if !fSuccess && ctx.nullFail && sigs.any (· ≠ []) then .error .SIG_NULLFAIL else
  match stack.drop (i - 1) with
  | [] => .error .INVALID_STACK_OPERATION
  | dummy :: stack =>
    if ctx.nullDummy && dummy ≠ [] then .error .SIG_NULLDUMMY else .ok stack

def evalCheckMultiSig (verify : Bool) (m : Machine) : Eval Machine := do
  if m.stack.length < 1 then throw .INVALID_STACK_OPERATION else
  let nKeys ← ofExcept (stacktop m.stack 1 >>= (CScriptNum.getint · ctx.fRequireMinimal))
  if nKeys < 0 ∨ nKeys > MAX_PUBKEYS_PER_MULTISIG then throw .PUBKEY_COUNT else
  let nKeysCount := nKeys.toNat
  let nOpCount := m.nOpCount + nKeysCount
  if nOpCount > MAX_OPS_PER_SCRIPT then throw .OP_COUNT else
  let i := nKeysCount + 2
  if m.stack.length < i then throw .INVALID_STACK_OPERATION else
  let nSigs ← ofExcept (stacktop m.stack i >>= (CScriptNum.getint · ctx.fRequireMinimal))
  if nSigs < 0 ∨ nSigs > nKeys then throw .SIG_COUNT else
  let nSigsCount := nSigs.toNat
  let isig := i + 1
  let i := isig + nSigsCount
  if m.stack.length < i then throw .INVALID_STACK_OPERATION else
  let sigs := (m.stack.drop (isig - 1)).take nSigsCount
  let scriptCode ← ofExcept (ctx.scriptCode m.code sigs)
  let fSuccess ← ctx.matchSigs m.stack scriptCode nKeysCount nSigsCount 2 isig
  let stack ← ofExcept (ctx.cleanUp fSuccess i sigs m.stack)
  finish verify fSuccess .CHECKMULTISIGVERIFY { m with stack := stack, nOpCount := nOpCount }

variable (opcode : UInt8)

-- `OP_IF`, `OP_NOTIF`, `OP_ELSE` and `OP_ENDIF`, which are also looked at in branches not executed.
def evalConditional (m : Machine) : Except ScriptError Machine :=
  if opcode = OP_ELSE || opcode = OP_ENDIF then
    match m.vfExec with
    | [] => .error .UNBALANCED_CONDITIONAL
    | back :: vfExec =>
      .ok { m with vfExec := if opcode = OP_ELSE then (!back) :: vfExec else vfExec }
  else if !m.vfExec.all id then .ok { m with vfExec := false :: m.vfExec }
  else
    match m.stack with
    | [] => .error .UNBALANCED_CONDITIONAL
    | vch :: stack =>
      if !ctx.base && ctx.minimalIf && (vch.length > 1 || vch.length = 1 && vch ≠ [1]) then
        .error .MINIMALIF
      else
        let fValue := if opcode = OP_NOTIF then !castToBool vch else castToBool vch
        .ok { m with stack := stack, vfExec := fValue :: m.vfExec }

-- `OP_CAT` to `OP_RIGHT`, `OP_INVERT` to `OP_XOR`, `OP_2MUL`, `OP_2DIV` and `OP_MUL` to `OP_RSHIFT`.
def isDisabled : Bool :=
  0x7e ≤ opcode && opcode ≤ 0x81 || 0x83 ≤ opcode && opcode ≤ 0x86 ||
    opcode = 0x8d || opcode = 0x8e || 0x95 ≤ opcode && opcode ≤ 0x99

variable (vchPushValue : Bytes)

-- Why an instruction is refused even in a branch that is not executed.
def refuses (nOpCount : Nat) : Option ScriptError :=
  if vchPushValue.length > MAX_SCRIPT_ELEMENT_SIZE then some .PUSH_SIZE else
  if opcode > OP_16 && nOpCount > MAX_OPS_PER_SCRIPT then some .OP_COUNT else
  if isDisabled opcode then some .DISABLED_OPCODE else
  if opcode = OP_CODESEPARATOR && ctx.base && ctx.constScriptCode then some .OP_CODESEPARATOR
  else none

def execute (rest : CScript) (m : Machine) : Eval Machine :=
  if opcode = OP_1NEGATE || CScript.isSmallInteger opcode then
    pure { m with stack := CScriptNum.serialize (opcode.toNat - 0x50) :: m.stack }
  else if opcode = OP_IF || opcode = OP_NOTIF || opcode = OP_ELSE || opcode = OP_ENDIF then
    ofExcept (ctx.evalConditional opcode m)
  else if opcode = OP_CODESEPARATOR then pure { m with code := rest }
  else if opcode = OP_CHECKSIG || opcode = OP_CHECKSIGVERIFY then
    ctx.evalCheckSig (opcode = OP_CHECKSIGVERIFY) m
  else if opcode = OP_CHECKMULTISIG || opcode = OP_CHECKMULTISIGVERIFY then
    ctx.evalCheckMultiSig (opcode = OP_CHECKMULTISIGVERIFY) m
  else ofExcept (ctx.perform opcode m)

def evalPushOrOp (rest : CScript) (m : Machine) : Eval Machine :=
  let fExec := m.vfExec.all id
  if fExec && opcode ≤ OP_PUSHDATA4 then
    if ctx.fRequireMinimal && !checkMinimalPush vchPushValue opcode then throw .MINIMALDATA
    else pure { m with stack := vchPushValue :: m.stack }
  else if fExec || (OP_IF ≤ opcode && opcode ≤ OP_ENDIF) then ctx.execute opcode rest m
  else pure m

def countOp (m : Machine) : Machine :=
  { m with nOpCount := if opcode > OP_16 then m.nOpCount + 1 else m.nOpCount }

-- One instruction, with what follows it.
def evalOp (rest : CScript) (m : Machine) : Eval Machine :=
  let m := countOp opcode m
  match ctx.refuses opcode vchPushValue m.nOpCount with
  | some e => throw e
  | none => do
    let m ← ctx.evalPushOrOp opcode vchPushValue rest m
    if m.stack.length + m.altstack.length > MAX_STACK_SIZE then throw .STACK_SIZE else pure m

-- Every instruction takes at least one byte, so the length of the script is enough fuel.
def evalLoop : Nat → CScript → Machine → Eval Machine
  | _, [], m => pure m
  | 0, _, _ => throw .UNKNOWN_ERROR
  | fuel + 1, pc, m =>
    match CScript.getScriptOp pc with
    | none => throw .BAD_OPCODE
    | some (opcode, vchPushValue, pc) =>
      ctx.evalOp opcode vchPushValue pc m >>= evalLoop fuel pc

def evalScript (stack : List Bytes) (script : CScript) : Eval (List Bytes) := do
  if script.length > MAX_SCRIPT_SIZE then throw .SCRIPT_SIZE else
  let m ← ctx.evalLoop script.length script { stack := stack, code := script }
  if m.vfExec ≠ [] then throw .UNBALANCED_CONDITIONAL else pure m.stack

end EvalContext

end Taler
