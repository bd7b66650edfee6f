import Mathlib.Data.List.Basic
import Mathlib.Tactic.Ring
import TalerModel.Primitives.Script

namespace Taler

namespace CScriptNum

-- The bytes of an absolute value, lowest first. Eight of them are enough for 64 bits.
def absBytes : Nat → Nat → List UInt8
  | 0, _ => []
  | fuel + 1, absvalue =>
    if absvalue = 0 then [] else UInt8.ofNat absvalue :: absBytes fuel (absvalue / 256)

def serialize (value : Int) : List UInt8 :=
  let result := absBytes 8 value.natAbs
  match result.getLast? with
  | none => []
  | some back =>
    if back ≥ 0x80 then result ++ [if value < 0 then 0x80 else 0]
    else if value < 0 then result.dropLast ++ [back ||| 0x80]
    else result

def setVch (vch : List UInt8) : Int :=
  let result : Nat := vch.foldr (fun b n => b.toNat + 256 * n) 0
  if vch.getLast?.any (· ≥ 0x80) then 0x80 * 256 ^ (vch.length - 1) - result else result

def isMinimal (vch : List UInt8) : Bool :=
  match vch.reverse with
  | [] => true
  | [back] => back &&& 0x7f ≠ 0
  | back :: next :: _ => back &&& 0x7f ≠ 0 || next &&& 0x80 ≠ 0

def value (vch : List UInt8) : Nat :=
  vch.foldr (fun b n => b.toNat + 256 * n) 0

section

variable {init init' vch : List UInt8} {back back' : UInt8}

end

end CScriptNum

namespace CScript

def pushData (b : List UInt8) : CScript :=
  if b.length < OP_PUSHDATA1.toNat then UInt8.ofNat b.length :: b
  else if b.length ≤ 0xff then OP_PUSHDATA1 :: UInt8.ofNat b.length :: b
  else if b.length ≤ 0xffff then
    OP_PUSHDATA2 :: UInt8.ofNat b.length :: UInt8.ofNat (b.length / 256) :: b
  else
    OP_PUSHDATA4 :: UInt8.ofNat b.length :: UInt8.ofNat (b.length / 256) ::
      UInt8.ofNat (b.length / 256 ^ 2) :: UInt8.ofNat (b.length / 256 ^ 3) :: b

def pushInt64 (n : Int) : CScript :=
  if n = -1 ∨ 1 ≤ n ∧ n ≤ 16 then [UInt8.ofNat (n + 0x50).toNat]
  else if n = 0 then [OP_0]
  else pushData (CScriptNum.serialize n)

end CScript

end Taler
