import TalerModel.Library.Effect
import TalerModel.Primitives.Script

namespace Taler

-- A 256-bit hash, read as a number. `0` is the null hash.
abbrev Uint256 := Nat

-- The bytes of a hash as they are stored, in the order in which hashes are compared.
def hashBytes (hash : Uint256) : List UInt8 :=
  (List.range 32).map fun i => UInt8.ofNat (hash / 256 ^ i)

-- An amount in the smallest unit. The source's `int64_t` is wider than every amount that passes
-- the range checks, but not than every sum: `wrap64` is what a 64-bit addition really yields.
abbrev CAmount := Int

def COIN : CAmount := 100000000
def CENT : CAmount := 1000000
def MAX_MONEY : CAmount := 23333333 * COIN

def moneyRange (nValue : CAmount) : Bool :=
  0 ≤ nValue && nValue ≤ MAX_MONEY

def wrap64 (n : Int) : Int :=
  n.bmod (2 ^ 64)

def FitsInt64 (n : Int) : Prop :=
  -(2 ^ 63) ≤ n ∧ n < 2 ^ 63

instance : DecidablePred FitsInt64 :=
  fun _ => inferInstanceAs (Decidable (_ ∧ _))

-- The 64-bit result of an operation on amounts, traced with its exact result.
def amount (n : Int) : Traced CAmount :=
  Traced.op wrap64 n

@[simp]
lemma amount_val (n) : (amount n).val = wrap64 n :=
  rfl

@[simp]
lemma amount_exact (n) : (amount n).exact = [n] :=
  rfl

@[simp]
lemma amount_fits : (amount n).Fits p ↔ p n :=
  Traced.op_fits

lemma fitsInt64_of_nonneg (h : 0 ≤ n) : FitsInt64 n ↔ n < 2 ^ 63 :=
  and_iff_right (by omega)

lemma moneyRange_iff : moneyRange n ↔ 0 ≤ n ∧ n ≤ MAX_MONEY := by
  simp [moneyRange]

lemma wrap64_eq (h : FitsInt64 n) : wrap64 n = n := by
  have ⟨hl, hu⟩ := h
  apply Int.bmod_eq_of_le <;> simp <;> omega

lemma wrap64_fits (n) : FitsInt64 (wrap64 n) :=
  ⟨Int.le_bmod (by decide), Int.bmod_lt (by decide)⟩

lemma wrap64_le (h : -(2 ^ 63) ≤ n) : wrap64 n ≤ n := by
  by_cases hn : n < 2 ^ 63
  · exact Int.le_of_eq (wrap64_eq ⟨h, hn⟩)
  have := (wrap64_fits n).2
  omega

lemma lt_of_wrap64_nonneg (h : 0 ≤ wrap64 n) (hn : n < 2 ^ 64) : n < 2 ^ 63 := by
  by_contra hl
  have he : wrap64 n = n - 2 ^ 64 := by
    rw [wrap64, Int.bmod_def, Int.emod_eq_of_lt (by omega) (by simpa using hn)]
    omega
  omega

structure COutPoint where
  hash : Uint256
  n : Nat
  deriving DecidableEq, Repr

def COutPoint.isNull (o : COutPoint) : Bool :=
  o.hash = 0 && o.n = 0xffffffff

structure CTxIn where
  prevout : COutPoint
  scriptSig : CScript := []
  nSequence : Nat := 0xffffffff
  scriptWitness : List (List UInt8) := []
  deriving DecidableEq, Repr

def SEQUENCE_FINAL : Nat := 0xffffffff

structure CTxOut where
  nValue : CAmount
  scriptPubKey : CScript
  deriving DecidableEq, Repr

-- A spent output is overwritten with the null output.
def CTxOut.null : CTxOut where
  nValue := -1
  scriptPubKey := []

def CTxOut.isNull (out : CTxOut) : Bool :=
  out.nValue = -1

structure CTransaction where
  vin : List CTxIn
  vout : List CTxOut
  nVersion : BitVec 32 := 2
  nLockTime : Nat := 0
  hash : Uint256
  witnessHash : Uint256
  deriving DecidableEq, Repr

namespace CTransaction

variable (tx : CTransaction)

def getHash : Uint256 :=
  tx.hash

def getWitnessHash : Uint256 :=
  tx.witnessHash

def isCoinBase : Bool :=
  match tx.vin with
  | [txin] => txin.prevout.isNull
  | _ => false

def hasWitness : Bool :=
  tx.vin.any (!·.scriptWitness.isEmpty)

-- `none` is the exception thrown on an amount out of range.
def getValueOut : Traced (Option CAmount) :=
  go 0 tx.vout
where
  go (nValueOut : CAmount) : List CTxOut → Traced (Option CAmount)
    | [] => pure (some nValueOut)
    | out :: rest => do
      let nValueOut ← amount (nValueOut + out.nValue)
      if !moneyRange out.nValue || !moneyRange nValueOut then pure none else go nValueOut rest

end CTransaction

def getSizeOfCompactSize (n : Nat) : Nat :=
  if n < 253 then 1 else if n ≤ 0xffff then 3 else if n ≤ 0xffffffff then 5 else 9

def vectorSize (size : α → Nat) (l : List α) : Nat :=
  getSizeOfCompactSize l.length + (l.map size).sum

def bytesSize (l : List UInt8) : Nat :=
  getSizeOfCompactSize l.length + l.length

def CTxIn.serializeSize (txin : CTxIn) : Nat :=
  36 + bytesSize txin.scriptSig + 4

def CTxOut.serializeSize (out : CTxOut) : Nat :=
  8 + bytesSize out.scriptPubKey

variable (tx : CTransaction)

def CTransaction.strippedSize : Nat :=
  4 + vectorSize CTxIn.serializeSize tx.vin + vectorSize CTxOut.serializeSize tx.vout + 4

def CTransaction.witnessSize : Nat :=
  if tx.hasWitness then 2 + (tx.vin.map fun txin => vectorSize bytesSize txin.scriptWitness).sum
  else 0

def CTransaction.serializeSize : Nat :=
  tx.strippedSize + tx.witnessSize

end Taler
