import TalerModel.Consensus.TxInputs
import TalerModel.Library.Worklist

namespace Taler

-- Hashes are compared by their bytes. Numbers that are no hashes are told apart as numbers.
def Uint256.compare : Uint256 → Uint256 → Ordering :=
  compareLex (compareOn hashBytes) (compareOn fun n => n)

instance : Std.TransCmp Uint256.compare :=
  inferInstanceAs (Std.TransCmp (compareLex (compareOn hashBytes) (compareOn fun n : Nat => n)))

instance : Std.LawfulEqCmp Uint256.compare where
  compare_self := by simp [Uint256.compare, compareLex, compareOn]
  eq_of_compare h := by
    simp only [Uint256.compare, compareLex, compareOn, Ordering.then_eq_eq] at h
    exact Nat.compare_eq_eq.mp h.2

abbrev HashMap (α : Type) := Std.TreeMap Uint256 α Uint256.compare
abbrev HashSet := Std.TreeSet Uint256 Uint256.compare

-- What the wallet sees of the node when it is called.
structure NodeView where
  params : Params
  -- `mapBlockIndex`
  blocks : List CBlockIndex
  -- `chainActive`, headed by its tip.
  chainActive : CBlockIndex
  -- `GetAdjustedTime()`
  adjustedTime : Int

namespace NodeView

variable (node : NodeView)

def lookupBlockIndex (hash : Uint256) : CBlockIndex :=
  (node.blocks.find? (CBlockIndex.getBlockHash · = hash)).getD []

def contains (pindex : CBlockIndex) : Bool :=
  pindex ≠ [] && pindex.isSuffixOf node.chainActive

def height : Int :=
  node.chainActive.length - 1

def confirmations (pindex : CBlockIndex) : Int :=
  node.height - nHeight pindex + 1

def checkFinalTx (tx : CTransaction) : Bool :=
  isFinalTx tx (node.height + 1).toNat node.adjustedTime

end NodeView

-- Stands for the block of a transaction that has been abandoned.
def ABANDON_HASH : Uint256 := 1

structure CMerkleTx where
  tx : CTransaction
  hashBlock : Uint256 := 0
  nIndex : Int := -1
  deriving DecidableEq, Repr

namespace CMerkleTx

variable (wtx : CMerkleTx)

def hashUnset : Bool :=
  wtx.hashBlock = 0 || wtx.hashBlock = ABANDON_HASH

def isAbandoned : Bool :=
  wtx.hashBlock = ABANDON_HASH

def getHash : Uint256 :=
  wtx.tx.getHash

def isCoinBase : Bool :=
  wtx.tx.isCoinBase

-- Negative if the transaction is known to conflict with one in the block.
def getDepthInMainChain (node : NodeView) (wtx : CMerkleTx) : Int :=
  if wtx.hashUnset then 0 else
  let pindex := node.lookupBlockIndex wtx.hashBlock
  if !node.contains pindex then 0 else
  (if wtx.nIndex = -1 then -1 else 1) * node.confirmations pindex

-- Inputs are spent unless the spender is abandoned or conflicts with a block.
def isSpender (node : NodeView) (wtx : CMerkleTx) : Bool :=
  let depth := wtx.getDepthInMainChain node
  depth > 0 || (depth = 0 && !wtx.isAbandoned)

end CMerkleTx

structure TxRecord extends CMerkleTx where
  mapValue : List (String × String) := []
  vOrderForm : List (String × String) := []
  fTimeReceivedIsTxTime : Nat := 0
  nTimeReceived : Nat := 0
  nTimeSmart : Nat := 0
  fFromMe : Bool := false
  strFromAccount        : String := ""
  nOrderPos : Int := -1
  deriving DecidableEq, Repr

-- The rest is kept in memory only. A cached amount together with its flag is an option.
structure CWalletTx extends TxRecord where
  fInMempool : Bool := false
  nDebitCached : Option CAmount := none
  nWatchDebitCached : Option CAmount := none
  nImmatureCreditCached : Option CAmount := none
  nImmatureWatchCreditCached : Option CAmount := none
  nAvailableCreditCached : Option CAmount := none
  nAvailableWatchCreditCached : Option CAmount := none
  deriving DecidableEq, Repr

namespace CWalletTx

def markDirty (wtx : CWalletTx) : CWalletTx :=
  { wtx with
    nDebitCached := none
    nWatchDebitCached := none
    nImmatureCreditCached := none
    nImmatureWatchCreditCached := none
    nAvailableCreditCached := none
    nAvailableWatchCreditCached := none }

def setAbandoned (wtx : CWalletTx) : CWalletTx :=
  { wtx with hashBlock := ABANDON_HASH }

-- Only the `scriptSig`s are different. The source compares hashes, which do not cover witnesses.
def isEquivalentTo (wtx wtx' : CWalletTx) : Bool :=
  let vin (tx : CTransaction) := tx.vin.map fun txin => (txin.prevout, txin.nSequence)
  vin wtx.tx = vin wtx'.tx && wtx.tx.vout = wtx'.tx.vout && wtx.tx.nVersion = wtx'.tx.nVersion &&
    wtx.tx.nLockTime = wtx'.tx.nLockTime

end CWalletTx

-- What may follow a record of a transaction that an old version has written.
inductive Trailer
  | empty
  | malformed
  | upgrade (fTmp : Nat) (strFromAccount : String)
  deriving DecidableEq, Repr

inductive TxValue
  | unreadable
  | record (r : TxRecord) (trailer : Trailer)
  deriving DecidableEq, Repr

structure WalletDatabase where
  txs : HashMap TxValue
  -- The types of the other records, each with whether it can be read.
  others : List (String × Bool) := []
  -- Whether the wallet requires a newer version of the program.
  tooNew : Bool := false
  -- Whether the writes to come succeed.
  outcomes : Nat → Bool := fun _ => true

def WalletDatabase.write (database : WalletDatabase) (hash : Uint256) (r : TxRecord) :
    WalletDatabase :=
  { database with
    txs := if database.outcomes 0 then database.txs.insert hash (.record r .empty)
                  else database.txs
    outcomes n := database.outcomes (n + 1) }

-- `κ` is what the wallet knows about keys and scripts.
structure CWallet (κ : Type) where
  mapWallet : HashMap CWalletTx
  -- A multimap. The entries of an outpoint are in the order of their insertion.
  mapTxSpends : List (COutPoint × Uint256)
  nOrderPosNext : Int
  keys : κ
  database : WalletDatabase

abbrev IsMineFilter := BitVec 8

def ISMINE_NO : IsMineFilter := 0
def ISMINE_WATCH_ONLY : IsMineFilter := 1
def ISMINE_SPENDABLE : IsMineFilter := 2
def ISMINE_ALL : IsMineFilter := 3

structure WalletContext (κ : Type) where
  isMine : κ → CScript → IsMineFilter
  -- The keys after those a transaction pays to are marked as used and the pool is refilled.
  useKeys : κ → CTransaction → κ
  computeTimeSmart : CWallet κ → NodeView → CWalletTx → Nat
  -- `m_spend_zero_conf_change`
  spendZeroConfChange : Bool := true

-- Why a call does not return. An exception leaves the wallet to the next call.
inductive WalletError
  | assertion
  | outOfRange
  | runtimeError (what : String)
  deriving DecidableEq, Repr

abbrev WalletM (κ : Type) := EStateM WalletError (CWallet κ)

namespace CWallet

variable {κ : Type}

def assertThat (c : Bool) : WalletM κ Unit :=
  if c then pure () else throw .assertion

def entryAt (hash : Uint256) (e : WalletError) : WalletM κ CWalletTx := do
  match (← get).mapWallet[hash]? with
  | some wtx => pure wtx
  | none => throw e

lemma entryAt_eq {hash : Uint256} : entryAt hash e s =
    (match s.mapWallet[hash]? with
      | some wtx => pure wtx
      | none => throw e : WalletM κ CWalletTx) s :=
  rfl

def modifyTx (hash : Uint256) (f : CWalletTx → CWalletTx) : WalletM κ Unit :=
  modify fun s => { s with mapWallet := s.mapWallet.modify hash f }

def writeTx (hash : Uint256) (r : TxRecord) : WalletM κ Bool :=
  modifyGet fun s =>
    (s.database.outcomes 0, { s with database := s.database.write hash r })

def spendersOf (s : CWallet κ) (outpoint : COutPoint) : List Uint256 :=
  (s.mapTxSpends.filter (·.1 = outpoint)).map Prod.snd

def childrenOf (s : CWallet κ) (hash : Uint256) : List Uint256 :=
  (s.mapTxSpends.filter (·.1.hash = hash)).map Prod.snd

def isSpent (node : NodeView) (s : CWallet κ) (hash : Uint256) (n : Nat) : Bool :=
  (s.spendersOf ⟨hash, n⟩).any fun wtxid =>
    s.mapWallet[wtxid]?.any fun wtx => wtx.isSpender node

end CWallet

end Taler
