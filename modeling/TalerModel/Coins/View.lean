import Mathlib.Data.Finmap
import Mathlib.Data.Set.Finite.Basic
import TalerModel.Validation.State

namespace Taler

structure Coin where
  out : CTxOut
  nHeight : Nat
  fCoinBase : Bool
  deriving DecidableEq, Repr

namespace Coin

def empty : Coin where
  out := CTxOut.null
  nHeight := 0
  fCoinBase := false

def isCoinBase (coin : Coin) : Bool :=
  coin.fCoinBase

def isSpent (coin : Coin) : Bool :=
  coin.out.isNull

end Coin

def CTransaction.outpoint (tx : CTransaction) (i : Nat) : COutPoint where
  hash := tx.getHash
  n := i

def CTransaction.coin (tx : CTransaction) (nHeight : Nat) (out : CTxOut) : Coin where
  out := out
  nHeight := nHeight
  fCoinBase := tx.isCoinBase

lemma finite_none : { _o : COutPoint | (none : Option Coin) ≠ none }.Finite := by simp

-- What a cache sees of the view below it. A coin that is returned may still be a spent one.
structure CCoinsView where
  getCoin : COutPoint → Option Coin
  getBestBlock : Uint256
  finite : { o | getCoin o ≠ none }.Finite

def CCoinsView.unspent (base : CCoinsView) (outpoint : COutPoint) : Option Coin :=
  (base.getCoin outpoint).filter (!·.isSpent)

structure CCoinsCacheEntry where
  coin : Coin := Coin.empty
  -- The entry may differ from the one in the view below.
  dirty : Bool := false
  -- The view below has no unspent coin here.
  fresh : Bool := false
  deriving DecidableEq, Repr

structure CCoinsViewCache where
  base : CCoinsView
  cacheCoins : Finmap fun _ : COutPoint => CCoinsCacheEntry
  hashBlock : Uint256

def MIN_TRANSACTION_OUTPUT_WEIGHT : Nat := WITNESS_SCALE_FACTOR * CTxOut.null.serializeSize
def MAX_OUTPUTS_PER_BLOCK : Nat := MAX_BLOCK_WEIGHT / MIN_TRANSACTION_OUTPUT_WEIGHT

namespace CCoinsViewCache

def onto (base : CCoinsView) : CCoinsViewCache where
  base := base
  cacheCoins := ∅
  hashBlock := 0

variable (view : CCoinsViewCache)

def getBestBlock : Uint256 :=
  if view.hashBlock = 0 then view.base.getBestBlock else view.hashBlock

def setBestBlock (hashBlockIn : Uint256) : CCoinsViewCache :=
  { view with hashBlock := hashBlockIn }

variable (outpoint : COutPoint)

-- The entry of an outpoint, which the source puts into the cache if it was not there. The reads
-- below leave that out: an entry that was only fetched does not change what any of them returns.
def fetchCoin : Option CCoinsCacheEntry :=
  match view.cacheCoins.lookup outpoint with
  | some entry => some entry
  | none => (view.base.getCoin outpoint).map fun tmp => { coin := tmp, fresh := tmp.isSpent }

def getCoin : Option Coin :=
  ((view.fetchCoin outpoint).map CCoinsCacheEntry.coin).filter (!·.isSpent)

def haveCoin : Bool :=
  (view.getCoin outpoint).isSome

def accessCoin : Coin :=
  ((view.fetchCoin outpoint).map CCoinsCacheEntry.coin).getD Coin.empty

variable (tx : CTransaction)

def haveInputs : Bool :=
  tx.isCoinBase || tx.vin.all fun txin => view.haveCoin txin.prevout

def setEntry (entry : CCoinsCacheEntry) : CCoinsViewCache :=
  { view with cacheCoins := view.cacheCoins.insert outpoint entry }

def eraseEntry : CCoinsViewCache :=
  { view with cacheCoins := view.cacheCoins.erase outpoint }

def emplaced : CCoinsCacheEntry :=
  (view.cacheCoins.lookup outpoint).getD {}

-- A coin that must not overwrite is fresh if its entry is not known to differ from below.
def addedEntry (entry : CCoinsCacheEntry) (coin : Coin) (possibleOverwrite : Bool) :
    CCoinsCacheEntry where
  coin := coin
  dirty := true
  fresh := entry.fresh || (!possibleOverwrite && !entry.dirty)

def addCoin (coin : Coin) (possibleOverwrite : Bool) : Check CCoinsViewCache :=
  if coin.isSpent then Check.fault .assertion else
  if coin.out.scriptPubKey.isUnspendable then .ok view else
  let entry := view.emplaced outpoint
  if !possibleOverwrite && !entry.coin.isSpent then Check.fault .exception else
  .ok <| view.setEntry outpoint (addedEntry entry coin possibleOverwrite)

-- The coin that was there and the view without it, or `none` if there was no entry at all.
def spendCoin : Option (Coin × CCoinsViewCache) :=
  (view.fetchCoin outpoint).map fun entry =>
    (entry.coin,
      if entry.fresh then view.eraseEntry outpoint
      else view.setEntry outpoint { dirty := true })

def addOutputs (tx : CTransaction) (nHeight : Nat) (check : Bool) :
    List (CTxOut × Nat) → CCoinsViewCache → Check CCoinsViewCache
  | [], view => .ok view
  | (out, i) :: vout, view => do
    let overwrite := if check then view.haveCoin (tx.outpoint i) else tx.isCoinBase
    let view ← view.addCoin (tx.outpoint i) (tx.coin nHeight out) overwrite
    addOutputs tx nHeight check vout view

def addCoins (nHeight : Nat) (check : Bool) : Check CCoinsViewCache :=
  addOutputs tx nHeight check tx.vout.zipIdx view

def spendInputs : List CTxIn → CCoinsViewCache → Check (List Coin × CCoinsViewCache)
  | [], view => .ok ([], view)
  | txin :: vin, view =>
    match view.spendCoin txin.prevout with
    | none => Check.fault .assertion
    | some (coin, view) => do
      let (vprevout, view) ← spendInputs vin view
      return (coin :: vprevout, view)

def markInputsSpent : Check (List Coin × CCoinsViewCache) :=
  if tx.isCoinBase then .ok ([], view) else spendInputs tx.vin view

def updateCoins (nHeight : Nat) : Check (List Coin × CCoinsViewCache) := do
  let (vprevout, view) ← view.markInputsSpent tx
  let view ← view.addCoins tx nHeight false
  return (vprevout, view)

def accessByTxid (txid : Uint256) : Coin :=
  ((List.range MAX_OUTPUTS_PER_BLOCK).findSome? fun n => view.getCoin { hash := txid, n := n }).getD
    Coin.empty

end CCoinsViewCache

end Taler
