import TalerModel.Validation.ConnectBlock

namespace Taler

inductive DisconnectResult
  | ok
  | unclean
  | failed
  deriving DecidableEq, Repr

def DisconnectResult.ofClean (fClean : Bool) : DisconnectResult :=
  if fClean then .ok else .unclean

-- The coin to restore. A coin without a height takes it from another output of its transaction.
def completeUndo (undo : Coin) (view : CCoinsViewCache) (out : COutPoint) : Option Coin :=
  if undo.nHeight ≠ 0 then some undo else
  let alternate := view.accessByTxid out.hash
  if alternate.isSpent then none
  else some { undo with nHeight := alternate.nHeight, fCoinBase := alternate.fCoinBase }

def applyTxInUndo (undo : Coin) (view : CCoinsViewCache) (out : COutPoint) :
    Check (DisconnectResult × CCoinsViewCache) :=
  let fClean := !view.haveCoin out
  match completeUndo undo view out with
  | none => return (.failed, view)
  | some undo => do
    let view ← view.addCoin out undo !fClean
    return (.ofClean fClean, view)

def Coin.entry (coin : Coin) : CAddressValue where
  value := coin.out.nValue
  height := coin.nHeight
  iscoinbase := coin.isCoinBase

namespace ConnectContext

variable [Crypto] (ctx : ConnectContext)

-- Spends an output of the block, and compares the coin that was there with it.
def removeCoin (pindex : CBlockIndex) (tx : CTransaction) (out : CTxOut) (o : Nat) :
    Connect Bool := do
  match (← get).view.spendCoin (tx.outpoint o) with
  | none => return false
  | some (coin, view) =>
    Connect.setView view
    return out = coin.out && nHeight pindex = coin.nHeight && tx.isCoinBase = coin.fCoinBase

-- Takes the outputs of a transaction back. Their index entries become tombstones.
def removeOutputs (pindex : CBlockIndex) (tx : CTransaction) :
    List (CTxOut × Nat) → Bool → Connect Bool
  | [], fClean => return fClean
  | (out, o) :: vout, fClean =>
    if out.scriptPubKey.isUnspendable then removeOutputs pindex tx vout fClean else do
    Connect.when ctx.fAddressIndex <| Connect.modifyIndex fun index =>
      index.write (CAddressKey.ofScript out.scriptPubKey (tx.outpoint o)) {}
    let matched ← removeCoin pindex tx out o
    removeOutputs pindex tx vout (fClean && matched)

-- Puts spent coins and their index entries back. `none`: a coin could not be restored.
def restoreInputs : List (COutPoint × Coin) → Bool → Connect (Option Bool)
  | [], fClean => return some fClean
  | (out, coin) :: rest, fClean => do
    Connect.when ctx.fAddressIndex <| Connect.modifyIndex fun index =>
      index.write (CAddressKey.ofScript coin.out.scriptPubKey out) coin.entry
    let view := (← get).view
    let (res, view) ← Connect.check (applyTxInUndo coin view out)
    Connect.setView view
    if res = .failed then return none else restoreInputs rest (fClean && res ≠ .unclean)

def disconnectTransaction (pindex : CBlockIndex) (vtxundo : CBlockUndo) (i : Nat)
    (tx : CTransaction) (fClean : Bool) : Connect (Option Bool) := do
  let fClean ← ctx.removeOutputs pindex tx tx.vout.zipIdx fClean
  if i = 0 then return some fClean else
  match vtxundo[i - 1]? with
  | none => Connect.check (Check.fault .outOfRange)
  | some vprevout =>
    if vprevout.length ≠ tx.vin.length then return none else
    ctx.restoreInputs ((tx.vin.map CTxIn.prevout).zip vprevout).reverse fClean

def disconnectTransactions (pindex : CBlockIndex) (vtxundo : CBlockUndo) :
    List (CTransaction × Nat) → Bool → Connect (Option Bool)
  | [], fClean => return some fClean
  | (tx, i) :: rest, fClean => do
    match ← ctx.disconnectTransaction pindex vtxundo i tx fClean with
    | none => return none
    | some fClean => disconnectTransactions pindex vtxundo rest fClean

-- The transactions are undone in reverse order. A block without undo data cannot be disconnected.
def disconnectBlock (block : CBlock) (pindex : CBlockIndex) : Connect DisconnectResult := do
  match (← get).undo pindex with
  | none => return .failed
  | some vtxundo =>
    if vtxundo.length + 1 ≠ block.vtx.length then return .failed else
    match ← ctx.disconnectTransactions pindex vtxundo block.vtx.zipIdx.reverse true with
    | none => return .failed
    | some fClean =>
      Connect.check <| Check.rejectIf (pindex.tail = []) (Check.fault .assertion)
      modify (setBestBlock (CBlockIndex.getBlockHash pindex.tail))
      return .ofClean fClean

end ConnectContext

end Taler
