import TalerModel.Chain.CommonAncestor
import TalerModel.Coins.Database
import TalerModel.Validation.Tip

namespace Taler

namespace CCoinsViewCache

def spendAll (view : CCoinsViewCache) (vin : List CTxIn) : CCoinsViewCache :=
  vin.foldl (fun view txin => ((view.spendCoin txin.prevout).map Prod.snd).getD view) view

def rollforward (nHeight : Nat) : List CTransaction → CCoinsViewCache → Check CCoinsViewCache
  | [], view => .ok view
  | tx :: vtx, view => do
    let view := if tx.isCoinBase then view else view.spendAll tx.vin
    let view ← view.addCoins tx nHeight true
    rollforward nHeight vtx view

end CCoinsViewCache

namespace ConnectContext

variable [Crypto] (ctx : ConnectContext)

def rollforwardBlock (pindex : CBlockIndex) : Connect Bool := do
  match ctx.readBlockFromDisk pindex with
  | none => return false
  | some block =>
    let inputs := (← get).view
    let inputs ← Connect.check (inputs.rollforward (nHeight pindex) block.vtx)
    Connect.setView inputs
    return true

def rollbackBlock (pindexOld : CBlockIndex) : Connect Bool :=
  match ctx.readBlockFromDisk pindexOld with
  | none => return false
  | some block => do
    match ← ctx.disconnectBlock block pindexOld with
    | .failed => return false
    | _ => return true

def rollback (pindexFork : CBlockIndex) : CBlockIndex → Connect Bool
  | [] => return true
  | b :: pprev => do
    if b :: pprev = pindexFork then return true else
    if nHeight (b :: pprev) > 0 then
      match ← ctx.rollbackBlock (b :: pprev) with
      | false => return false
      | true => rollback pindexFork pprev
    else rollback pindexFork pprev

def rollforwardAll : List CBlockIndex → Connect Bool
  | [] => return true
  | pindex :: rest => do
    match ← ctx.rollforwardBlock pindex with
    | false => return false
    | true => rollforwardAll rest

def ancestorsAbove (pindexNew : CBlockIndex) (nForkHeight : Nat) : List CBlockIndex :=
  (List.range (nHeight pindexNew - nForkHeight)).map fun i => getAncestor pindexNew (nForkHeight + 1 + i)

def replayHeads (pindexNew pindexOld pindexFork : CBlockIndex) : Connect Bool := do
  match ← ctx.rollback pindexFork pindexOld with
  | false => return false
  | true =>
    match ← ctx.rollforwardAll (ancestorsAbove pindexNew (nHeight pindexFork)) with
    | false => return false
    | true =>
      modify (setBestBlock pindexNew.getBlockHash)
      return true

-- The hash of the old tip may be null, if this is the first flush.
def replayFrom (hashNew hashOld : Uint256) : Connect Bool :=
  let pindexNew := ctx.lookupBlockIndex hashNew
  if pindexNew = [] then return false else
  if hashOld = 0 then ctx.replayHeads pindexNew [] [] else
  let pindexOld := ctx.lookupBlockIndex hashOld
  if pindexOld = [] then return false else do
  let pindexFork := lastCommonAncestor pindexOld pindexNew
  Connect.check <| Check.rejectIf (pindexFork = []) (Check.fault .assertion)
  ctx.replayHeads pindexNew pindexOld pindexFork

-- The view of the state is a new cache over the database. In the end it is flushed.
def replayBlocks (enumeration : Enumeration) (overLimit : CDBBatch → Bool) (db : CCoinsViewDB) :
    Connect (Bool × CCoinsViewDB) := do
  Connect.setView (.onto db.toView)
  match db.getHeadBlocks with
  | [] => return (true, db)
  | [hashNew, hashOld] =>
    match ← ctx.replayFrom hashNew hashOld with
    | false => return (false, db)
    | true =>
      let cache := (← get).view
      let batches ← Connect.check (db.batchWrite overLimit (enumeration.entries cache) cache.hashBlock)
      return (true, db.writeBatches batches)
  | _ => return (false, db)

end ConnectContext

end Taler
