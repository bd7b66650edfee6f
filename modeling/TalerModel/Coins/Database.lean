import TalerModel.Coins.Stack

namespace Taler

-- The database of coins. During a flush it has the hashes of two tips in place of a best block.
structure CCoinsViewDB where
  coins : COutPoint → Option Coin
  finite : { o | coins o ≠ none }.Finite
  bestBlock : Option Uint256
  headBlocks : Option (List Uint256)

inductive DBWrite
  | eraseBestBlock
  | writeBestBlock (hashBlock : Uint256)
  | eraseHeadBlocks
  | writeHeadBlocks (vhashHeadBlocks : List Uint256)
  | eraseCoin (outpoint : COutPoint)
  | writeCoin (outpoint : COutPoint) (coin : Coin)

abbrev CDBBatch := List DBWrite

namespace CCoinsViewDB

variable (db : CCoinsViewDB)

def getBestBlock : Uint256 :=
  db.bestBlock.getD 0

def getHeadBlocks : List Uint256 :=
  db.headBlocks.getD []

def toView : CCoinsView where
  getCoin := db.coins
  getBestBlock := db.getBestBlock
  finite := db.finite

lemma update_finite {coins : COutPoint → Option Coin} (h : { o | coins o ≠ none }.Finite)
    (outpoint coin) : { o | Function.update coins outpoint coin o ≠ none }.Finite := by
  refine (h.insert outpoint).subset fun o ho => ?_
  by_cases he : o = outpoint
  · exact .inl he
  · exact .inr fun hn => ho (by rw [Function.update_of_ne he, hn])

def setCoin (outpoint : COutPoint) (coin : Option Coin) : CCoinsViewDB :=
  { db with
    coins := Function.update db.coins outpoint coin
    finite := update_finite db.finite outpoint coin }

def write : DBWrite → CCoinsViewDB
  | .eraseBestBlock => { db with bestBlock := none }
  | .writeBestBlock hashBlock => { db with bestBlock := some hashBlock }
  | .eraseHeadBlocks => { db with headBlocks := none }
  | .writeHeadBlocks vhashHeadBlocks => { db with headBlocks := some vhashHeadBlocks }
  | .eraseCoin outpoint => db.setCoin outpoint none
  | .writeCoin outpoint coin => db.setCoin outpoint (some coin)

def writeBatch (batch : CDBBatch) : CCoinsViewDB :=
  batch.foldl write db

def writeBatches (batches : List CDBBatch) : CCoinsViewDB :=
  batches.foldl writeBatch db

def entryWrites (outpoint : COutPoint) (entry : CCoinsCacheEntry) : CDBBatch :=
  if !entry.dirty then [] else
  if entry.coin.isSpent then [.eraseCoin outpoint] else [.writeCoin outpoint entry.coin]

-- The batches for some entries after the current one. `overLimit` is the test of their size.
def batchesFrom (overLimit : CDBBatch → Bool) (hashBlock : Uint256) :
    CDBBatch → List (COutPoint × CCoinsCacheEntry) → List CDBBatch
  | batch, [] => [batch ++ [.eraseHeadBlocks, .writeBestBlock hashBlock]]
  | batch, (outpoint, entry) :: mapCoins =>
    let batch := batch ++ entryWrites outpoint entry
    if overLimit batch then batch :: batchesFrom overLimit hashBlock [] mapCoins
    else batchesFrom overLimit hashBlock batch mapCoins

def oldTip (hashBlock : Uint256) : Check Uint256 :=
  if db.getBestBlock ≠ 0 then .ok db.getBestBlock else
  match db.getHeadBlocks with
  | [hashNew, hashOld] => if hashNew ≠ hashBlock then Check.fault .assertion else .ok hashOld
  | _ => .ok db.getBestBlock

def batchWrite (overLimit : CDBBatch → Bool)
    (mapCoins : List (COutPoint × CCoinsCacheEntry)) (hashBlock : Uint256) :
    Check (List CDBBatch) := do
  Check.rejectIf (hashBlock = 0) (Check.fault .assertion)
  let old_tip ← db.oldTip hashBlock
  return batchesFrom overLimit hashBlock
    [.eraseBestBlock, .writeHeadBlocks [hashBlock, old_tip]] mapCoins

end CCoinsViewDB

end Taler
