import TalerModel.Wallet.Sync

namespace Taler

inductive DBErrors
  | LOAD_OK
  | CORRUPT
  | NONCRITICAL_ERROR
  | TOO_NEW
  deriving DecidableEq, Repr

structure CWalletScanState where
  fAnyUnordered : Bool := false
  vWalletUpgrade : List Uint256 := []
  vWalletClear : List Uint256 := []
  fNoncriticalErrors : Bool := false
  deriving DecidableEq, Repr

namespace TxRecord

-- A record of versions that kept something else in this field.
def isOld (r : TxRecord) : Bool :=
  31404 ≤ r.fTimeReceivedIsTxTime && r.fTimeReceivedIsTxTime ≤ 31703

def upgraded (r : TxRecord) (trailer : Trailer) : TxRecord :=
  if !r.isOld then r else
  match trailer with
  | .upgrade fTmp strFromAccount =>
    { r with fTimeReceivedIsTxTime := fTmp, strFromAccount := strFromAccount }
  | _ => { r with fTimeReceivedIsTxTime := 0 }

-- Not confirmed for more than an hour.
def isStale (node : NodeView) (r : TxRecord) : Bool :=
  r.getDepthInMainChain node ≤ 0 && node.adjustedTime - r.nTimeReceived > 60 * 60

end TxRecord

-- The record of a transaction as it is accepted. An exception while it is read means that it is not.
def TxValue.accepted (hash : Uint256) : TxValue → Option (TxRecord × Trailer)
  | .unreadable => none
  | .record r trailer =>
    if (checkTransaction r.tx true).isOk && r.getHash = hash && !(r.isOld && trailer = .malformed)
    then some (r, trailer)
    else none

namespace CWallet

variable {κ : Type} (node : NodeView)

def loadToWallet (wtxIn : CWalletTx) : WalletM κ Unit := do
  let hash := wtxIn.getHash
  modify fun s => { s with mapWallet := s.mapWallet.insertIfNew hash wtxIn }
  modifyTx hash CWalletTx.markDirty
  addToSpends hash
  let wtx ← entryAt hash .outOfRange
  wtx.tx.vin.forM fun txin => do
    match (← get).mapWallet[txin.prevout.hash]? with
    | none => pure ()
    | some prevtx =>
      if prevtx.nIndex = -1 && !prevtx.hashUnset then
        markConflicted node prevtx.hashBlock hash

-- Reads the record of a transaction. All that `mapTxSpends` names have been loaded.
def readTx (wss : CWalletScanState) (item : Uint256 × TxValue) : WalletM κ CWalletScanState := do
  let (hash, value) := item
  match value.accepted hash with
  | none => pure { wss with fNoncriticalErrors := true }
  | some (r, trailer) =>
    let wtx := r.upgraded trailer
    let wss := { wss with
      vWalletUpgrade := if r.isOld then wss.vWalletUpgrade ++ [hash] else wss.vWalletUpgrade
      fAnyUnordered := wss.fAnyUnordered || wtx.nOrderPos = -1 }
    if wtx.isStale node then pure { wss with vWalletClear := wss.vWalletClear ++ [hash] } else do
    loadToWallet node { toTxRecord := wtx }
    pure wss

def isKeyType (strType : String) : Bool :=
  strType = "key" || strType = "wkey" || strType = "mkey" || strType = "ckey"

def readOther (result : DBErrors × Bool) (item : String × Bool) : DBErrors × Bool :=
  let (strType, readable) := item
  if readable then result else
  if isKeyType strType || strType = "defaultkey" then (.CORRUPT, result.2) else
  if strType = "flags" then (.TOO_NEW, result.2) else (result.1, true)

-- The result of reading all records, given whether one of a transaction was not accepted.
def loadResult (others : List (String × Bool)) (fNoncriticalErrors : Bool) : DBErrors :=
  let (result, fNoncriticalErrors) := others.foldl readOther (.LOAD_OK, fNoncriticalErrors)
  if fNoncriticalErrors && result = .LOAD_OK then .NONCRITICAL_ERROR else result

-- Writes the transactions that have been upgraded. One that has not been loaded is an exception.
def writeUpgraded (hashes : List Uint256) : WalletM κ Unit :=
  hashes.forM fun hash => do
    let wtx ← entryAt hash .outOfRange
    let _ ← writeTx hash wtx.toTxRecord
    pure ()

def eraseTx (hash : Uint256) : WalletM κ Unit :=
  modify fun s => { s with database := { s.database with txs := s.database.txs.erase hash } }

-- After all records are read. Nothing is written if anything is wrong with the wallet.
def finishLoading (others : List (String × Bool)) (wss : CWalletScanState) :
    WalletM κ DBErrors := do
  let result := loadResult others wss.fNoncriticalErrors
  if result ≠ .LOAD_OK then pure result else
  writeUpgraded wss.vWalletUpgrade
  wss.vWalletClear.forM eraseTx
  pure result

def loadWallet : WalletM κ DBErrors := do
  let database := (← get).database
  if database.tooNew then pure .TOO_NEW else
  let wss ← database.txs.toList.foldlM (readTx node) {}
  finishLoading database.others wss

def unloaded (keys : κ) (database : WalletDatabase) : CWallet κ where
  mapWallet := ∅
  mapTxSpends := []
  nOrderPosNext := 0
  keys := keys
  database := database

end CWallet

inductive StartMode
  | normal
  | reindex
  | reindexChainState
  deriving DecidableEq, Repr

-- What a start finds of the block index and of the coins.
structure StoredChain where
  index : List CBlockIndex
  -- `pcoinsTip->GetBestBlock()`, which is null if there are no coins.
  bestBlock : Uint256

namespace StoredChain

variable (stored : StoredChain)

def lookupBlockIndex (hash : Uint256) : CBlockIndex :=
  (stored.index.find? (CBlockIndex.getBlockHash · = hash)).getD []

-- `chainActive` when the wallet is opened: the best block of the coins, unless thrown away.
def chainAtWalletOpen : StartMode → Option CBlockIndex
  | .reindex | .reindexChainState => some []
  | .normal =>
    if stored.bestBlock = 0 then some [] else
    match stored.lookupBlockIndex stored.bestBlock with
    | [] => none
    | tip => some tip

-- `-reindex` throws the block index away as well.
def atWalletOpen (params : Params) (adjustedTime : Int) (mode : StartMode) : Option NodeView :=
  (stored.chainAtWalletOpen mode).map fun chainActive =>
    { params := params
      blocks := if mode = .reindex then [] else stored.index
      chainActive := chainActive
      adjustedTime := adjustedTime }

end StoredChain

end Taler
