import TalerModel.Wallet.State

namespace Taler

namespace CWalletTx

-- The metadata of an older transaction is taken over by one that is equivalent to it.
def copyMetaData (copyFrom copyTo : CWalletTx) : CWalletTx :=
  if !copyFrom.isEquivalentTo copyTo then copyTo else
  { copyTo with
    mapValue := copyFrom.mapValue
    vOrderForm := copyFrom.vOrderForm
    nTimeSmart := copyFrom.nTimeSmart
    fFromMe := copyFrom.fFromMe
    strFromAccount := copyFrom.strFromAccount }

def updateIf (c : CWalletTx → Bool) (f : CWalletTx → CWalletTx) (wtx : CWalletTx × Bool) :
    CWalletTx × Bool :=
  if c wtx.1 then (f wtx.1, true) else wtx

-- What a transaction takes over from another version of it, and whether that changes it.
def merge (wtxIn wtx : CWalletTx) : CWalletTx × Bool :=
  let x := (wtx, false)
  let x := updateIf (fun wtx => !wtxIn.hashUnset && wtxIn.hashBlock ≠ wtx.hashBlock)
    (fun wtx => { wtx with hashBlock := wtxIn.hashBlock }) x
  let x := updateIf (fun wtx => wtxIn.hashBlock = 0 && wtx.isAbandoned)
    (fun wtx => { wtx with hashBlock := wtxIn.hashBlock }) x
  let x := updateIf (fun wtx => wtxIn.nIndex ≠ -1 && wtxIn.nIndex ≠ wtx.nIndex)
    (fun wtx => { wtx with nIndex := wtxIn.nIndex }) x
  let x := updateIf (fun wtx => wtxIn.fFromMe && wtxIn.fFromMe ≠ wtx.fFromMe)
    (fun wtx => { wtx with fFromMe := wtxIn.fFromMe }) x
  updateIf (fun wtx => wtxIn.tx.hasWitness && !wtx.tx.hasWitness)
    (fun wtx => { wtx with tx := wtxIn.tx }) x

end CWalletTx

namespace CWallet

variable {κ : Type} (ctx : WalletContext κ) (node : NodeView)

section

-- The one with the least order position, if that is less than the largest `int`.
def oldestOf (s : CWallet κ) (hashes : List Uint256) : Option CWalletTx :=
  (hashes.filterMap (s.mapWallet[·]?)).foldl (fun copyFrom wtx =>
    if wtx.nOrderPos < (copyFrom.map (·.nOrderPos)).getD (2 ^ 31 - 1) then some wtx
    else copyFrom) none

def syncMetaData (hashes : List Uint256) : WalletM κ Unit := do
  hashes.forM fun hash => do
    let _ ← entryAt hash .outOfRange
    pure ()
  match (← get).oldestOf hashes with
  | none => pure ()
  | some copyFrom =>
    hashes.forM fun hash =>
      if hash = copyFrom.getHash then pure () else modifyTx hash copyFrom.copyMetaData

def addSpend (outpoint : COutPoint) (wtxid : Uint256) : WalletM κ Unit := do
  modify fun s => { s with mapTxSpends := s.mapTxSpends ++ [(outpoint, wtxid)] }
  syncMetaData ((← get).spendersOf outpoint)

def addToSpends (wtxid : Uint256) : WalletM κ Unit := do
  let thisTx ← entryAt wtxid .assertion
  if thisTx.isCoinBase then pure ()
  else thisTx.tx.vin.forM fun txin => addSpend txin.prevout wtxid

end

section

variable (s : CWallet κ)

def getDebitIn (txin : CTxIn) (filter : IsMineFilter) : CAmount :=
  match s.mapWallet[txin.prevout.hash]? with
  | none => 0
  | some prev =>
    match prev.tx.vout[txin.prevout.n]? with
    | none => 0
    | some txout => if ctx.isMine s.keys txout.scriptPubKey &&& filter ≠ 0 then txout.nValue else 0

def sumInRange (what : String) : CAmount → List CAmount → Except WalletError CAmount
  | n, [] => pure n
  | n, v :: vs =>
    let n := wrap64 (n + v)
    if !moneyRange n then throw (.runtimeError what) else sumInRange what n vs

variable (tx : CTransaction)

def getDebit (filter : IsMineFilter) : Except WalletError CAmount :=
  sumInRange "GetDebit: value out of range" 0 (tx.vin.map fun txin => s.getDebitIn ctx txin filter)

def isMine : Bool :=
  tx.vout.any fun txout => ctx.isMine s.keys txout.scriptPubKey ≠ 0

def isFromMe : Except WalletError Bool := do
  pure <| decide (0 < (← s.getDebit ctx tx ISMINE_ALL))

end

section

def lift (x : Except WalletError α) : WalletM κ α := fun s =>
  match x with
  | .ok a => .ok a s
  | .error e => .error e s

def markInputsDirty (tx : CTransaction) : WalletM κ Unit :=
  tx.vin.forM fun txin => modifyTx txin.prevout.hash CWalletTx.markDirty

def insertNew (wtxIn : CWalletTx) : WalletM κ Unit := do
  let s ← get
  let wtx := { wtxIn.markDirty with
    nTimeReceived := (node.adjustedTime % 2 ^ 32).toNat
    nOrderPos := s.nOrderPosNext }
  let wtx := { wtx with nTimeSmart := ctx.computeTimeSmart s node wtx }
  set { s with
    mapWallet := s.mapWallet.insert wtx.getHash wtx
    nOrderPosNext := s.nOrderPosNext + 1 }
  addToSpends wtx.getHash

def writeIf (c : Bool) (hash : Uint256) (r : TxRecord) : WalletM κ Bool :=
  if c then writeTx hash r else pure true

-- Writes a transaction if it has changed, and clears what is cached of it. Whether that succeeded.
def storeTx (hash : Uint256) (fChanged : Bool) : WalletM κ Bool := do
  let wtx ← entryAt hash .outOfRange
  let stored ← writeIf fChanged hash wtx.toTxRecord
  if !stored then pure false else
  modifyTx hash CWalletTx.markDirty
  pure true

def addToWallet (wtxIn : CWalletTx) : WalletM κ Bool := do
  let hash := wtxIn.getHash
  match (← get).mapWallet[hash]? with
  | none => do
    insertNew ctx node wtxIn
    storeTx hash true
  | some wtx => do
    modifyTx hash fun _ => (wtxIn.merge wtx.markDirty).1
    storeTx hash (wtxIn.merge wtx.markDirty).2

-- Stores a status and drops the cached amounts that depend on it. Returns its spenders.
def changeStatus (now : Uint256) (wtx : CWalletTx) : WalletM κ (List Uint256) := do
  modifyTx now fun _ => wtx.markDirty
  let _ ← writeTx now wtx.toTxRecord
  let next := (← get).childrenOf now
  markInputsDirty wtx.tx
  pure next

def spread (hashTx : Uint256) (visit : Uint256 → WalletM κ (List Uint256)) : WalletM κ Unit := do
  let fuel := (← get).mapTxSpends.length + 1
  let _ ← Worklist.run visit fuel (Std.TreeSet.ofList [hashTx] Uint256.compare) ∅
  pure ()

def visitAbandoned (now : Uint256) : WalletM κ (List Uint256) := do
  let wtx ← entryAt now .assertion
  let currentconfirm := wtx.getDepthInMainChain node
  assertThat (currentconfirm ≤ 0)
  if currentconfirm = 0 && !wtx.isAbandoned then do
    assertThat (!wtx.fInMempool)
    changeStatus now { wtx.setAbandoned with nIndex := -1 }
  else pure []

-- Whether the transaction could be abandoned, which it cannot if it is confirmed or in the pool.
def abandonTransaction (hashTx : Uint256) : WalletM κ Bool := do
  let origtx ← entryAt hashTx .assertion
  if origtx.getDepthInMainChain node ≠ 0 || origtx.fInMempool then pure false else
  spread hashTx (visitAbandoned node)
  pure true

def visitConflicted (conflictconfirms : Int) (hashBlock now : Uint256) :
    WalletM κ (List Uint256) := do
  let wtx ← entryAt now .assertion
  if conflictconfirms < wtx.getDepthInMainChain node then
    changeStatus now { wtx with hashBlock := hashBlock, nIndex := -1 }
  else pure []

-- Nothing is done if the block is not in the active chain.
def markConflicted (hashBlock hashTx : Uint256) : WalletM κ Unit := do
  let pindex := node.lookupBlockIndex hashBlock
  let conflictconfirms := if node.contains pindex then -node.confirmations pindex else 0
  if conflictconfirms ≥ 0 then pure () else
  spread hashTx (visitConflicted node conflictconfirms hashBlock)

variable (ptx : CTransaction)

-- The other transactions in the wallet that spend an input of one in a block conflict with the block.
def markConflicts (pindex : CBlockIndex) : WalletM κ Unit :=
  if pindex = [] then pure () else
  ptx.vin.forM fun txin => do
    ((← get).spendersOf txin.prevout).forM fun hash =>
      if hash ≠ ptx.getHash then markConflicted node pindex.getBlockHash hash else pure ()

def involvesMe (s : CWallet κ) (tx : CTransaction) : Except WalletError Bool :=
  if s.mapWallet.contains tx.getHash || s.isMine ctx tx then pure true else s.isFromMe ctx tx

-- A transaction as notified. `pIndex` is empty if it is in no block.
def notified (pIndex : CBlockIndex) (posInBlock : Int) : CWalletTx :=
  if pIndex = [] then { tx := ptx }
  else { tx := ptx, hashBlock := pIndex.getBlockHash, nIndex := posInBlock }

def addToWalletIfInvolvingMe (pIndex : CBlockIndex) (posInBlock : Int)
    (fUpdate : Bool) : WalletM κ Bool := do
  markConflicts node ptx pIndex
  let s ← get
  if s.mapWallet.contains ptx.getHash && !fUpdate then pure false else
  if !(← lift (s.involvesMe ctx ptx)) then pure false else
  modify fun s => { s with keys := ctx.useKeys s.keys ptx }
  addToWallet ctx node (notified ptx pIndex posInBlock)

-- A notification about a transaction. One that is no longer in a block or in the pool is abandoned.
def syncTransaction (pindex : CBlockIndex := []) (posInBlock : Int := 0)
    (update_tx : Bool := true) : WalletM κ Unit := do
  if pindex = [] && posInBlock = 0 then modifyTx ptx.getHash CWalletTx.setAbandoned else
  if ← addToWalletIfInvolvingMe ctx node ptx pindex posInBlock update_tx then markInputsDirty ptx

end

section

def transactionAddedToMempool (ptx : CTransaction) : WalletM κ Unit := do
  syncTransaction ctx node ptx [] 1
  modifyTx ptx.getHash fun wtx => { wtx with fInMempool := true }

def transactionRemovedFromMempool (ptx : CTransaction) : WalletM κ Unit :=
  modifyTx ptx.getHash fun wtx => { wtx with fInMempool := false }

def isOrphan (wtx : CWalletTx) : Bool :=
  wtx.getDepthInMainChain node ≤ 0 && !wtx.isAbandoned && !wtx.fInMempool &&
    node.adjustedTime - wtx.nTimeReceived > 15 * 60

def cleanOrphans : WalletM κ Unit :=
  modify fun s => { s with
    mapWallet := s.mapWallet.map fun _ wtx => if isOrphan node wtx then wtx.setAbandoned else wtx }

-- Whether the clean-up is due. `last` is the time of the last one, for all wallets.
def cleanUpDue (fInitialBlockDownload : Bool) (last : Option Int) : Bool :=
  !fInitialBlockDownload && node.adjustedTime - last.getD node.adjustedTime > 60

def blockConnected (vtx : List CTransaction) (pindex : CBlockIndex)
    (vtxConflicted : List CTransaction) (fInitialBlockDownload : Bool) (last : Option Int) :
    WalletM κ Unit := do
  vtxConflicted.forM fun ptx => do
    syncTransaction ctx node ptx
    transactionRemovedFromMempool ptx
  vtx.zipIdx.forM fun (ptx, i) => do
    syncTransaction ctx node ptx pindex i
    transactionRemovedFromMempool ptx
  if cleanUpDue node fInitialBlockDownload last then cleanOrphans node

def blockDisconnected (vtx : List CTransaction) : WalletM κ Unit :=
  vtx.forM fun ptx => syncTransaction ctx node ptx

end

-- The pool's answer is only asked for if transactions are broadcast.
def commitTransaction (tx : CTransaction) (mapValue orderForm : List (String × String))
    (fromAccount : String) (fBroadcastTransactions accepted : Bool) : WalletM κ Unit := do
  let wtxNew : CWalletTx :=
    { tx := tx, mapValue := mapValue, vOrderForm := orderForm, strFromAccount := fromAccount,
      fTimeReceivedIsTxTime := 1, fFromMe := true }
  let _ ← addToWallet ctx node wtxNew
  tx.vin.forM fun txin => do
    let _ ← entryAt txin.prevout.hash .outOfRange
    modifyTx txin.prevout.hash CWalletTx.markDirty
  let _ ← entryAt tx.getHash .outOfRange
  if fBroadcastTransactions then
    modifyTx tx.getHash fun wtx => { wtx with fInMempool := wtx.fInMempool || accepted }

end CWallet

end Taler
