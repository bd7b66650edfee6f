import TalerModel.Wallet.Sync

namespace Taler

namespace CMerkleTx

def getBlocksToMaturity (node : NodeView) (wtx : CMerkleTx) : Except WalletError Int :=
  if !wtx.isCoinBase then pure 0 else
  let chain_depth := wtx.getDepthInMainChain node
  if chain_depth < 0 then throw .assertion else
  pure <| max 0 (coinMaturity node.params node.height.toNat + 1 - chain_depth)

def isImmature (node : NodeView) (wtx : CMerkleTx) : Except WalletError Bool := do
  pure <| wtx.isCoinBase && decide (0 < (← wtx.getBlocksToMaturity node))

end CMerkleTx

structure BalanceInfo where
  Total : CAmount := 0
  Unconfirmed : CAmount := 0
  Immature : CAmount := 0
  TotalWatchOnly : CAmount := 0
  UnconfirmedWatchOnly : CAmount := 0
  ImmatureWatchOnly : CAmount := 0
  deriving DecidableEq, Repr

-- A cached amount: where it is kept, and what it is an amount of.
structure Cache where
  read : CWalletTx → Option CAmount
  store : CAmount → CWalletTx → CWalletTx

namespace Cache

def debit : Cache where
  read := (·.nDebitCached)
  store n wtx := { wtx with nDebitCached := some n }

def watchDebit : Cache where
  read := (·.nWatchDebitCached)
  store n wtx := { wtx with nWatchDebitCached := some n }

def immatureCredit : Cache where
  read := (·.nImmatureCreditCached)
  store n wtx := { wtx with nImmatureCreditCached := some n }

def immatureWatchCredit : Cache where
  read := (·.nImmatureWatchCreditCached)
  store n wtx := { wtx with nImmatureWatchCreditCached := some n }

def availableCredit : Cache where
  read := (·.nAvailableCreditCached)
  store n wtx := { wtx with nAvailableCreditCached := some n }

def availableWatchCredit : Cache where
  read := (·.nAvailableWatchCreditCached)
  store n wtx := { wtx with nAvailableWatchCreditCached := some n }

end Cache

namespace CWallet

variable {κ : Type} (ctx : WalletContext κ) (node : NodeView)

section

variable (s : CWallet κ)

def getCreditOut (txout : CTxOut) (filter : IsMineFilter) : Except WalletError CAmount :=
  if !moneyRange txout.nValue then throw (.runtimeError "GetCredit: value out of range") else
  pure (if ctx.isMine s.keys txout.scriptPubKey &&& filter ≠ 0 then txout.nValue else 0)

def sumCredit (s : CWallet κ) (filter : IsMineFilter) (what : String) :
    CAmount → List CTxOut → Except WalletError CAmount
  | nCredit, [] => pure nCredit
  | nCredit, txout :: vout => do
    let nCredit := wrap64 (nCredit + (← s.getCreditOut ctx txout filter))
    if !moneyRange nCredit then throw (.runtimeError what) else s.sumCredit filter what nCredit vout

variable (tx : CTransaction)

def getCredit (filter : IsMineFilter) : Except WalletError CAmount :=
  s.sumCredit ctx filter "GetCredit: value out of range" 0 tx.vout

def unspentOutputs : List CTxOut :=
  (tx.vout.zipIdx.filter fun (_, i) => !s.isSpent node tx.getHash i).map Prod.fst

def unspentCredit (filter : IsMineFilter) : Except WalletError CAmount :=
  s.sumCredit ctx filter "GetAvailableCredit : value out of range" 0 (s.unspentOutputs node tx)

end

section

-- What is cached of a transaction, or else what is computed, which is cached then.
def cached (c : Cache) (compute : CWallet κ → CTransaction → Except WalletError CAmount)
    (hash : Uint256) : WalletM κ CAmount := do
  let wtx ← entryAt hash .outOfRange
  match c.read wtx with
  | some n => pure n
  | none => do
    let n ← lift (compute (← get) wtx.tx)
    modifyTx hash (c.store n)
    pure n

def amountIf (c : Bool) (x : WalletM κ CAmount) : WalletM κ CAmount :=
  if c then x else pure 0

def getTxDebit (hash : Uint256) (filter : IsMineFilter) : WalletM κ CAmount := do
  let wtx ← entryAt hash .outOfRange
  if wtx.tx.vin.isEmpty then pure 0 else
  let debit ← amountIf (filter &&& ISMINE_SPENDABLE ≠ 0)
    (cached .debit (fun s tx => s.getDebit ctx tx ISMINE_SPENDABLE) hash)
  let watchDebit ← amountIf (filter &&& ISMINE_WATCH_ONLY ≠ 0)
    (cached .watchDebit (fun s tx => s.getDebit ctx tx ISMINE_WATCH_ONLY) hash)
  pure (wrap64 (debit + watchDebit))

def getAvailableCredit (hash : Uint256) (filter : IsMineFilter) : WalletM κ CAmount := do
  let wtx ← entryAt hash .outOfRange
  if ← lift (wtx.isImmature node) then pure 0 else
  if filter = ISMINE_SPENDABLE then
    cached .availableCredit (fun s tx => s.unspentCredit ctx node tx filter) hash
  else if filter = ISMINE_WATCH_ONLY then
    cached .availableWatchCredit (fun s tx => s.unspentCredit ctx node tx filter) hash
  else lift ((← get).unspentCredit ctx node wtx.tx filter)

def getImmature (c : Cache) (filter : IsMineFilter) (hash : Uint256) : WalletM κ CAmount := do
  let wtx ← entryAt hash .outOfRange
  if (← lift (wtx.isImmature node)) && wtx.getDepthInMainChain node > 0 then
    cached c (fun s tx => s.getCredit ctx tx filter) hash
  else pure 0

def getImmatureCredit : Uint256 → WalletM κ CAmount :=
  getImmature ctx node .immatureCredit ISMINE_SPENDABLE

def getImmatureWatchOnlyCredit : Uint256 → WalletM κ CAmount :=
  getImmature ctx node .immatureWatchCredit ISMINE_WATCH_ONLY

end

-- Whether all inputs spend the wallet's own outputs. An index without an output is an error.
def spendsOwn (s : CWallet κ) : List CTxIn → Except WalletError Bool
  | [] => pure true
  | txin :: vin =>
    match s.mapWallet[txin.prevout.hash]? with
    | none => pure false
    | some parent =>
      match parent.tx.vout[txin.prevout.n]? with
      | none => throw .outOfRange
      | some parentOut =>
        if ctx.isMine s.keys parentOut.scriptPubKey ≠ ISMINE_SPENDABLE then pure false
        else s.spendsOwn vin

def isTrusted (hash : Uint256) : WalletM κ Bool := do
  let wtx ← entryAt hash .outOfRange
  if !node.checkFinalTx wtx.tx then pure false else
  let nDepth := wtx.getDepthInMainChain node
  if nDepth ≥ 1 then pure true else
  if nDepth < 0 then pure false else
  if !ctx.spendZeroConfChange then pure false else
  if (← getTxDebit ctx hash ISMINE_ALL) ≤ 0 then pure false else
  if !wtx.fInMempool then pure false else
  lift ((← get).spendsOwn ctx wtx.tx.vin)

def addBalance (min_depth : Int) (ret : BalanceInfo) (hash : Uint256) : WalletM κ BalanceInfo := do
  let isTrusted ← isTrusted ctx node hash
  let pcoin ← entryAt hash .outOfRange
  let depth := pcoin.getDepthInMainChain node
  let confirmed := isTrusted && depth ≥ min_depth
  let pending := !isTrusted && depth = 0 && pcoin.fInMempool
  let total ← amountIf confirmed (getAvailableCredit ctx node hash ISMINE_SPENDABLE)
  let unconfirmed ← amountIf pending (getAvailableCredit ctx node hash ISMINE_SPENDABLE)
  let immature ← getImmatureCredit ctx node hash
  let totalWatch ← amountIf confirmed (getAvailableCredit ctx node hash ISMINE_WATCH_ONLY)
  let unconfirmedWatch ← amountIf pending (getAvailableCredit ctx node hash ISMINE_WATCH_ONLY)
  let immatureWatch ← getImmatureWatchOnlyCredit ctx node hash
  pure
    { Total := wrap64 (ret.Total + total)
      Unconfirmed := wrap64 (ret.Unconfirmed + unconfirmed)
      Immature := wrap64 (ret.Immature + immature)
      TotalWatchOnly := wrap64 (ret.TotalWatchOnly + totalWatch)
      UnconfirmedWatchOnly := wrap64 (ret.UnconfirmedWatchOnly + unconfirmedWatch)
      ImmatureWatchOnly := wrap64 (ret.ImmatureWatchOnly + immatureWatch) }

def getBalance (min_depth : Int) : WalletM κ BalanceInfo := do
  (← get).mapWallet.keys.foldlM (addBalance ctx node min_depth) {}

def markDirty (s : CWallet κ) : CWallet κ :=
  { s with mapWallet := s.mapWallet.map fun _ wtx => wtx.markDirty }

end CWallet

end Taler
