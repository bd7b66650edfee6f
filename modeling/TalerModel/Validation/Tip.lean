import TalerModel.Coins.Stack
import TalerModel.Validation.DisconnectBlock

namespace Taler

-- An order in which the entries of each cache are visited when it is flushed.
structure Enumeration where
  order : CoinsLayer → List COutPoint
  visits : ∀ layer, CoinsStack.Visits (order layer) layer

def Enumeration.entries (enumeration : Enumeration) (view : CCoinsViewCache) :
    List (COutPoint × CCoinsCacheEntry) :=
  CoinsStack.CoinsLayer.entries view.layer (enumeration.order view.layer)

-- The stores at the tip of the active chain. The view is `pcoinsTip`, whose base is the database.
structure TipState extends ConnectState where
  chainActive : CBlockIndex

abbrev Tip := EStateM Failure TipState

namespace Tip

def check (c : Check α) : Tip α := fun s =>
  match c with
  | .ok a => .ok a s
  | .error e => .error e s

-- Runs an operation on a new cache over `pcoinsTip`. Its other effects stay even if it fails.
def scratch (x : Connect Unit) : Tip CCoinsViewCache := fun s =>
  match x { s.toConnectState with view := .onto s.view.toView } with
  | .ok () s' => .ok s'.view { s with toConnectState := { s' with view := s.view } }
  | .error e s' => .error e { s with toConnectState := { s' with view := s.view } }

def flushView (enumeration : Enumeration) (view : CCoinsViewCache) : Tip Unit := do
  let pcoinsTip := (← get).view
  let pcoinsTip ← check (pcoinsTip.batchWrite (enumeration.entries view) view.hashBlock)
  modify fun s => { s with view := pcoinsTip }

def setTip (pindex : CBlockIndex) : Tip Unit :=
  modify fun s => { s with chainActive := pindex }

end Tip

namespace ConnectContext

variable [Crypto] (ctx : ConnectContext) (enumeration : Enumeration)

-- The flush that may follow, the memory pool and the notifications are left out.
def connectTip (pindexNew : CBlockIndex) (pblock : Option CBlock) : Tip Unit := do
  let s ← get
  Tip.check <| Check.rejectIf (pindexNew.tail ≠ s.chainActive) (Check.fault .assertion)
  match pblock.or (ctx.readBlockFromDisk pindexNew) with
  | none => Tip.check (Check.stateError "Failed to read block")
  | some blockConnecting =>
    let view ← Tip.scratch <|
      (ctx.withTip s.chainActive s.view.toView).connectBlock blockConnecting pindexNew false
    Tip.flushView enumeration view
    Tip.setTip pindexNew

-- A block has to be disconnected without a mismatch.
def disconnectClean (block : CBlock) (pindexDelete : CBlockIndex) : Connect Unit := do
  let view := (← get).view
  Connect.check <| Check.rejectIf (view.getBestBlock ≠ pindexDelete.getBlockHash)
    (Check.fault .assertion)
  match ← ctx.disconnectBlock block pindexDelete with
  | .ok => pure ()
  | _ => Connect.check Check.plainError

def disconnectTip : Tip Unit := do
  let pindexDelete := (← get).chainActive
  Tip.check <| Check.rejectIf (pindexDelete = []) (Check.fault .assertion)
  match ctx.readBlockFromDisk pindexDelete with
  | none => Tip.check (Check.stateError "Failed to read block")
  | some block =>
    let view ← Tip.scratch (ctx.disconnectClean block pindexDelete)
    Tip.flushView enumeration view
    Tip.setTip pindexDelete.tail

def flushed (pcoinsTip : CCoinsViewCache) : CCoinsViewCache where
  base := pcoinsTip.base.batchWrite (enumeration.entries pcoinsTip) pcoinsTip.hashBlock
  cacheCoins := ∅
  hashBlock := pcoinsTip.hashBlock

-- The address index is written before the coins, which only a full flush writes.
def flushStateToDisk (fDoFullFlush : Bool) (s : TipState) : TipState :=
  let addressIndex := if ctx.fAddressIndex then s.addressIndex.flush else s.addressIndex
  if fDoFullFlush && s.view.getBestBlock ≠ 0 then
    { s with addressIndex := addressIndex, view := flushed enumeration s.view }
  else { s with addressIndex := addressIndex }

end ConnectContext

inductive TipAction
  | connectTip (pindexNew : CBlockIndex) (pblock : Option CBlock)
  | disconnectTip
  | flushStateToDisk (fDoFullFlush : Bool)

-- An action with what is around it, which may be different for the next one.
structure TipCall where
  ctx : ConnectContext
  enumeration : Enumeration
  action : TipAction

variable [Crypto]

def TipCall.step (call : TipCall) : Tip Unit :=
  match call.action with
  | .connectTip pindexNew pblock => call.ctx.connectTip call.enumeration pindexNew pblock
  | .disconnectTip => call.ctx.disconnectTip call.enumeration
  | .flushStateToDisk fDoFullFlush =>
    modify (call.ctx.flushStateToDisk call.enumeration fDoFullFlush)

def TipState.run : List TipCall → Tip Unit
  | [] => pure ()
  | call :: calls => do
    call.step
    run calls

end Taler
