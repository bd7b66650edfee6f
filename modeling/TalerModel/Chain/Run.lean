import TalerModel.Chain.Arrival

namespace Taler.ChainState

variable {β : Type} [DecidableEq β] {proof : β → Nat}

-- The state right after the genesis block was connected.
def init (proof : β → Nat) (genesis : β) (nTx : Nat) : ChainState proof where
  blocks := [[genesis]]
  entry := Function.update (fun _ => {}) [genesis]
    { nTx := nTx, nChainTx := nTx, validity := BLOCK_VALID_SCRIPTS, haveData := true }
  tip := [genesis]
  candidates := KeyedSet.empty.insert [genesis]
  unlinked := []
  failedBlocks := []
  bestHeader := [genesis]

-- The calls that change the chain state, with the order of iteration where it is not fixed.
inductive Event (β : Type)
  -- A header with a known parent that passes all checks but those that look at failure flags.
  | header (failedOrder : List (List β)) (pindex : List β) (flags : HeaderFlags)
  -- The data of a known block that passes `CheckBlock` and `ContextualCheckBlock`.
  | block (pindex : List β) (nTx : Nat)
  -- The data of a block that fails one of them for good.
  | invalidData (pindex : List β)
  | activate (fuel : Nat)
  | invalidate (order : List (List β)) (pindex : List β)
  | reset (order : List (List β)) (pindex : List β)
  | precious (fuel : Nat) (pindex : List β)
  | restart (order : List (List β))

variable (verdict : List β → List β → Verdict) (s : ChainState proof)

def acceptHeader (failedOrder : List (List β)) (pindex : List β)
    (flags : HeaderFlags) : Option (ChainState proof) :=
  if s.failed pindex.tail then some s else
  match s.failedAncestor failedOrder pindex.tail with
  | none => none
  | some (some s) => some s
  | some none => some (s.addToBlockIndex pindex flags)

-- Whether a call can be made at all.
def Event.Legal : Event β → Prop
  | .header failedOrder pindex _ =>
    pindex ∉ s.blocks ∧ pindex.tail ∈ s.blocks ∧ failedOrder.Perm s.failedBlocks
  | .block pindex nTx =>
    pindex ∈ s.blocks ∧ nTx ≠ 0 ∧ s.failed pindex = false ∧ (s.entry pindex).haveData = false
  | .invalidData pindex =>
    pindex ∈ s.blocks ∧ s.failed pindex = false ∧ (s.entry pindex).haveData = false
  | .activate _ => True
  | .invalidate order pindex => pindex ∈ s.blocks ∧ order.Perm s.blocks
  | .reset order pindex => pindex ∈ s.blocks ∧ order.Perm s.blocks
  | .precious _ pindex => pindex ∈ s.blocks
  | .restart order => order.Perm s.blocks ∧ order.Pairwise (·.length ≤ ·.length)

instance (s : ChainState proof) : (e : Event β) → Decidable (e.Legal s)
  | .header .. | .block .. | .invalidData .. | .invalidate .. | .reset .. | .restart .. =>
    inferInstanceAs (Decidable (_ ∧ _))
  | .activate .. => inferInstanceAs (Decidable True)
  | .precious .. => inferInstanceAs (Decidable (_ ∈ _))

def perform : Event β → Option (ChainState proof)
  | .header failedOrder pindex flags => s.acceptHeader failedOrder pindex flags
  | .block pindex nTx => some (s.receivedBlockTransactions verdict pindex nTx)
  | .invalidData pindex => some (s.setEntry pindex { s.entry pindex with failedValid := true })
  | .activate fuel => (s.activateBestChain verdict fuel).map Prod.snd
  | .invalidate order pindex => some (s.invalidateBlock verdict order pindex).2
  | .reset order pindex => some (s.resetBlockFailureFlags verdict order pindex)
  | .precious fuel pindex => (s.preciousBlock verdict fuel pindex).map Prod.snd
  | .restart order => s.restart verdict order

def step (e : Event β) : Option (ChainState proof) :=
  if e.Legal s then s.perform verdict e else none

def run (events : List (Event β)) (s : ChainState proof) : Option (ChainState proof) :=
  events.foldlM (step verdict) s

end Taler.ChainState
