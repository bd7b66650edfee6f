import TalerModel.Chain.Selection

namespace Taler.ChainState

variable {β : Type} [DecidableEq β] {proof : β → Nat} (verdict : List β → List β → Verdict)

-- The bits of `nStatus` that are taken from the header.
structure HeaderFlags where
  stakeModifier : Bool := false
  newFormat : Bool := false
  deriving DecidableEq

variable (s : ChainState proof)

-- `AddToBlockIndex` for an entry that is not yet known.
def addToBlockIndex (pindexNew : List β) (flags : HeaderFlags) : ChainState proof :=
  let e : IndexEntry :=
    { validity := BLOCK_VALID_TREE, stakeModifier := flags.stakeModifier,
      newFormat := flags.newFormat }
  let bestHeader :=
    if s.bestHeader = [] || nChainWork proof s.bestHeader < nChainWork proof pindexNew then pindexNew
    else s.bestHeader
  { s.setEntry pindexNew e with
    blocks := s.blocks ++ [pindexNew]
    bestHeader := bestHeader }

-- Marks the entries from `walk` down to `failedit` (exclusive), without touching the set.
def markFailedChild (s : ChainState proof) (failedit : List β) : List β → ChainState proof
  | [] => s
  | b :: pprev =>
    let walk := b :: pprev
    if walk = failedit then s else
    markFailedChild (s.setEntry walk { s.entry walk with failedChild := true }) failedit pprev

-- Whether the parent descends from a failed block, iterating `m_failed_blocks` by `order`.
-- The outer `none` is a failed assertion, the inner result the marks if the header is rejected.
def failedAncestor (order : List (List β)) (pindexPrev : List β) :
    Option (Option (ChainState proof)) :=
  if (s.entry pindexPrev).isValid BLOCK_VALID_SCRIPTS then some none else
  match order.find? fun failedit => getAncestor pindexPrev (nHeight failedit) = failedit with
  | none => some none
  | some failedit =>
    if !(s.entry failedit).failedValid then none
    else some (some (s.markFailedChild failedit pindexPrev))

variable (pindex : List β)

def linkedEntry : IndexEntry :=
  let e := s.entry pindex
  { e with nChainTx := (if pindex.tail = [] then 0 else (s.entry pindex.tail).nChainTx) + e.nTx }

def linkBlock : ChainState proof :=
  let s := s.setEntry pindex (s.linkedEntry pindex)
  let candidate := s.tip = [] || nChainWork proof s.tip ≤ nChainWork proof pindex
  s.insertCandidateIf verdict candidate pindex

-- Goes on with the waiting children. All rounds but the first shrink `mapBlocksUnlinked`.
def linkBlocks : Nat → List (List β) → ChainState proof → ChainState proof
  | 0, _, s => s
  | _, [], s => s
  | fuel + 1, pindex :: queue, s =>
    let s := s.linkBlock verdict pindex
    let children := (s.unlinked.filter (·.1 = pindex)).map Prod.snd
    linkBlocks fuel (queue ++ children) { s with unlinked := s.unlinked.filter (·.1 ≠ pindex) }

def receivedBlockTransactions (pindexNew : List β) (nTx : Nat) : ChainState proof :=
  let e := { s.entry pindexNew with nTx := nTx, nChainTx := 0, haveData := true }
  let s := s.setEntry pindexNew (e.raiseValidity BLOCK_VALID_TRANSACTIONS)
  if pindexNew.tail = [] || (s.entry pindexNew.tail).nChainTx ≠ 0 then
    linkBlocks verdict (s.unlinked.length + 1) [pindexNew] s
  else if (s.entry pindexNew.tail).isValid BLOCK_VALID_TREE then
    { s with unlinked := s.unlinked ++ [(pindexNew.tail, pindexNew)] }
  else s

def parentComplete : Bool :=
  pindex.tail = [] || (s.entry pindex.tail).nChainTx ≠ 0

def loadedEntry : IndexEntry :=
  let e := s.entry pindex
  let nChainTx :=
    if e.nTx ≠ 0 && s.parentComplete pindex then (s.linkedEntry pindex).nChainTx else 0
  let failedChild := e.failedChild || (!e.failed && pindex.tail ≠ [] && s.failed pindex.tail)
  { e with nChainTx := nChainTx, failedChild := failedChild }

def countEntry : ChainState proof :=
  let waits := (s.entry pindex).nTx ≠ 0 && !s.parentComplete pindex
  { s.setEntry pindex (s.loadedEntry pindex) with
    unlinked := if waits then s.unlinked ++ [(pindex.tail, pindex)] else s.unlinked }

def loadEntry : ChainState proof :=
  let e := s.loadedEntry pindex
  let candidate := e.isValid BLOCK_VALID_TRANSACTIONS && (e.nChainTx ≠ 0 || pindex.tail = [])
  let better :=
    e.isValid BLOCK_VALID_TREE &&
      (s.bestHeader = [] || nChainWork proof s.bestHeader < nChainWork proof pindex)
  { (s.countEntry pindex).insertCandidateIf verdict candidate pindex with
    bestHeader := if better then pindex else s.bestHeader }

-- The chain state as read back from disk, before `LoadBlockIndex` links the entries.
def reloaded : ChainState proof :=
  { s with
    entry := fun p => { s.entry p with nChainTx := 0 }
    candidates := .empty
    unlinked := []
    failedBlocks := []
    bestHeader := [] }

-- A restart. `order` lists the index by height, and entries of one height in any order.
def restart (order : List (List β)) : Option (ChainState proof) :=
  (order.foldl (loadEntry verdict) s.reloaded).pruneBlockIndexCandidates

end Taler.ChainState
