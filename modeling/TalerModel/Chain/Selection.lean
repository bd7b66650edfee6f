import TalerModel.Chain.State

namespace Taler.ChainState

variable {β : Type} [DecidableEq β] {proof : β → Nat} (verdict : List β → List β → Verdict)

-- The first entry from `pindexTest` down to the active chain that is invalid or without data.
def firstUnusable (s : ChainState proof) : List β → Option (Option (List β))
  | [] => some none
  | b :: pprev =>
    let pindexTest := b :: pprev
    if s.contains pindexTest then some none else
    if (s.entry pindexTest).nChainTx = 0 && nHeight pindexTest ≠ 0 then none else
    if s.failed pindexTest || !(s.entry pindexTest).haveData then some (some pindexTest)
    else s.firstUnusable pprev

def removeChain (s : ChainState proof) (pindexTest : List β) : List β → ChainState proof
  | [] => s
  | b :: pprev =>
    let pindexFailed := b :: pprev
    if pindexFailed = pindexTest then s.eraseCandidate verdict pindexTest else
    let e := s.entry pindexFailed
    let s :=
      if s.failed pindexTest then s.setEntry pindexFailed { e with failedChild := true }
      else { s with unlinked := s.unlinked ++ [(pprev, pindexFailed)] }
    removeChain (s.eraseCandidate verdict pindexFailed) pindexTest pprev

-- The best candidate, after removing the unusable ones, of which there are finitely many.
def findMostWorkChain (s : ChainState proof) : Option (List β × ChainState proof) :=
  go (s.candidates.size + 1) s
where
  go : Nat → ChainState proof → Option (List β × ChainState proof)
    | 0, _ => none
    | fuel + 1, s =>
      match s.candidates.max? with
      | none => some ([], s)
      | some pindexNew =>
        match s.firstUnusable pindexNew with
        | none => none
        | some none => some (pindexNew, s)
        | some (some pindexTest) => go fuel (s.removeChain verdict pindexTest pindexNew)

def pruneBlockIndexCandidates (s : ChainState proof) : Option (ChainState proof) :=
  let s := { s with candidates := s.candidates.pruneBelow (nChainWork proof s.tip) }
  if s.candidates.size = 0 then none else some s

-- Disconnects the tip while `again` holds, and whether that succeeded: genesis has no undo data.
def disconnectWhile (again : List β → Bool) : List β → List β × Bool
  | [] => ([], true)
  | [g] => ([g], !again [g])
  | b :: pprev => if again (b :: pprev) then disconnectWhile again pprev else (b :: pprev, true)

def invalidBlockFound (s : ChainState proof) (pindex : List β) : ChainState proof :=
  let s := s.setEntry pindex { s.entry pindex with failedValid := true }
  let s := { s with failedBlocks := s.failedBlocks.insert pindex }
  s.eraseCandidate verdict pindex

def connectTip (s : ChainState proof) (pindexNew : List β) : ChainState proof :=
  let s := s.setEntry pindexNew ((s.entry pindexNew).raiseValidity BLOCK_VALID_SCRIPTS)
  { s with tip := pindexNew }

-- The entries from `pindexFork` (exclusive) up to `pindexMostWork`, lowest first.
def pathTo (pindexFork : List β) : List β → List (List β)
  | [] => []
  | b :: pprev => if b :: pprev = pindexFork then [] else pathTo pindexFork pprev ++ [b :: pprev]

inductive StepResult
  | done
  | invalidFound
  | systemError
  deriving DecidableEq

-- Connects a path until a block is invalid or the tip is better. Batches of 32 do not matter.
def connectPath (pindexOldTip pindexMostWork : List β) :
    List (List β) → ChainState proof → Option (StepResult × ChainState proof)
  | [], s => some (.done, s)
  | pindexConnect :: path, s =>
    if pindexConnect.tail ≠ s.tip then none else
    match verdict pindexMostWork pindexConnect with
    | .abort => some (.systemError, s)
    | .invalid => some (.invalidFound, s.invalidBlockFound verdict pindexConnect)
    | .accept =>
      match (s.connectTip pindexConnect).pruneBlockIndexCandidates with
      | none => none
      | some s =>
        if pindexOldTip = [] || nChainWork proof s.tip > nChainWork proof pindexOldTip then
          some (.done, s)
        else connectPath pindexOldTip pindexMostWork path s

def activateBestChainStep (s : ChainState proof) (pindexMostWork : List β) :
    Option (StepResult × ChainState proof) :=
  let pindexFork := s.findFork pindexMostWork
  let (tip, success) := disconnectWhile (· ≠ pindexFork) s.tip
  if !success then some (.systemError, { s with tip := tip }) else
  connectPath verdict s.tip pindexMostWork (pathTo pindexFork pindexMostWork) { s with tip := tip }

structure Activation (proof : β → Nat) where
  chain : ChainState proof
  pindexMostWork : List β := []
  pindexNewTip : List β := []
  blocksConnected : Bool := false

-- How a loop of `ActivateBestChain` ends: it falls through, or the function returns `false`.
inductive Progress (proof : β → Nat)
  | proceed (a : Activation proof)
  | failure (s : ChainState proof)

def ensureMostWork (a : Activation proof) : Option (Activation proof) :=
  if a.pindexMostWork ≠ [] then some a else
  (a.chain.findMostWorkChain verdict).map fun (pindexMostWork, chain) =>
    { a with chain := chain, pindexMostWork := pindexMostWork }

def Activation.afterStep (a : Activation proof) (result : StepResult) (s : ChainState proof) :
    Activation proof where
  chain := s
  pindexMostWork := if result = .invalidFound then [] else a.pindexMostWork
  pindexNewTip := s.tip
  blocksConnected := true

def activateInner (startingTip : List β) : Nat → Activation proof → Option (Progress proof)
  | 0, _ => none
  | fuel + 1, a =>
    match ensureMostWork verdict a with
    | none => none
    | some a =>
      if a.pindexMostWork = [] || a.pindexMostWork = a.chain.tip then some (.proceed a) else
      match a.chain.activateBestChainStep verdict a.pindexMostWork with
      | none => none
      | some (.systemError, s) => some (.failure s)
      | some (result, s) =>
        let a := a.afterStep result s
        if s.tip = [] ||
            (startingTip ≠ [] && nChainWork proof s.tip < nChainWork proof startingTip) then
          activateInner startingTip fuel a
        else some (.proceed a)

def activateOuter : Nat → Activation proof → Option (Bool × ChainState proof)
  | 0, _ => none
  | fuel + 1, a =>
    match activateInner verdict a.chain.tip (fuel + 1) { a with blocksConnected := false } with
    | none => none
    | some (.failure s) => some (false, s)
    | some (.proceed a) =>
      if !a.blocksConnected then some (true, a.chain) else
      if a.pindexNewTip ≠ a.pindexMostWork then activateOuter fuel a
      else some (true, a.chain)

-- `ActivateBestChain` without a shutdown request. It need not end: `none` if it has not returned.
def activateBestChain (fuel : Nat) (s : ChainState proof) : Option (Bool × ChainState proof) :=
  activateOuter verdict fuel { chain := s }

-- Takes whichever block has the work of `pindex` out of the set, and may put `pindex` in its place.
def replaceCandidate (s : ChainState proof) (inserted : Bool) (pindex : List β) :
    ChainState proof :=
  let clash := s.candidates.elems.filter fun q =>
    q ≠ pindex && nChainWork proof q = nChainWork proof pindex
  let candidates := s.candidates.erase pindex
  { s with
    candidates := if inserted then candidates.insert pindex else candidates
    lost := s.lost || (clash.any (s.live verdict ·) && !(inserted && s.good verdict pindex)) }

def preciousBlock (fuel : Nat) (s : ChainState proof) (pindex : List β) :
    Option (Bool × ChainState proof) :=
  if nChainWork proof pindex < nChainWork proof s.tip then some (true, s) else
  let inserted := (s.entry pindex).isValid BLOCK_VALID_TRANSACTIONS && (s.entry pindex).nChainTx ≠ 0
  let s := s.replaceCandidate verdict inserted pindex
  if inserted then
    match s.pruneBlockIndexCandidates with
    | none => none
    | some s => s.activateBestChain verdict fuel
  else s.activateBestChain verdict fuel

-- Marks the entries from `walk` down to `pindex` (exclusive) as children of an invalid block.
def markInvalid (s : ChainState proof) (pindex : List β) : List β → ChainState proof
  | [] => s
  | b :: pprev =>
    let walk := b :: pprev
    if walk = pindex then s else
    let s := s.setEntry walk { s.entry walk with failedChild := true }
    markInvalid { s with candidates := s.candidates.erase walk } pindex pprev

def readdCandidate (s : ChainState proof) (pindex : List β) : ChainState proof :=
  let e := s.entry pindex
  let again :=
    e.isValid BLOCK_VALID_TRANSACTIONS && e.nChainTx ≠ 0 &&
      nChainWork proof s.tip ≤ nChainWork proof pindex
  s.insertCandidateIf verdict again pindex

def markFailed (s : ChainState proof) (pindex : List β) : ChainState proof :=
  { s.setEntry pindex { s.entry pindex with failedValid := true } with
    candidates := s.candidates.erase pindex
    failedBlocks := s.failedBlocks.insert pindex }

-- `order` is the order in which `mapBlockIndex` is iterated.
def invalidateBlock (s : ChainState proof) (order : List (List β)) (pindex : List β) :
    Bool × ChainState proof :=
  let (tip, success) := disconnectWhile (pindex.isSuffixOf ·) s.tip
  if !success then (false, { s with tip := tip }) else
  let walk := if s.contains pindex then s.tip else pindex
  let s := (markInvalid { s with tip := tip } pindex walk).markFailed pindex
  (true, order.foldl (readdCandidate verdict) s)

def clearFailed (s : ChainState proof) (pindex : List β) : ChainState proof :=
  { s.setEntry pindex (s.entry pindex).clearFailed with
    failedBlocks := s.failedBlocks.filter (· ≠ pindex) }

def resetDescendant (pindex : List β) (s : ChainState proof) (p : List β) : ChainState proof :=
  if !(s.entry p).isValid BLOCK_VALID_TRANSACTIONS && getAncestor p (nHeight pindex) = pindex then
    let s := s.clearFailed p
    let again :=
      (s.entry p).isValid BLOCK_VALID_TRANSACTIONS && (s.entry p).nChainTx ≠ 0 &&
        nChainWork proof s.tip < nChainWork proof p
    s.insertCandidateIf verdict again p
  else s

def resetAncestors (s : ChainState proof) : List β → ChainState proof
  | [] => s
  | b :: pprev =>
    let pindex := b :: pprev
    resetAncestors (if s.failed pindex then s.clearFailed pindex else s) pprev

def resetBlockFailureFlags (s : ChainState proof) (order : List (List β)) (pindex : List β) :
    ChainState proof :=
  (order.foldl (resetDescendant verdict pindex) s).resetAncestors pindex

end Taler.ChainState
