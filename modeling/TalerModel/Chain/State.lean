import TalerModel.Chain.BlockIndex
import TalerModel.Library.KeyedSet

namespace Taler

def BLOCK_VALID_TREE : Nat := 2
def BLOCK_VALID_TRANSACTIONS : Nat := 3
def BLOCK_VALID_SCRIPTS : Nat := 5

-- The part of a `CBlockIndex` that changes: the transaction counts and the bits of `nStatus`.
structure IndexEntry where
  nTx : Nat := 0
  nChainTx : Nat := 0
  validity : Nat := 0
  haveData : Bool := false
  haveUndo : Bool := false
  failedValid : Bool := false
  failedChild : Bool := false
  stakeModifier : Bool := false
  newFormat : Bool := false
  deriving DecidableEq, Repr

namespace IndexEntry

variable (e : IndexEntry)

def failed : Bool :=
  e.failedValid || e.failedChild

def isValid (nUpTo : Nat) : Bool :=
  !e.failed && nUpTo ≤ e.validity

def raiseValidity (nUpTo : Nat) : IndexEntry :=
  if e.failed then e else { e with validity := max e.validity nUpTo }

def clearFailed : IndexEntry :=
  { e with failedValid := false, failedChild := false }

end IndexEntry

-- Connecting a block accepts it, finds that it breaks a consensus rule, or meets a system error.
inductive Verdict
  | accept
  | invalid
  | abort
  deriving DecidableEq, Repr

-- The chain state, generic in the data `β` of an entry; `proof` is the work of a single block.
structure ChainState {β : Type} (proof : β → Nat) where
  blocks : List (List β)
  entry : List β → IndexEntry
  tip : List β
  candidates : KeyedSet (nChainWork proof)
  unlinked : List (List β × List β)
  failedBlocks : List (List β)
  bestHeader : List β
  -- Not in the source: a needed block was dropped, or the tip lost its place to one of equal work.
  lost : Bool := false
  displaced : Bool := false

namespace ChainState

variable {β : Type} [DecidableEq β] {proof : β → Nat} (s : ChainState proof)

def setEntry (pindex : List β) (e : IndexEntry) : ChainState proof :=
  { s with entry := Function.update s.entry pindex e }

def contains (pindex : List β) : Bool :=
  pindex ≠ [] && pindex.isSuffixOf s.tip

def findFork (s : ChainState proof) : List β → List β
  | [] => []
  | b :: pprev => if s.contains (b :: pprev) then b :: pprev else s.findFork pprev

def failed (pindex : List β) : Bool :=
  (s.entry pindex).failed

variable (verdict : List β → List β → Verdict)

-- Neither the block nor an ancestor is rejected when connected. Genesis always is connected.
def connectable (pindex : List β) : Bool :=
  pindex.tails.all fun p => p.tail = [] || verdict p p = .accept

variable (s : ChainState proof)

def live (pindex : List β) : Bool :=
  !s.failed pindex && (s.entry pindex).nChainTx ≠ 0 && connectable verdict pindex

def good (pindex : List β) : Bool :=
  pindex.tails.all (fun p => p = [] || (!s.failed p && (s.entry p).nChainTx ≠ 0)) &&
    connectable verdict pindex

def insertCandidate (pindex : List β) : ChainState proof :=
  let clash := s.candidates.elems.filter fun q =>
    q ≠ pindex && nChainWork proof q = nChainWork proof pindex
  { s with
    candidates := s.candidates.insert pindex
    lost := s.lost || (s.live verdict pindex && clash.any (!s.good verdict ·))
    displaced := s.displaced || (pindex = s.tip && !clash.isEmpty) }

def insertCandidateIf (c : Bool) (pindex : List β) : ChainState proof :=
  if c then s.insertCandidate verdict pindex else s

def eraseCandidate (pindex : List β) : ChainState proof :=
  let clash := s.candidates.elems.filter fun q =>
    q ≠ pindex && nChainWork proof q = nChainWork proof pindex
  { s with
    candidates := s.candidates.erase pindex
    lost := s.lost || clash.any (s.live verdict ·) }

end ChainState

end Taler
