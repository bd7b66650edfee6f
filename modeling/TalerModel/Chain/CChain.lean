import TalerModel.Chain.CommonAncestor

namespace Taler

variable {α : Type}

-- `GetAncestor` for any `int`. The null pointer is a result.
def findAncestor (pskip : List α → List α) (pindex : List α) (height : Int) : Option (List α) :=
  if height > nHeight pindex || height < 0 then some [] else
  ancestorLoop pskip height.toNat (nHeight pindex) pindex (nHeight pindex)

section

variable [DecidableEq α]

-- Steps down from both entries until they are the same, or one of them is null.
def stepDown : List α → List α → List α × List α
  | a :: pa, b :: pb => if a :: pa = b :: pb then (a :: pa, b :: pb) else stepDown pa pb
  | pa, pb => (pa, pb)

def findLastCommonAncestor (pskip : List α → List α) (pa pb : List α) : Option (List α) := do
  let (pa, pb) ←
    if nHeight pa > nHeight pb then (findAncestor pskip pa (nHeight pb)).map (·, pb)
    else if nHeight pb > nHeight pa then (findAncestor pskip pb (nHeight pa)).map (pa, ·)
    else some (pa, pb)
  let (pa, pb) := stepDown pa pb
  if pa = pb then some pa else none

end

-- A `CChain` is given by its tip `pBestBlock`. The skip pointers belong to the entries.
namespace CChain

section

variable (pskip : List α → List α) (pBestBlock : List α)

def get (height : Int) : Option (List α) :=
  if pBestBlock = [] then some [] else findAncestor pskip pBestBlock height

def genesis : Option (List α) :=
  get pskip pBestBlock 0

def height : Int :=
  if pBestBlock = [] then -1 else nHeight pBestBlock

def next (pindex : List α) : Option (List α) :=
  if pindex = [] then some [] else get pskip pBestBlock (nHeight pindex + 1)

variable [DecidableEq α]

def contains (pindex : List α) : Option Bool :=
  if pindex = [] || pBestBlock = [] then some false else
  (findAncestor pskip pBestBlock (nHeight pindex)).map (decide <| · = pindex)

def lastContained : List α → Option (List α)
  | [] => some []
  | b :: pprev => do
    if ← contains pskip pBestBlock (b :: pprev) then some (b :: pprev) else lastContained pprev

def findFork (pindex : List α) : Option (List α) :=
  if pindex = [] then some []
  else if nHeight pindex > height pBestBlock then do
    lastContained pskip pBestBlock (← findAncestor pskip pindex (height pBestBlock))
  else lastContained pskip pBestBlock pindex

end

section

variable (pskip : List α → List α) (pBestBlock : List α) (time : List α → Int) (nTime : Int)

def earliestLoop : Nat → Nat → Nat → Option Nat
  | 0, loHeight, hiHeight => if loHeight < hiHeight then none else some hiHeight
  | fuel + 1, loHeight, hiHeight =>
    if loHeight < hiHeight then do
      let mHeight := (loHeight + hiHeight) / 2
      let pindex ← get pskip pBestBlock mHeight
      if time pindex < nTime then earliestLoop fuel mHeight hiHeight
      else earliestLoop fuel loHeight mHeight
    else some hiHeight

def findEarliestAtLeast (fuel : Nat) : Option (List α) := do
  let genesis ← genesis pskip pBestBlock
  if genesis = [] || time genesis > nTime then some []
  else if time pBestBlock < nTime then some []
  else do
    let hiHeight ← earliestLoop pskip pBestBlock time nTime fuel 0 (nHeight pBestBlock)
    get pskip pBestBlock hiHeight

end

section

variable (pskip : List α → List α)

-- The loop of `GetLocator`, with the number of hashes so far. It returns the entries they are of.
def locatorLoop : Nat → List α → Nat → Nat → Option (List (List α))
  | 0, _, _, _ => none
  | fuel + 1, pindex, nStep, size =>
    if pindex = [] then some []
    else if nHeight pindex = 0 then some [pindex]
    else do
      let pindexNext ← findAncestor pskip pindex (max (nHeight pindex - nStep : Int) 0)
      let rest ← locatorLoop fuel pindexNext (if size + 1 > 10 then nStep * 2 else nStep) (size + 1)
      some (pindex :: rest)

-- `GetLocator`, of the tip if the pointer is null. A round for each height is more than enough.
def getLocator {H : Type} (hash : List α → H) (pBestBlock pindex : List α) : Option (List H) :=
  let pindex := if pindex = [] then pBestBlock else pindex
  (locatorLoop pskip (nHeight pindex + 1) pindex 1 0).map (·.map hash)

variable [DecidableEq α] {H : Type} (lookupBlockIndex : H → List α) (pBestBlock : List α)

def findForkLocator : List H → Option (List α)
  | [] => genesis pskip pBestBlock
  | hash :: vHave =>
    let pindex := lookupBlockIndex hash
    if pindex = [] then findForkLocator vHave
    else do
      if ← contains pskip pBestBlock pindex then some pindex
      else if (← findAncestor pskip pindex (height pBestBlock)) = pBestBlock then some pBestBlock
      else findForkLocator vHave

end

end CChain

end Taler
