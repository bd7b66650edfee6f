import TalerModel.Coins.View

namespace Taler

open CCoinsView

namespace CCoinsViewCache

variable (view : CCoinsViewCache)

-- One entry of the view above as it is written into this one. Clean entries are ignored.
def batchWriteEntry (outpoint : COutPoint) (entry : CCoinsCacheEntry) : Check CCoinsViewCache :=
  if !entry.dirty then .ok view else
  match view.cacheCoins.lookup outpoint with
  | none =>
    if entry.fresh && entry.coin.isSpent then .ok view
    else .ok <| view.setEntry outpoint { coin := entry.coin, dirty := true, fresh := entry.fresh }
  | some itUs =>
    if entry.fresh && !itUs.coin.isSpent then Check.fault .exception else
    if itUs.fresh && entry.coin.isSpent then .ok <| view.eraseEntry outpoint
    else .ok <| view.setEntry outpoint { itUs with coin := entry.coin, dirty := true }

def batchWriteEntries :
    List (COutPoint × CCoinsCacheEntry) → CCoinsViewCache → Check CCoinsViewCache
  | [], view => .ok view
  | (outpoint, entry) :: mapCoins, view => do
    let view ← view.batchWriteEntry outpoint entry
    batchWriteEntries mapCoins view

def batchWrite (mapCoins : List (COutPoint × CCoinsCacheEntry))
    (hashBlockIn : Uint256) : Check CCoinsViewCache := do
  let view ← batchWriteEntries mapCoins view
  return view.setBestBlock hashBlockIn

def uncache (outpoint : COutPoint) : CCoinsViewCache :=
  match view.cacheCoins.lookup outpoint with
  | none => view
  | some entry => if entry.dirty || entry.fresh then view else view.eraseEntry outpoint

end CCoinsViewCache

-- A view without a cache after a bulk write: dirty entries replace, and spent ones remove.

def CCoinsView.writtenEntry (getCoin : COutPoint → Option Coin) (outpoint : COutPoint)
    (entry : CCoinsCacheEntry) : COutPoint → Option Coin :=
  if !entry.dirty then getCoin else
  Function.update getCoin outpoint (if entry.coin.isSpent then none else some entry.coin)

def CCoinsView.written (getCoin : COutPoint → Option Coin) :
    List (COutPoint × CCoinsCacheEntry) → COutPoint → Option Coin
  | [] => getCoin
  | (outpoint, entry) :: mapCoins =>
    written (writtenEntry getCoin outpoint entry) mapCoins

lemma CCoinsView.written_finite {getCoin : COutPoint → Option Coin}
    (h : { o | getCoin o ≠ none }.Finite) (mapCoins) :
    { o | written getCoin mapCoins o ≠ none }.Finite := by
  induction mapCoins generalizing getCoin
  case nil => exact h
  case cons p mapCoins hi =>
  refine hi ((h.insert p.1).subset fun o ho => ?_)
  by_cases he : o = p.1
  · exact .inl he
  refine .inr fun hn => ho ?_
  unfold writtenEntry
  split
  · exact hn
  · rw [Function.update_of_ne he, hn]

def CCoinsView.batchWrite (base : CCoinsView) (mapCoins : List (COutPoint × CCoinsCacheEntry))
    (hashBlock : Uint256) : CCoinsView where
  getCoin := written base.getCoin mapCoins
  getBestBlock := hashBlock
  finite := written_finite base.finite mapCoins

def CCoinsViewCache.toView (view : CCoinsViewCache) : CCoinsView where
  getCoin := view.getCoin
  getBestBlock := view.getBestBlock
  finite := by
    refine (view.cacheCoins.keys.finite_toSet.union view.base.finite).subset fun o ho => ?_
    by_cases hk : o ∈ view.cacheCoins
    · exact .inl (Finmap.mem_keys.mpr hk)
    refine .inr fun hb => ho ?_
    rw [← Finmap.lookup_eq_none] at hk
    simp [getCoin, fetchCoin, hk, hb]

structure CoinsLayer where
  cacheCoins : Finmap fun _ : COutPoint => CCoinsCacheEntry := ∅
  hashBlock : Uint256 := 0

def CoinsLayer.onto (layer : CoinsLayer) (base : CCoinsView) : CCoinsViewCache where
  base := base
  cacheCoins := layer.cacheCoins
  hashBlock := layer.hashBlock

def CCoinsViewCache.layer (view : CCoinsViewCache) : CoinsLayer where
  cacheCoins := view.cacheCoins
  hashBlock := view.hashBlock

structure CoinsStack where
  base : CCoinsView
  layers : List CoinsLayer

inductive CoinsCall
  | addCoin (outpoint : COutPoint) (coin : Coin) (possibleOverwrite : Bool)
  | spendCoin (outpoint : COutPoint)
  | getCoin (outpoint : COutPoint)
  | haveCoin (outpoint : COutPoint)
  | accessCoin (outpoint : COutPoint)
  | uncache (outpoint : COutPoint)
  -- The order in which the entries of the cache are visited.
  | flush (order : List COutPoint)
  | setBestBlock (hashBlock : Uint256)

-- A spent coin stands for none. Whether `SpendCoin` has found an entry is left out.
inductive CoinsAnswer
  | done
  | coin (coin : Option Coin)
  | have (found : Bool)
  | fault (fault : Fault)
  deriving DecidableEq, Repr

def Coin.normal (coin : Coin) : Option Coin :=
  if coin.isSpent then none else some coin

namespace CoinsStack

def viewOf (base : CCoinsView) : List CoinsLayer → CCoinsView
  | [] => base
  | layer :: below => (layer.onto (viewOf base below)).toView

-- After an entry was fetched, each layer without one has what the ones below return.
def fetched (base : CCoinsView) (outpoint : COutPoint) : List CoinsLayer → List CoinsLayer
  | [] => []
  | layer :: below =>
    let view := layer.onto (viewOf base below)
    if (layer.cacheCoins.lookup outpoint).isSome then layer :: below else
    match view.fetchCoin outpoint with
    | none => layer :: fetched base outpoint below
    | some entry => (view.setEntry outpoint entry).layer :: fetched base outpoint below

def CoinsLayer.entries (layer : CoinsLayer) (order : List COutPoint) :
    List (COutPoint × CCoinsCacheEntry) :=
  order.filterMap fun outpoint => (layer.cacheCoins.lookup outpoint).map (outpoint, ·)

-- An order in which all entries of a layer are visited once.
structure Visits (order : List COutPoint) (layer : CoinsLayer) : Prop where
  nodup : order.Nodup
  all : ∀ o, o ∈ order ↔ o ∈ layer.cacheCoins

def flush (base : CCoinsView) (layer : CoinsLayer) (order : List COutPoint) :
    List CoinsLayer → Check CoinsStack
  | [] => .ok
    { base := base.batchWrite (CoinsLayer.entries layer order) layer.hashBlock
      layers := [{ layer with cacheCoins := ∅ }] }
  | lower :: below => do
    let view ← (lower.onto (viewOf base below)).batchWrite (CoinsLayer.entries layer order)
      layer.hashBlock
    return { base := base, layers := { layer with cacheCoins := ∅ } :: view.layer :: below }

def call (base : CCoinsView) (layer : CoinsLayer) (below : List CoinsLayer) :
    CoinsCall → CoinsAnswer × CoinsStack :=
  let view := layer.onto (viewOf base below)
  let unchanged : CoinsStack := { base := base, layers := layer :: below }
  let reading outpoint : CoinsStack :=
    { base := base, layers := fetched base outpoint (layer :: below) }
  fun
  | .addCoin outpoint coin possibleOverwrite =>
    match view.addCoin outpoint coin possibleOverwrite with
    | .ok view => (.done, { base := base, layers := view.layer :: below })
    | .error (.fault f) => (.fault f, unchanged)
    | .error (.returned _) => (.done, unchanged)
  | .spendCoin outpoint =>
    match view.spendCoin outpoint with
    | none => (.coin none, reading outpoint)
    | some (moveout, view) =>
      (.coin moveout.normal,
        { base := base, layers := view.layer :: (reading outpoint).layers.tail })
  | .getCoin outpoint => (.coin (view.getCoin outpoint), reading outpoint)
  | .haveCoin outpoint => (.have (view.haveCoin outpoint), reading outpoint)
  | .accessCoin outpoint => (.coin (view.accessCoin outpoint).normal, reading outpoint)
  | .uncache outpoint => (.done, { base := base, layers := (view.uncache outpoint).layer :: below })
  | .flush order =>
    match flush base layer order below with
    | .ok stack => (.done, stack)
    | .error (.fault f) => (.fault f, unchanged)
    | .error (.returned _) => (.done, unchanged)
  | .setBestBlock hashBlock =>
    (.done, { base := base, layers := (view.setBestBlock hashBlock).layer :: below })

def step (base : CCoinsView) (c : CoinsCall) : Nat → List CoinsLayer → CoinsAnswer × CoinsStack
  | _, [] => (.done, { base := base, layers := [] })
  | 0, layer :: below => call base layer below c
  | i + 1, top :: below =>
    let (answer, stack) := step base c i below
    (answer, { stack with layers := top :: stack.layers })

def run (stack : CoinsStack) : List (Nat × CoinsCall) → List CoinsAnswer × CoinsStack
  | [] => ([], stack)
  | (i, c) :: calls =>
    let (answer, stack) := step stack.base c i stack.layers
    let (answers, stack) := run stack calls
    (answer :: answers, stack)

end CoinsStack

end Taler
