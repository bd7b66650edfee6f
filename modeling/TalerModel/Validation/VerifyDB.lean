import TalerModel.Validation.DisconnectBlock

namespace Taler

-- What a verification of the block database reads besides what a connection does.
structure VerifyContext extends ConnectContext where
  coinsview : CCoinsView
  -- Whether the coin caches are within their limit when the walk is at an entry.
  hasRoom : CBlockIndex → Bool
  fPruneMode : Bool
  haveData : CBlockIndex → Bool
  shutdownRequested : CBlockIndex → Bool

def Connect.attempt (x : Connect Unit) : Connect Bool := fun s =>
  match x s with
  | .ok () s => .ok true s
  | .error (.returned _) s => .ok false s
  | .error (.fault f) s => .error (.fault f) s

-- How the walk ends: with the verdict, or at an entry, with or without an inconsistency.
inductive VerifyWalk
  | returned (result : Bool)
  | stopped (pindex : CBlockIndex) (fFailure : Bool)

namespace VerifyContext

variable [Crypto] (ctx : VerifyContext)

def checkLevel (nCheckLevel : Int) : Nat :=
  (max 0 (min 4 nCheckLevel)).toNat

def checkDepth (nCheckDepth : Int) : Int :=
  let height : Int := nHeight ctx.chainActive
  if nCheckDepth ≤ 0 || nCheckDepth > height then height else nCheckDepth

-- Whether the walk ends before an entry: at the genesis block, at the depth, or where data is pruned.
def stopsAt (depth : Int) (pindex : CBlockIndex) : Bool :=
  pindex.tail = [] || nHeight pindex ≤ nHeight ctx.chainActive - depth ||
    (ctx.fPruneMode && !ctx.haveData pindex)

def verifyContents (level : Nat) (block : CBlock) (pindex : CBlockIndex) : Connect Bool :=
  if level < 1 then pure true else
  match (checkBlock ctx.checkContext block pindex.tail true true).1 with
  | .ok () => pure true
  | .error (.returned _) => pure false
  | .error (.fault f) => Connect.check (Check.fault f)

-- Disconnects a block from the scratch view. The second level finds nothing to do.
def verifyDisconnect (level : Nat) (block : CBlock) (pindex : CBlockIndex) :
    Connect DisconnectResult :=
  if level < 3 || !ctx.hasRoom pindex then pure .ok else do
  let view := (← get).view
  Connect.check <| Check.rejectIf (view.getBestBlock ≠ pindex.getBlockHash) (Check.fault .assertion)
  ctx.disconnectBlock block pindex

def verifyDown (level : Nat) (depth : Int) : CBlockIndex → Bool → Connect VerifyWalk
  | [], fFailure => return .stopped [] fFailure
  | b :: pprev, fFailure =>
    if ctx.stopsAt depth (b :: pprev) then return .stopped (b :: pprev) fFailure else
    match ctx.readBlockFromDisk (b :: pprev) with
    | none => return .returned false
    | some block => do
      match ← ctx.verifyContents level block (b :: pprev) with
      | false => return .returned false
      | true =>
        match ← ctx.verifyDisconnect level block (b :: pprev) with
        | .failed => return .returned false
        | res =>
          if ctx.shutdownRequested (b :: pprev) then return .returned true
          else verifyDown level depth pprev (fFailure || res = .unclean)

def verifyUp : List CBlockIndex → Connect Bool
  | [] => return true
  | pindex :: rest =>
    match ctx.readBlockFromDisk pindex with
    | none => return false
    | some block => do
      match ← Connect.attempt (ctx.connectBlock block pindex false) with
      | false => return false
      | true => verifyUp rest

def above (pindex : CBlockIndex) : List CBlockIndex :=
  (ctx.chainActive.tails.takeWhile (· ≠ pindex)).reverse

def verifyBlocks (level : Nat) (depth : Int) : Connect Bool := do
  match ← ctx.verifyDown level depth ctx.chainActive false with
  | .returned result => return result
  | .stopped pindex fFailure =>
    if fFailure then return false else
    if level ≥ 4 then ctx.verifyUp (ctx.above pindex) else return true

-- The view of the state is a scratch one while the blocks are verified.
def verifyDB (nCheckLevel nCheckDepth : Int) : Connect Bool := fun s =>
  if ctx.chainActive = [] || ctx.chainActive.tail = [] then .ok true s else
  match ctx.verifyBlocks (checkLevel nCheckLevel) (ctx.checkDepth nCheckDepth)
      { s with view := .onto ctx.coinsview } with
  | .ok result s' => .ok result { s' with view := s.view }
  | .error e s' => .error e { s' with view := s.view }

end VerifyContext

end Taler
