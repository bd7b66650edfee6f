import TalerModel.Primitives.Serialize
import Mathlib.Data.List.FinRange

open Codec

namespace Taler

open Function

abbrev ADDRMAN_TRIED_BUCKET_COUNT : Nat := 256
abbrev ADDRMAN_NEW_BUCKET_COUNT : Nat := 1024
instance : NeZero ADDRMAN_NEW_BUCKET_COUNT := ⟨by decide⟩
abbrev ADDRMAN_BUCKET_SIZE : Nat := 64
def ADDRMAN_TRIED_BUCKETS_PER_GROUP : Nat := 8
def ADDRMAN_NEW_BUCKETS_PER_SOURCE_GROUP : Nat := 64
def ADDRMAN_NEW_BUCKETS_PER_ADDRESS : Int := 8
def ADDRMAN_HORIZON_DAYS : Int := 30
def ADDRMAN_RETRIES : Int := 3
def ADDRMAN_MAX_FAILURES : Int := 10
def ADDRMAN_MIN_FAIL_DAYS : Int := 7
def ADDRMAN_REPLACEMENT_HOURS : Int := 4
def ADDRMAN_GETADDR_MAX_PCT : Nat := 23
def ADDRMAN_GETADDR_MAX : Nat := 2500
def ADDRMAN_SET_TRIED_COLLISION_SIZE : Nat := 10

-- The address in network byte order. Scope identifiers are not part of any comparison.
structure CNetAddr where
  ip : BitVec 128 := 0
  deriving DecidableEq

structure CService extends CNetAddr where
  port : BitVec 16 := 0
  deriving DecidableEq

structure CAddress extends CService where
  nServices : BitVec 64 := 0
  nTime : Nat := 100000000

-- What the address manager asks of the hash function and of the classification of addresses.
class AddrOps where
  -- The first eight bytes of the double SHA-256 of a byte string.
  cheapHash : Bytes → Nat
  getGroup : CNetAddr → Bytes
  isRoutable : CNetAddr → Bool
  isValid : CNetAddr → Bool

export AddrOps (cheapHash getGroup isRoutable isValid)

structure StoredInfo extends CAddress where
  source : CNetAddr := {}
  nLastSuccess : Int := 0
  nAttempts : Int := 0

structure CAddrInfo extends StoredInfo where
  nLastTry : Int := 0
  nLastCountAttempt : Int := 0
  nRefCount : Int := 0
  fInTried : Bool := false
  nRandomPos : Int := -1

abbrev TriedSlot := Fin ADDRMAN_TRIED_BUCKET_COUNT × Fin ADDRMAN_BUCKET_SIZE
abbrev NewSlot := Fin ADDRMAN_NEW_BUCKET_COUNT × Fin ADDRMAN_BUCKET_SIZE

namespace CService

def getKey (addr : CService) : Bytes :=
  (writeLE 16 addr.ip.toNat).reverse ++
    [UInt8.ofNat (addr.port.toNat / 0x100), UInt8.ofNat (addr.port.toNat % 0x100)]

def writeVector (v : Bytes) : Bytes :=
  writeCompactSize v.length ++ v

variable [AddrOps] (addr : CService) (nKey : Uint256)

def getTriedBucket : Fin ADDRMAN_TRIED_BUCKET_COUNT :=
  let hash1 := cheapHash (writeLE 32 nKey ++ writeVector addr.getKey)
  let hash2 := cheapHash (writeLE 32 nKey ++ writeVector (getGroup addr.toCNetAddr) ++
    writeLE 8 (hash1 % ADDRMAN_TRIED_BUCKETS_PER_GROUP))
  Fin.ofNat ADDRMAN_TRIED_BUCKET_COUNT hash2

def getNewBucket (src : CNetAddr) : Fin ADDRMAN_NEW_BUCKET_COUNT :=
  let vchSourceGroupKey := getGroup src
  let hash1 := cheapHash (writeLE 32 nKey ++ writeVector (getGroup addr.toCNetAddr) ++
    writeVector vchSourceGroupKey)
  let hash2 := cheapHash (writeLE 32 nKey ++ writeVector vchSourceGroupKey ++
    writeLE 8 (hash1 % ADDRMAN_NEW_BUCKETS_PER_SOURCE_GROUP))
  Fin.ofNat ADDRMAN_NEW_BUCKET_COUNT hash2

def getBucketPosition (fNew : Bool) (nBucket : Nat) : Fin ADDRMAN_BUCKET_SIZE :=
  let hash1 := cheapHash (writeLE 32 nKey ++ [if fNew then 78 else 75] ++ writeLE 4 nBucket ++
    writeVector addr.getKey)
  Fin.ofNat ADDRMAN_BUCKET_SIZE hash1

def triedSlot : TriedSlot :=
  let nKBucket := addr.getTriedBucket nKey
  (nKBucket, addr.getBucketPosition nKey false nKBucket)

def newPlace (nUBucket : Fin ADDRMAN_NEW_BUCKET_COUNT) : NewSlot :=
  (nUBucket, addr.getBucketPosition nKey true nUBucket)

def newSlot (src : CNetAddr) : NewSlot :=
  addr.newPlace nKey (addr.getNewBucket nKey src)

end CService

def toUnsigned (n : Int) : Nat :=
  (n % 2 ^ 32).toNat

def CAddrInfo.isTerrible (info : CAddrInfo) (nNow : Int) : Bool :=
  if info.nLastTry ≠ 0 ∧ info.nLastTry ≥ nNow - 60 then false
  else if info.nTime > nNow + 10 * 60 then true
  else if info.nTime = 0 ∨ nNow - info.nTime > ADDRMAN_HORIZON_DAYS * 24 * 60 * 60 then true
  else if info.nLastSuccess = 0 ∧ info.nAttempts ≥ ADDRMAN_RETRIES then true
  else decide (nNow - info.nLastSuccess > ADDRMAN_MIN_FAIL_DAYS * 24 * 60 * 60 ∧
    info.nAttempts ≥ ADDRMAN_MAX_FAILURES)

structure CAddrMan where
  nIdCount : Int
  mapInfo : Std.TreeMap Int CAddrInfo
  mapAddr : CNetAddr → Option Int
  vRandom : List Int
  nTried : Int
  vvTried : TriedSlot → Int
  nNew : Int
  vvNew : NewSlot → Int
  nLastGood : Int
  m_tried_collisions : Std.TreeSet Int
  nKey : Uint256

namespace CAddrMan

section

variable (s : CAddrMan)

-- A failed assertion ends the program: the functions below then return `none`.

-- Collisions are not cleared.
def clear (nKey : Uint256) : CAddrMan :=
  { s with
    vRandom := []
    nKey := nKey
    vvNew := fun _ => -1
    vvTried := fun _ => -1
    nIdCount := 0
    nTried := 0
    nNew := 0
    nLastGood := 1
    mapInfo := ∅
    mapAddr := fun _ => none }

-- A constructed manager: `clear` sets everything but the collisions, which start out empty.
def start (nKey : Uint256) : CAddrMan :=
  { nIdCount := 0
    mapInfo := ∅
    mapAddr := fun _ => none
    vRandom := []
    nTried := 0
    vvTried := fun _ => -1
    nNew := 0
    vvNew := fun _ => -1
    nLastGood := 1
    m_tried_collisions := ∅
    nKey := nKey }

def modifyInfo (nId : Int) (f : CAddrInfo → CAddrInfo) : CAddrMan :=
  { s with mapInfo := s.mapInfo.modify nId f }

-- `mapInfo[nId]` inserts a default entry if there is none.
def access (nId : Int) : CAddrMan :=
  { s with mapInfo := s.mapInfo.insertIfNew nId {} }

def find (addr : CNetAddr) : Option (Int × CAddrInfo) := do
  let nId ← s.mapAddr addr
  let info ← s.mapInfo[nId]?
  return (nId, info)

def create (addr : CAddress) (addrSource : CNetAddr) : CAddrMan :=
  let nId := s.nIdCount
  let info : CAddrInfo := { toCAddress := addr, source := addrSource }
  { s with
    nIdCount := nId + 1
    mapInfo := s.mapInfo.insert nId { info with nRandomPos := s.vRandom.length }
    mapAddr := update s.mapAddr addr.toCNetAddr (some nId)
    vRandom := s.vRandom ++ [nId] }

-- A negative position becomes one that is too large.
def randomAt (nRndPos : Int) : Option Int :=
  if nRndPos < 0 then none else s.vRandom[nRndPos.toNat]?

def swapRandom (nRndPos1 nRndPos2 : Int) : Option CAddrMan :=
  if nRndPos1 = nRndPos2 then some s else do
  let nId1 ← s.randomAt nRndPos1
  let nId2 ← s.randomAt nRndPos2
  guard (nId1 ∈ s.mapInfo ∧ nId2 ∈ s.mapInfo)
  let s := s.modifyInfo nId1 fun info => { info with nRandomPos := nRndPos2 }
  let s := s.modifyInfo nId2 fun info => { info with nRandomPos := nRndPos1 }
  return { s with vRandom := (s.vRandom.set nRndPos1.toNat nId2).set nRndPos2.toNat nId1 }

def delete (nId : Int) : Option CAddrMan := do
  let info ← s.mapInfo[nId]?
  guard (info.fInTried = false ∧ info.nRefCount = 0)
  let s ← s.swapRandom info.nRandomPos (s.vRandom.length - 1)
  return { s with
    vRandom := s.vRandom.dropLast
    mapAddr := update s.mapAddr info.toCNetAddr none
    mapInfo := s.mapInfo.erase nId
    nNew := s.nNew - 1 }

def clearNew (slot : NewSlot) : Option CAddrMan :=
  if s.vvNew slot = -1 then some s else do
  let nIdDelete := s.vvNew slot
  let infoDelete ← s.mapInfo[nIdDelete]?
  guard (infoDelete.nRefCount > 0)
  let s := s.modifyInfo nIdDelete fun info => { info with nRefCount := info.nRefCount - 1 }
  let s := { s with vvNew := update s.vvNew slot (-1) }
  if infoDelete.nRefCount - 1 = 0 then s.delete nIdDelete else return s

end

variable [AddrOps] (s : CAddrMan) (nId : Int) (addr : CService)

def leaveBucket (s : CAddrMan) (bucket : Fin ADDRMAN_NEW_BUCKET_COUNT) : CAddrMan :=
  let slot := addr.newPlace s.nKey bucket
  if s.vvNew slot = nId then
    let s := { s with vvNew := update s.vvNew slot (-1) }
    s.modifyInfo nId fun info => { info with nRefCount := info.nRefCount - 1 }
  else s

def leaveNew : CAddrMan :=
  (List.finRange ADDRMAN_NEW_BUCKET_COUNT).foldl (leaveBucket nId addr) s

-- Moves the entry that is in a slot of the tried table back to the new table.
def evict (slot : TriedSlot) : Option CAddrMan :=
  if s.vvTried slot = -1 then some s else do
  let nIdEvict := s.vvTried slot
  let infoOld ← s.mapInfo[nIdEvict]?
  let s := s.modifyInfo nIdEvict fun info => { info with fInTried := false }
  let s := { s with vvTried := update s.vvTried slot (-1), nTried := s.nTried - 1 }
  let nUSlot := infoOld.newSlot s.nKey infoOld.source
  let s ← s.clearNew nUSlot
  guard (s.vvNew nUSlot = -1)
  let s := s.modifyInfo nIdEvict fun info => { info with nRefCount := 1 }
  return { s with vvNew := update s.vvNew nUSlot nIdEvict, nNew := s.nNew + 1 }

def makeTried : Option CAddrMan := do
  let s := s.leaveNew nId addr
  let s := { s with nNew := s.nNew - 1 }
  let info ← s.mapInfo[nId]?
  guard (info.nRefCount = 0)
  let slot := addr.triedSlot s.nKey
  let s ← s.evict slot
  guard (s.vvTried slot = -1)
  let s := { s with vvTried := update s.vvTried slot nId, nTried := s.nTried + 1 }
  return s.modifyInfo nId fun info => { info with fInTried := true }

-- The entry is looked for in all new buckets, from a random one on.
def inNew (nRnd : Fin ADDRMAN_NEW_BUCKET_COUNT) : Bool :=
  (List.finRange ADDRMAN_NEW_BUCKET_COUNT).any fun n => s.vvNew (addr.newPlace s.nKey (n + nRnd)) = nId

variable (addr : CService)

def good (test_before_evict : Bool) (nTime : Int)
    (nRnd : Fin ADDRMAN_NEW_BUCKET_COUNT) : Option CAddrMan :=
  let s := { s with nLastGood := nTime }
  match s.find addr.toCNetAddr with
  | none => some s
  | some (nId, info) =>
    if info.toCService ≠ addr then some s else
    let s := s.modifyInfo nId fun info =>
      { info with nLastSuccess := nTime, nLastTry := nTime, nAttempts := 0 }
    if info.fInTried then some s
    else if !s.inNew nId addr nRnd then some s
    else if test_before_evict ∧ s.vvTried (addr.triedSlot s.nKey) ≠ -1 then
      if s.m_tried_collisions.size < ADDRMAN_SET_TRIED_COLLISION_SIZE then
        some { s with m_tried_collisions := s.m_tried_collisions.insert nId }
      else some s
    else s.makeTried nId addr

-- What is new about an address that is known already.
def refresh (info : CAddrInfo) (addr : CAddress) (nTimePenalty nNow : Int) : CAddrInfo :=
  let fCurrentlyOnline : Bool := nNow - addr.nTime < 24 * 60 * 60
  let nUpdateInterval : Int := if fCurrentlyOnline then 60 * 60 else 24 * 60 * 60
  let info :=
    if addr.nTime ≠ 0 ∧
        (info.nTime = 0 ∨ (info.nTime : Int) < addr.nTime - nUpdateInterval - nTimePenalty) then
      { info with nTime := toUnsigned (max 0 (addr.nTime - nTimePenalty)) }
    else info
  { info with nServices := info.nServices ||| addr.nServices }

-- An entry is put into a bucket of the new table, unless another one is to stay there.
def enterNew (info : CAddrInfo) (source : CNetAddr) (nNow : Int) : Option CAddrMan :=
  let slot := info.newSlot s.nKey source
  if s.vvNew slot = nId then some s
  else
    let infoExisting : CAddrInfo := (s.mapInfo[s.vvNew slot]?).getD {}
    let fEmpty : Bool := s.vvNew slot = -1
    let s := if fEmpty then s else s.access (s.vvNew slot)
    let fInsert : Bool := fEmpty ||
      (infoExisting.isTerrible nNow || (infoExisting.nRefCount > 1 && info.nRefCount = 0))
    if fInsert then do
      let s ← s.clearNew slot
      let s := s.modifyInfo nId fun info => { info with nRefCount := info.nRefCount + 1 }
      return { s with vvNew := update s.vvNew slot nId }
    else if info.nRefCount = 0 then s.delete nId
    else some s

-- `nRnd` is what `RandomInt(nFactor)` draws, of which only zero lets the address in again.
def add (addr : CAddress) (source : CNetAddr) (nTimePenalty nNow : Int)
    (nRnd : Nat) : Option CAddrMan :=
  if !isRoutable addr.toCNetAddr then some s else
  let nTimePenalty := if addr.toCNetAddr = source then 0 else nTimePenalty
  match s.find addr.toCNetAddr with
  | some (nId, info) =>
    let info := refresh info addr nTimePenalty nNow
    let s := s.modifyInfo nId fun _ => info
    if addr.nTime = 0 ∨ (info.nTime ≠ 0 ∧ addr.nTime ≤ info.nTime) then some s
    else if info.fInTried then some s
    else if info.nRefCount = ADDRMAN_NEW_BUCKETS_PER_ADDRESS then some s
    else
      let nFactor := 2 ^ info.nRefCount.toNat
      if nFactor > 1 ∧ nRnd % nFactor ≠ 0 then some s
      else s.enterNew nId info source nNow
  | none =>
    let nId := s.nIdCount
    let s := s.create addr source
    let s := s.modifyInfo nId fun info =>
      { info with nTime := toUnsigned (max 0 (info.nTime - nTimePenalty)) }
    let s := { s with nNew := s.nNew + 1 }
    match s.mapInfo[nId]? with
    | none => none
    | some info => s.enterNew nId info source nNow

-- An update of the entry for a service, if there is one for exactly that service.
def update (f : CAddrInfo → CAddrInfo) : CAddrMan :=
  match s.find addr.toCNetAddr with
  | none => s
  | some (nId, info) => if info.toCService ≠ addr then s else s.modifyInfo nId f

def attempt (fCountFailure : Bool) (nTime : Int) : CAddrMan :=
  s.update addr fun info =>
    let info := { info with nLastTry := nTime }
    if fCountFailure ∧ info.nLastCountAttempt < s.nLastGood then
      { info with nLastCountAttempt := nTime, nAttempts := info.nAttempts + 1 }
    else info

def connected (nTime : Int) : CAddrMan :=
  s.update addr fun info =>
    if nTime - info.nTime > 20 * 60 then { info with nTime := toUnsigned nTime } else info

def setServices (nServices : BitVec 64) : CAddrMan :=
  s.update addr fun info => { info with nServices := nServices }

section

-- One collision, with the clock readings `nNow`. The second component: it is settled.
def resolveCollision (id_new : Int) (nNow : Nat → Int)
    (nRnd : Fin ADDRMAN_NEW_BUCKET_COUNT) : Option (CAddrMan × Bool) :=
  match s.mapInfo[id_new]? with
  | none => some (s, true)
  | some info_new =>
    let slot := info_new.triedSlot s.nKey
    if !isValid info_new.toCNetAddr then some (s, true)
    else if s.vvTried slot ≠ -1 then
      let id_old := s.vvTried slot
      let info_old : CAddrInfo := (s.mapInfo[id_old]?).getD {}
      let s := s.access id_old
      if nNow 0 - info_old.nLastSuccess < ADDRMAN_REPLACEMENT_HOURS * (60 * 60) then some (s, true)
      else if nNow 1 - info_old.nLastTry < ADDRMAN_REPLACEMENT_HOURS * (60 * 60) then
        if nNow 2 - info_old.nLastTry > 60 then
          (s.good info_new.toCService false (nNow 3) nRnd).map (·, true)
        else some (s, false)
      else some (s, false)
    else (s.good info_new.toCService false (nNow 3) nRnd).map (·, true)

-- The collisions in the order of their ids. Each has its own readings of the clock and its own draw.
def resolveCollisions (nNow : Int → Nat → Int)
    (nRnd : Int → Fin ADDRMAN_NEW_BUCKET_COUNT) : Option CAddrMan :=
  s.m_tried_collisions.toList.foldlM (fun s id_new => do
    let (s, erase_collision) ← s.resolveCollision id_new (nNow id_new) (nRnd id_new)
    return if erase_collision then
      { s with m_tried_collisions := s.m_tried_collisions.erase id_new }
    else s) s

def selectTriedCollision (nRnd : Nat) : CAddrInfo × CAddrMan :=
  match s.m_tried_collisions.toList[nRnd % s.m_tried_collisions.size]? with
  | none => ({}, s)
  | some id_new =>
    match s.mapInfo[id_new]? with
    | none => ({}, { s with m_tried_collisions := s.m_tried_collisions.erase id_new })
    | some newInfo =>
      let id_old := s.vvTried (newInfo.triedSlot s.nKey)
      ((s.mapInfo[id_old]?).getD {}, s.access id_old)

end

section

variable {m n : Nat} [NeZero m] [NeZero n]

def walk (vv : Fin m × Fin n → Int) (slot : Fin m × Fin n) :
    List (Fin m × Fin n) → Option (Fin m × Fin n)
  | [] => if vv slot = -1 then none else some slot
  | step :: steps => if vv slot = -1 then walk vv (slot.1 + step.1, slot.2 + step.2) steps
    else some slot

-- The draws of one round: where it starts, how it goes on, and whether the entry it finds is taken.
structure Round (m n : Nat) where
  slot : Fin m × Fin n
  steps : List (Fin m × Fin n)
  taken : Bool

-- Rounds go on until an entry is taken: without one, the draws are those of a search under way.
def pick (s : CAddrMan) (vv : Fin m × Fin n → Int) : List (Round m n) → Option (Option CAddrInfo)
  | [] => some none
  | round :: rounds =>
    match walk vv round.slot round.steps with
    | none => some none
    | some slot => do
      let info ← s.mapInfo[vv slot]?
      if round.taken then return info else s.pick vv rounds

structure SelectDraws where
  useTried : Bool
  tried : List (Round ADDRMAN_TRIED_BUCKET_COUNT ADDRMAN_BUCKET_SIZE)
  new : List (Round ADDRMAN_NEW_BUCKET_COUNT ADDRMAN_BUCKET_SIZE)

def select (newOnly : Bool) (draws : SelectDraws) : Option (Option CAddrInfo) :=
  if s.vRandom.length = 0 then some (some {})
  else if newOnly ∧ s.nNew = 0 then some (some {})
  else if !newOnly ∧ s.nTried > 0 ∧ (s.nNew = 0 ∨ draws.useTried) then s.pick s.vvTried draws.tried
  else s.pick s.vvNew draws.new

end

def getAddrFrom (s : CAddrMan) (nNow : Int) (nRnd : Nat → Nat) (nNodes n : Nat)
    (vAddr : List CAddress) : Nat → Option (List CAddress × CAddrMan)
  | 0 => some (vAddr, s)
  | k + 1 =>
    if vAddr.length ≥ nNodes then some (vAddr, s) else do
    let nRndPos := nRnd n % (s.vRandom.length - n) + n
    let s ← s.swapRandom n nRndPos
    let nId ← s.vRandom[n]?
    let ai ← s.mapInfo[nId]?
    let vAddr := if ai.isTerrible nNow then vAddr else vAddr ++ [ai.toCAddress]
    s.getAddrFrom nNow nRnd nNodes (n + 1) vAddr k

def getAddr (nNow : Int) (nRnd : Nat → Nat) : Option (List CAddress × CAddrMan) :=
  let nNodes := min (ADDRMAN_GETADDR_MAX_PCT * s.vRandom.length / 100) ADDRMAN_GETADDR_MAX
  s.getAddrFrom nNow nRnd nNodes 0 [] s.vRandom.length

section

-- The first loop of `Check_` collects the tried ids, and the new ids with their reference counts.
def checkInfos (s : CAddrMan) : List (Int × CAddrInfo) → Std.TreeSet Int → Std.TreeMap Int Int →
    Except Int (Std.TreeSet Int × Std.TreeMap Int Int)
  | [], setTried, mapNew => .ok (setTried, mapNew)
  | (n, info) :: entries, setTried, mapNew => do
    let (setTried, mapNew) ←
      if info.fInTried then
        if info.nLastSuccess = 0 then throw (-1)
        else if info.nRefCount ≠ 0 then throw (-2)
        else pure (setTried.insert n, mapNew)
      else
        if info.nRefCount < 0 ∨ info.nRefCount > ADDRMAN_NEW_BUCKETS_PER_ADDRESS then throw (-3)
        else if info.nRefCount = 0 then throw (-4)
        else pure (setTried, mapNew.insert n info.nRefCount)
    if (s.mapAddr info.toCNetAddr).getD 0 ≠ n then throw (-5)
    else if s.randomAt info.nRandomPos ≠ some n then throw (-14)
    else if info.nLastTry < 0 then throw (-6)
    else if info.nLastSuccess < 0 then throw (-8)
    else s.checkInfos entries setTried mapNew

-- The other two loops cross off what the tables hold.
def checkTried (s : CAddrMan) : List TriedSlot → Std.TreeSet Int → Except Int (Std.TreeSet Int)
  | [], setTried => .ok setTried
  | slot :: slots, setTried =>
    let n := s.vvTried slot
    if n = -1 then s.checkTried slots setTried
    else if n ∉ setTried then .error (-11)
    else
      let info : CAddrInfo := (s.mapInfo[n]?).getD {}
      if info.getTriedBucket s.nKey ≠ slot.1 then .error (-17)
      else if info.getBucketPosition s.nKey false slot.1 ≠ slot.2 then .error (-18)
      else s.checkTried slots (setTried.erase n)

def checkNew (s : CAddrMan) : List NewSlot → Std.TreeMap Int Int → Except Int (Std.TreeMap Int Int)
  | [], mapNew => .ok mapNew
  | slot :: slots, mapNew =>
    let n := s.vvNew slot
    if n = -1 then s.checkNew slots mapNew
    else
      match mapNew[n]? with
      | none => .error (-12)
      | some nRefs =>
        let info : CAddrInfo := (s.mapInfo[n]?).getD {}
        if info.getBucketPosition s.nKey true slot.1 ≠ slot.2 then .error (-19)
        else if nRefs - 1 = 0 then s.checkNew slots (mapNew.erase n)
        else s.checkNew slots (mapNew.insert n (nRefs - 1))

def checkAll : Except Int Unit := do
  if (s.vRandom.length : Int) ≠ s.nTried + s.nNew then throw (-7)
  let (setTried, mapNew) ← s.checkInfos s.mapInfo.toList ∅ ∅
  if (setTried.size : Int) ≠ s.nTried then throw (-9)
  if (mapNew.size : Int) ≠ s.nNew then throw (-10)
  let setTried ← s.checkTried
    (List.finRange ADDRMAN_TRIED_BUCKET_COUNT ×ˢ List.finRange ADDRMAN_BUCKET_SIZE) setTried
  let mapNew ← s.checkNew
    (List.finRange ADDRMAN_NEW_BUCKET_COUNT ×ˢ List.finRange ADDRMAN_BUCKET_SIZE) mapNew
  if setTried.size ≠ 0 then throw (-13)
  if mapNew.size ≠ 0 then throw (-15)
  if s.nKey = 0 then throw (-16)

-- `Check_`: zero if the tables are consistent, an error code otherwise.
def check : Int :=
  match s.checkAll with
  | .ok () => 0
  | .error err => err

end

section

-- What a stream holds: the values that are written to it one after the other.
inductive Datum
  | uchar (n : Nat)
  | uint256 (hash : Uint256)
  | int (n : Int)
  | info (info : StoredInfo)

def serializeNew (nNew : Int) : List (Int × CAddrInfo) → Int → Option (List Datum)
  | [], _ => some []
  | (_, info) :: entries, nIds =>
    if info.nRefCount ≠ 0 then do
      guard (nIds ≠ nNew)
      return .info info.toStoredInfo :: (← serializeNew nNew entries (nIds + 1))
    else serializeNew nNew entries nIds

def serializeTried (nTried : Int) : List (Int × CAddrInfo) → Int → Option (List Datum)
  | [], _ => some []
  | (_, info) :: entries, nIds =>
    if info.fInTried then do
      guard (nIds ≠ nTried)
      return .info info.toStoredInfo :: (← serializeTried nTried entries (nIds + 1))
    else serializeTried nTried entries nIds

def unkIds : List (Int × CAddrInfo) → Int → Std.TreeMap Int Int → Std.TreeMap Int Int
  | [], _, mapUnkIds => mapUnkIds
  | (nId, info) :: entries, nIds, mapUnkIds =>
    unkIds entries (if info.nRefCount ≠ 0 then nIds + 1 else nIds) (mapUnkIds.insert nId nIds)

def serializeBucket (mapUnkIds : Std.TreeMap Int Int)
    (bucket : Fin ADDRMAN_NEW_BUCKET_COUNT) : List Datum :=
  let ids := (List.finRange ADDRMAN_BUCKET_SIZE).map (fun i => s.vvNew (bucket, i))
    |>.filter (· ≠ -1)
  .int ids.length :: ids.map fun nId => .int (mapUnkIds.getD nId 0)

def serialize : Option (List Datum) := do
  let nUBuckets := (BitVec.ofNat 32 ADDRMAN_NEW_BUCKET_COUNT ^^^ BitVec.ofNat 32 (2 ^ 30)).toInt
  let entries := s.mapInfo.toList
  let new ← serializeNew s.nNew entries 0
  let tried ← serializeTried s.nTried entries 0
  let buckets := (List.finRange ADDRMAN_NEW_BUCKET_COUNT).flatMap
    (s.serializeBucket (unkIds entries 0 ∅))
  return [.uchar 1, .uchar 32, .uint256 s.nKey, .int s.nNew, .int s.nTried, .int nUBuckets] ++
    new ++ tried ++ buckets

abbrev DatumReader := StateT (List Datum) (Except String)

def readUChar : DatumReader Nat
  | .uchar n :: data => .ok (n, data)
  | _ => .error "end of data"

def readUint256 : DatumReader Uint256
  | .uint256 hash :: data => .ok (hash, data)
  | _ => .error "end of data"

def readInt : DatumReader Int
  | .int n :: data => .ok (n, data)
  | _ => .error "end of data"

-- Into an entry that has just been made.
def readInfo : DatumReader CAddrInfo
  | .info info :: data => .ok ({ toStoredInfo := info }, data)
  | _ => .error "end of data"

-- Without usable buckets, the new entries are put where their first source puts them.
def readNewEntry (usable : Bool) (s : CAddrMan) (n : Nat) : DatumReader CAddrMan := do
  let info ← readInfo
  let s := { s with
    mapInfo := s.mapInfo.insert n { info with nRandomPos := s.vRandom.length }
    mapAddr := Function.update s.mapAddr info.toCNetAddr (some (n : Int))
    vRandom := s.vRandom ++ [(n : Int)] }
  let slot := info.newSlot s.nKey info.source
  if !usable ∧ s.vvNew slot = -1 then
    let s := { s with vvNew := Function.update s.vvNew slot n }
    return s.modifyInfo n fun info => { info with nRefCount := info.nRefCount + 1 }
  else return s

-- The second component counts the entries that are lost.
def readTriedEntry (s : CAddrMan × Int) : DatumReader (CAddrMan × Int) := do
  let (s, nLost) := s
  let info ← readInfo
  let slot := info.triedSlot s.nKey
  if s.vvTried slot = -1 then
    let nId := s.nIdCount
    let info := { info with nRandomPos := (s.vRandom.length : Int), fInTried := true }
    return ({ s with
      vRandom := s.vRandom ++ [nId]
      mapInfo := s.mapInfo.insert nId info
      mapAddr := Function.update s.mapAddr info.toCNetAddr (some nId)
      vvTried := Function.update s.vvTried slot nId
      nIdCount := nId + 1 }, nLost)
  else return (s, nLost + 1)

def readReference (usable : Bool) (bucket : Nat) (s : CAddrMan) : DatumReader CAddrMan := do
  let nIndex ← readInt
  if 0 ≤ nIndex ∧ nIndex < s.nNew then
    let info : CAddrInfo := (s.mapInfo[nIndex]?).getD {}
    let s := s.access nIndex
    let slot := info.newPlace s.nKey (Fin.ofNat ADDRMAN_NEW_BUCKET_COUNT bucket)
    if usable ∧ s.vvNew slot = -1 ∧ info.nRefCount < ADDRMAN_NEW_BUCKETS_PER_ADDRESS then
      let s := s.modifyInfo nIndex fun info => { info with nRefCount := info.nRefCount + 1 }
      return { s with vvNew := Function.update s.vvNew slot nIndex }
    else return s
  else return s

def readBucket (usable : Bool) (s : CAddrMan) (bucket : Nat) : DatumReader CAddrMan := do
  let nSize ← readInt
  (List.range nSize.toNat).foldlM (fun s _ => s.readReference usable bucket) s

def prune : Option CAddrMan :=
  s.mapInfo.toList.foldlM (fun s (nId, info) =>
    if info.fInTried = false ∧ info.nRefCount = 0 then s.delete nId else some s) s

-- `nRnd` is the key that `Clear` draws first.
def unserialize (nRnd : Uint256) : DatumReader CAddrMan := do
  let s := s.clear nRnd
  let nVersion ← readUChar
  let nKeySize ← readUChar
  if nKeySize ≠ 32 then throw "Incorrect keysize in addrman deserialization"
  let nKey ← readUint256
  let nNew ← readInt
  let nTried ← readInt
  let nUBuckets ← readInt
  let nUBuckets :=
    if nVersion ≠ 0 then (BitVec.ofInt 32 nUBuckets ^^^ BitVec.ofNat 32 (2 ^ 30)).toInt
    else nUBuckets
  if nNew > (ADDRMAN_NEW_BUCKET_COUNT * ADDRMAN_BUCKET_SIZE : Nat) then
    throw "Corrupt CAddrMan serialization, nNew exceeds limit."
  if nTried > (ADDRMAN_TRIED_BUCKET_COUNT * ADDRMAN_BUCKET_SIZE : Nat) then
    throw "Corrupt CAddrMan serialization, nTried exceeds limit."
  let usable : Bool := nVersion = 1 ∧ nUBuckets = ADDRMAN_NEW_BUCKET_COUNT
  let s := { s with nKey := nKey, nNew := nNew, nTried := nTried }
  let s ← (List.range nNew.toNat).foldlM (readNewEntry usable) s
  let s := { s with nIdCount := nNew }
  let (s, nLost) ← (List.range nTried.toNat).foldlM (fun s _ => readTriedEntry s) (s, 0)
  let s := { s with nTried := nTried - nLost }
  let s ← (List.range nUBuckets.toNat).foldlM (readBucket usable) s
  match s.prune with
  | some s => return s
  | none => throw "Assertion failed"

-- The manager reads what `t` writes.
def loadFrom (s t : CAddrMan) (nRnd : Uint256) : Option CAddrMan := do
  let data ← t.serialize
  match s.unserialize nRnd data with
  | .ok (s, _) => some s
  | .error _ => none

end

end CAddrMan

namespace AddrMan

inductive Op
  | add (addr : CAddress) (source : CNetAddr) (nTimePenalty nNow : Int) (nRnd : Nat)
  | good (addr : CService) (test_before_evict : Bool) (nTime : Int)
      (nRnd : Fin ADDRMAN_NEW_BUCKET_COUNT)
  | attempt (addr : CService) (fCountFailure : Bool) (nTime : Int)
  | connected (addr : CService) (nTime : Int)
  | setServices (addr : CService) (nServices : BitVec 64)
  | resolveCollisions (nNow : Int → Nat → Int) (nRnd : Int → Fin ADDRMAN_NEW_BUCKET_COUNT)
  | selectTriedCollision (nRnd : Nat)
  | select (newOnly : Bool) (draws : CAddrMan.SelectDraws)
  | getAddr (nNow : Int) (nRnd : Nat → Nat)
  | clear (nKey : Uint256)
  -- What the manager writes is read back, by itself or by a new manager.
  | reload (nRnd : Uint256)
  | reopen (nRnd : Uint256)

variable [AddrOps]

def perform (s : CAddrMan) : Op → Option CAddrMan
  | .add addr source nTimePenalty nNow nRnd => s.add addr source nTimePenalty nNow nRnd
  | .good addr test_before_evict nTime nRnd => s.good addr test_before_evict nTime nRnd
  | .attempt addr fCountFailure nTime => some (s.attempt addr fCountFailure nTime)
  | .connected addr nTime => some (s.connected addr nTime)
  | .setServices addr nServices => some (s.setServices addr nServices)
  | .resolveCollisions nNow nRnd => s.resolveCollisions nNow nRnd
  | .selectTriedCollision nRnd => some (s.selectTriedCollision nRnd).2
  | .select newOnly draws => (s.select newOnly draws).map fun _ => s
  | .getAddr nNow nRnd => (s.getAddr nNow nRnd).map Prod.snd
  | .clear nKey => some (s.clear nKey)
  | .reload nRnd => s.loadFrom s nRnd
  | .reopen nRnd => (CAddrMan.start nRnd).loadFrom s nRnd

end AddrMan

end Taler
