import TalerModel.Validation.Tip

namespace Taler

structure AddressInfo where
  receive_amount : CAmount := 0
  send_amount : CAmount := 0
  total_in : Int := 0
  total_out : Int := 0
  total_max : Int := -1
  data : List (CAddressKey × CAddressValue) := []
  deriving DecidableEq, Repr

namespace AddressInfo

-- One round of the loop. A spent entry is only listed while there are at most `total_max`.
def count (info : AddressInfo) (item : CAddressKey × CAddressValue) : AddressInfo :=
  let spent := item.2.spend_height ≠ 0
  let info := { info with
    total_in := info.total_in + 1
    receive_amount := wrap64 (info.receive_amount + item.2.value) }
  let info := if spent then { info with
    total_out := info.total_out + 1
    send_amount := wrap64 (info.send_amount + item.2.value) } else info
  if spent ∧ 0 < info.total_max ∧ info.total_max < info.total_out then info
  else { info with data := info.data ++ [item] }

def compute (retmap : List (CAddressKey × CAddressValue)) (data : AddressInfo) : AddressInfo :=
  (retmap.insertionSort fun l r => l.2.height ≥ r.2.height).foldl count
    { data with receive_amount := 0, send_amount := 0, total_in := 0, total_out := 0 }

end AddressInfo

abbrev HistoryCache := CScript → Option (Int × AddressInfo)

def cleanAddressInfo (hei : Int) (historyCache : HistoryCache) : HistoryCache :=
  fun script => (historyCache script).filter fun item => item.1 = hei

-- The entries that `Read` finds, in the order of their outpoints.
abbrev Listing := (COutPoint → Option CAddressValue) → List (COutPoint × CAddressValue)

structure HistoryState where
  node : TipState
  historyCache : HistoryCache := fun _ => none

namespace HistoryState

variable (listed : Listing) (s : HistoryState)

def height : Int :=
  s.node.chainActive.length - 1

def uncached (script : CScript) (data : AddressInfo) : AddressInfo :=
  let retmap := (listed (s.node.addressIndex.scan script)).map fun item =>
    (⟨script, item.1⟩, item.2)
  data.compute retmap

def getAddressInfo (script : CScript) (data : AddressInfo) : AddressInfo × HistoryState :=
  let item := s.historyCache script
  match item.filter (·.1 = s.height) with
  | some (_, info) => (info, s)
  | none =>
    let historyCache :=
      if item.isSome then cleanAddressInfo s.height s.historyCache else s.historyCache
    let data := s.uncached listed script data
    (data, { s with historyCache := Function.update historyCache script (s.height, data) })

end HistoryState

namespace HistoryState

variable (listed : Listing) (s : HistoryState) (only_unspent : Bool)

def time (height : Nat) : Option Nat :=
  s.node.chainActive.reverse[height]?.map (·.nTime)

end HistoryState

inductive HistoryCall
  | tip (call : TipCall)
  | getAddressInfo (script : CScript) (total_max : Int)

variable [Crypto]

-- A call that fails leaves what it has done. A flush cleans the cache up at height 0.
def HistoryState.tip (s : HistoryState) (call : TipCall) : HistoryState where
  node := (call.step s.node).final
  historyCache :=
    match call.action with
    | .flushStateToDisk _ => cleanAddressInfo 0 s.historyCache
    | _ => s.historyCache

def HistoryState.after (listed : Listing) (s : HistoryState) : HistoryCall → HistoryState
  | .tip call => s.tip call
  | .getAddressInfo script total_max =>
    (s.getAddressInfo listed script { total_max := total_max }).2

end Taler
