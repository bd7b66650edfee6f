import TalerModel.Validation.AddressInfo
import TalerModel.Validation.Theorems.Tip

namespace Taler.HistoryState

variable [Crypto] {s : HistoryState} {listed : Listing}

def Current (listed : Listing) (s : HistoryState) : Prop :=
  ∀ script info, s.historyCache script = some (s.height, info) →
    info = s.uncached listed script { total_max := info.total_max }

-- No height with cached entries lies ahead, and one limit is used for the present height.
def Meets (s : HistoryState) : HistoryCall → Prop
  | .tip call => ∀ script info, (s.tip call).historyCache script ≠ some ((s.tip call).height, info)
  | .getAddressInfo script total_max =>
    ∀ info, s.historyCache script = some (s.height, info) → info.total_max = total_max

-- The call, if it asks for a script, gives what is computed without the cache.
def Transparent (listed : Listing) (s : HistoryState) : HistoryCall → Prop
  | .tip _ => True
  | .getAddressInfo script total_max =>
    (s.getAddressInfo listed script { total_max := total_max }).1 =
      s.uncached listed script { total_max := total_max }

omit [Crypto] in
lemma uncached_total_max (script data) :
    (s.uncached listed script data).total_max = data.total_max := by
  refine List.foldlRecOn (motive := fun info : AddressInfo => info.total_max = data.total_max) _ _ rfl ?_
  intro info hi item _
  rw [← hi, AddressInfo.count]
  grind

lemma Current.transparent (h : s.Current listed) (hm : s.Meets call) :
    s.Transparent listed call := by
  cases call
  case tip => trivial
  case getAddressInfo script total_max =>
  rw [Transparent, getAddressInfo]
  split
  case h_2 => rfl
  case h_1 hei info hf =>
  obtain ⟨hc, rfl⟩ : _ ∧ hei = s.height := by simpa using hf
  rw [h script info hc, hm info hc]

lemma Current.after (h : s.Current listed) (hm : s.Meets call) :
    (s.after listed call).Current listed := by
  cases call
  case tip call => exact fun script info hc => absurd hc (hm script info)
  case getAddressInfo script total_max =>
  rw [HistoryState.after, getAddressInfo]
  split
  case h_1 => exact h
  case h_2 =>
  intro script' info hc
  by_cases he : script' = script
  · subst he
    simp only [Function.update_self, Option.some.injEq, Prod.mk.injEq] at hc
    rw [← hc.2, uncached_total_max]
    rfl
  simp only [Function.update_of_ne he] at hc
  refine h script' info ?_
  split at hc
  · exact (Option.filter_eq_some_iff.1 hc).1
  · exact hc

def MeetsAll (listed : Listing) (s : HistoryState) : List HistoryCall → Prop
  | [] => True
  | call :: calls => s.Meets call ∧ (s.after listed call).MeetsAll listed calls

def AllTransparent (listed : Listing) (s : HistoryState) : List HistoryCall → Prop
  | [] => True
  | call :: calls => s.Transparent listed call ∧ (s.after listed call).AllTransparent listed calls

lemma Current.allTransparent (h : s.Current listed) (hm : s.MeetsAll listed calls) :
    s.AllTransparent listed calls := by
  induction calls generalizing s
  case nil => trivial
  case cons call calls hi => exact ⟨h.transparent hm.1, hi (h.after hm.1) hm.2⟩

theorem getAddressInfo_transparent (node : TipState) (hm : MeetsAll listed { node } calls) :
    AllTransparent listed { node } calls :=
  Current.allTransparent nofun hm

section

omit [Crypto]

variable {only_unspent : Bool} {data : List (CAddressKey × CAddressValue)}

end

end Taler.HistoryState

namespace Taler

open HistoryState

section

local instance instCryptoLimits : Crypto :=
  .additive

def spentOuts : List COutPoint :=
  [{ hash := 1, n := 0 }, { hash := 1, n := 1 }]

def spentEntries (key : CAddressKey) : Option CAddressValue :=
  if key.script = [OP_1] ∧ key.out ∈ spentOuts
  then some { value := 5, height := 1, spend_height := 2 } else none

def spentNode : TipState :=
  { firstState with addressIndex := { cache := ∅, db := spentEntries } }

def spentListing : Listing := fun entries =>
  spentOuts.filterMap fun out => (entries out).map (out, ·)

theorem getAddressInfo_transparent_hit :
    AllTransparent spentListing { node := spentNode }
      [.getAddressInfo [OP_1] 1, .getAddressInfo [OP_1] 1] := by
  refine getAddressInfo_transparent spentNode ⟨nofun, fun info hc => ?_, trivial⟩
  cases hc
  exact uncached_total_max [OP_1] _

-- The second call is answered with what the first one has cut off.
theorem getAddressInfo_cut_off :
    ¬ AllTransparent spentListing { node := spentNode }
      [.getAddressInfo [OP_1] 1, .getAddressInfo [OP_1] (-1)] := by
  intro h
  have hd := congrArg (·.data.length) h.2.1
  revert hd
  decide +kernel

end

end Taler
