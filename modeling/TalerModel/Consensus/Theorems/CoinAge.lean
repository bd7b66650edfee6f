import TalerModel.Chain.Skip
import TalerModel.Consensus.Theorems.Amounts

namespace Taler

open Params List

variable {params : Params} {chainActive : CBlockIndex} {view : CCoinsViewCache} {vin : List CTxIn}
  {coin : Coin} {nTime : Int} {acc nCoinAge n : Nat}

-- The cent-seconds of a coin, and of the inputs of a transaction, over unbounded integers.
def agedCents (params : Params) (chainActive : CBlockIndex) (nTime : Int) (coin : Coin) : Int :=
  if coinTime chainActive coin + params.nStakeMinAge > nTime then 0
  else coin.out.nValue * (nTime - coinTime chainActive coin) / CENT

def agedSum (params : Params) (chainActive : CBlockIndex) (view : CCoinsViewCache) (nTime : Int)
    (vin : List CTxIn) : Int :=
  (vin.map fun txin => agedCents params chainActive nTime (view.accessCoin txin.prevout)).sum

-- The inputs are found, and their values, none of which is negative, sum up to an amount.
structure Spendable (view : CCoinsViewCache) (vin : List CTxIn) : Prop where
  found : ∀ txin ∈ vin, (view.getCoin txin.prevout).isSome
  nonneg : ∀ txin ∈ vin, 0 ≤ (view.accessCoin txin.prevout).out.nValue
  sum : inputSum view vin ≤ MAX_MONEY

lemma coinTime_nonneg (chainActive coin) : 0 ≤ coinTime chainActive coin := by
  rw [coinTime, CBlockIndex.getBlockTime]
  cases (getAncestor chainActive coin.nHeight).head?
  case none => exact le_refl 0
  case some b => exact Int.natCast_nonneg b.nTime

lemma centSeconds_eq (hp : 0 ≤ params.nStakeMinAge) (hv : 0 ≤ coin.out.nValue)
    (hm : coin.out.nValue ≤ MAX_MONEY) (ht : nTime < 2 ^ 32) :
    (centSeconds params chainActive coin nTime : Int) = agedCents params chainActive nTime coin := by
  have hz := coinTime_nonneg chainActive coin
  simp only [centSeconds, agedCents]
  split
  · rfl
  have hmax : MAX_MONEY < 2 ^ 64 := by decide
  have hdiff : 0 ≤ nTime - coinTime chainActive coin := by omega
  have hvalue : ((coin.out.nValue % 2 ^ 64).toNat : Int) = coin.out.nValue := by
    rw [Int.emod_eq_of_lt hv (hm.trans_lt hmax), Int.toNat_of_nonneg hv]
  have htime : (((nTime - coinTime chainActive coin) % 2 ^ 32).toNat : Int) =
      nTime - coinTime chainActive coin := by
    rw [Int.emod_eq_of_lt hdiff (by omega), Int.toNat_of_nonneg hdiff]
  have hfits : (coin.out.nValue % 2 ^ 64).toNat *
      ((nTime - coinTime chainActive coin) % 2 ^ 32).toNat < 2 ^ 256 := by
    have h1 : (coin.out.nValue % 2 ^ 64).toNat < 2 ^ 64 := by omega
    have h2 : ((nTime - coinTime chainActive coin) % 2 ^ 32).toNat < 2 ^ 32 := by omega
    calc (coin.out.nValue % 2 ^ 64).toNat * ((nTime - coinTime chainActive coin) % 2 ^ 32).toNat
      _ ≤ 2 ^ 64 * 2 ^ 32 := Nat.mul_le_mul (le_of_lt h1) (le_of_lt h2)
      _ < 2 ^ 256 := by decide
  rw [Nat.mod_eq_of_lt hfits, Int.natCast_ediv, Int.natCast_mul, hvalue, htime]
  rfl

lemma Spendable.tail (h : Spendable view (txin :: vin)) : Spendable view vin := by
  have hv := h.nonneg txin mem_cons_self
  have hs := h.sum
  rw [inputSum, map_cons, sum_cons] at hs
  exact ⟨fun t ht => h.found t (mem_cons_of_mem txin ht),
    fun t ht => h.nonneg t (mem_cons_of_mem txin ht), le_trans (by rw [inputSum]; linarith) hs⟩

lemma Spendable.inputSum_nonneg (h : Spendable view vin) : 0 ≤ inputSum view vin := by
  refine sum_nonneg fun v hv => ?_
  have ⟨txin, hm, he⟩ := mem_map.mp hv
  exact he ▸ h.nonneg txin hm

lemma Spendable.head_le (h : Spendable view (txin :: vin)) :
    (view.accessCoin txin.prevout).out.nValue ≤ MAX_MONEY := by
  have hs := h.sum
  have hrest := h.tail.inputSum_nonneg
  rw [inputSum, map_cons, sum_cons] at hs
  rw [inputSum] at hrest
  linarith

section

variable (hp : 0 ≤ params.nStakeMinAge) (h : Spendable view vin) (ht : nTime < 2 ^ 32)
include hp h ht

lemma Spendable.agedSum_le :
    0 ≤ agedSum params chainActive view nTime vin ∧
      agedSum params chainActive view nTime vin ≤ 4295 * inputSum view vin := by
  induction vin
  case nil => exact ⟨le_refl 0, le_refl 0⟩
  case cons txin vin hi =>
  have ⟨hl, hu⟩ := hi h.tail
  have hv := h.nonneg txin mem_cons_self
  have he := @centSeconds_eq params chainActive _ nTime hp hv h.head_le ht
  have hle := @centSeconds_le params chainActive nTime _ hv
  rw [agedSum] at hl hu ⊢
  rw [inputSum] at hu ⊢
  rw [map_cons, sum_cons, map_cons, sum_cons]
  exact ⟨by linarith, by linarith⟩

lemma Spendable.sumCentSeconds_eq (hacc : (acc : Int) + 4295 * inputSum view vin < 2 ^ 256) :
    ∃ r, sumCentSeconds params chainActive view nTime acc vin = some r ∧
      (r : Int) = acc + agedSum params chainActive view nTime vin := by
  induction vin generalizing acc
  case nil => exact ⟨acc, rfl, (add_zero _).symm⟩
  case cons txin vin hi =>
  obtain ⟨coin, hcoin⟩ := Option.isSome_iff_exists.mp (h.found txin mem_cons_self)
  have haccess := accessCoin_of_getCoin hcoin
  have hv := h.nonneg txin mem_cons_self
  have hm := h.head_le
  have hrest := h.tail.inputSum_nonneg
  rw [haccess] at hv hm
  have he := @centSeconds_eq params chainActive coin nTime hp hv hm ht
  have hle := @centSeconds_le params chainActive nTime coin hv
  have hs : inputSum view (txin :: vin) = coin.out.nValue + inputSum view vin := by
    simp [inputSum, haccess]
  have hfits : acc + centSeconds params chainActive coin nTime < 2 ^ 256 := by
    have : ((acc + centSeconds params chainActive coin nTime : Nat) : Int) < 2 ^ 256 := by
      push_cast
      linarith
    exact_mod_cast this
  obtain ⟨r, hr, hval⟩ := @hi (acc + centSeconds params chainActive coin nTime) h.tail
    (by push_cast; linarith)
  refine ⟨r, ?_, ?_⟩
  · rw [sumCentSeconds, hcoin]
    dsimp only
    rw [Nat.mod_eq_of_lt hfits, hr]
  have hcons : agedSum params chainActive view nTime (txin :: vin) =
      agedCents params chainActive nTime coin + agedSum params chainActive view nTime vin := by
    simp [agedSum, haccess]
  rw [hval, hcons, ← he]
  push_cast
  ring

end

lemma coinAge_bound (hs : (n : Int) ≤ 4295 * MAX_MONEY)
    (he : nCoinAge = n * 1000000 / 100000000 / 86400) :
    (nCoinAge : Int) * 86400 * 100 ≤ 4295 * MAX_MONEY := by
  have hle : nCoinAge * 86400 * 100 ≤ n := by omega
  linarith

lemma getCoinAge_exact {tx : CTransaction} (hb : tx.isCoinBase = false)
    (h : Spendable view tx.vin) (ht : nTime < 2 ^ 32) :
    ∃ nCoinAge, getCoinAge mainNet chainActive tx view nTime = some nCoinAge ∧
      (nCoinAge : Int) = agedSum mainNet chainActive view nTime tx.vin * CENT / COIN /
        mainNet.nCoinAgeTick ∧
      (nCoinAge : Int) * 86400 * 100 ≤ 4295 * MAX_MONEY := by
  have hmin : (0 : Int) ≤ mainNet.nStakeMinAge := by decide
  have hs := h.sum
  have hmax : (4295 * MAX_MONEY : Int) < 2 ^ 64 := by decide
  have ⟨r, hr, hval⟩ := @Spendable.sumCentSeconds_eq _ chainActive _ _ _ 0 hmin h ht (by
    rw [Nat.cast_zero]
    linarith)
  have ⟨_, hu⟩ := @Spendable.agedSum_le _ chainActive _ _ _ hmin h ht
  rw [Nat.cast_zero, zero_add] at hval
  have hrle : (r : Int) ≤ 4295 * MAX_MONEY := by linarith
  have hage : getCoinAge mainNet chainActive tx view nTime =
      some (r * 1000000 / 100000000 / 86400) := by
    have hw1 : r * 1000000 % 2 ^ 256 = r * 1000000 := Nat.mod_eq_of_lt (by omega)
    have hw2 : r * 1000000 / 100000000 / 86400 % 2 ^ 64 = r * 1000000 / 100000000 / 86400 :=
      Nat.mod_eq_of_lt (by omega)
    have hc : CENT.toNat = 1000000 := rfl
    have hC : COIN.toNat = 100000000 := rfl
    have ht : mainNet.nCoinAgeTick.toNat = 86400 := rfl
    rw [getCoinAge, hb, hr]
    simp only [Bool.false_eq_true, if_false, Option.map_some, hc, hC, ht, hw1, hw2]
  refine ⟨_, hage, ?_, coinAge_bound hrle rfl⟩
  rw [← hval]
  rfl

lemma exactReward_mono (h : a ≤ b) (n) : exactReward mainNet a n ≤ exactReward mainNet b n := by
  refine mul_le_mul_of_nonneg_right ?_ (rewardCoinYear_le mainNet_sane n).1
  exact_mod_cast Nat.div_le_div_right (Nat.mul_le_mul_right 33 h)

lemma getProofOfStakeReward_of_bound
    (h : (nCoinAge : Int) * 86400 * 100 ≤ 4295 * MAX_MONEY) (n) :
    (getProofOfStakeReward mainNet (wrap64 nCoinAge) n).val = exactReward mainNet nCoinAge n ∧
      (getProofOfStakeReward mainNet (wrap64 nCoinAge) n).Fits FitsInt64 := by
  have hage : nCoinAge ≤ 2 * 10 ^ 14 := by
    simp only [MAX_MONEY, COIN] at h
    omega
  obtain ⟨hval, hfits⟩ := getProofOfStakeReward_exact mainNet_sane n hage
  have hlt := exactReward_lt h n
  have hz := exactReward_nonneg mainNet_sane nCoinAge n
  exact ⟨hval.trans (wrap64_eq ⟨by linarith, hlt⟩), hfits.mpr hlt⟩

-- The coin age is exact, nothing overflows up to the reward, and that grows with the coin age.
theorem coinAge_and_reward_exact {tx : CTransaction} (hb : tx.isCoinBase = false)
    (h : Spendable view tx.vin) (ht : 0 ≤ nTime ∧ nTime < 2 ^ 32)
    (hc : ∀ b ∈ chainActive, b.nTime < 2 ^ 32) (hn : n < 2 ^ 28) :
    ∃ nCoinAge, getCoinAge mainNet chainActive tx view nTime = some nCoinAge ∧
      (nCoinAge : Int) = agedSum mainNet chainActive view nTime tx.vin * CENT / COIN /
        mainNet.nCoinAgeTick ∧
      (∀ txin ∈ tx.vin, FitsInt64 (coinTime chainActive (view.accessCoin txin.prevout) +
        mainNet.nStakeMinAge)) ∧
      wrap64 nCoinAge = nCoinAge ∧
      halvingHeight mainNet n < 2 ^ 31 ∧
      (getCoinSupply mainNet n).Fits FitsInt64 ∧
      (getProofOfStakeBlockSubsidy mainNet n).Fits FitsInt64 ∧
      (getProofOfStakeReward mainNet nCoinAge n).Fits FitsInt64 ∧
      0 ≤ (getProofOfStakeReward mainNet nCoinAge n).val ∧
      ∀ a : Nat, a ≤ nCoinAge → (getProofOfStakeReward mainNet a n).val ≤
        (getProofOfStakeReward mainNet nCoinAge n).val := by
  obtain ⟨nCoinAge, hage, hexact, hbound⟩ := @getCoinAge_exact chainActive view nTime tx hb h ht.2
  have hwrap {a : Nat} (ha : (a : Int) * 86400 * 100 ≤ 4295 * MAX_MONEY) : wrap64 a = a := by
    refine wrap64_eq ⟨by omega, ?_⟩
    simp only [MAX_MONEY, COIN] at ha
    omega
  obtain ⟨hval, hfits⟩ := getProofOfStakeReward_of_bound hbound n
  rw [hwrap hbound] at hval hfits
  refine ⟨nCoinAge, hage, hexact, fun txin _ => ?_, hwrap hbound, ?_,
    (getCoinSupply_ge mainNet_sane n).2,
    (getProofOfStakeBlockSubsidy_le mainNet_sane n).2.2, hfits, ?_, fun a ha => ?_⟩
  · have hz := coinTime_nonneg chainActive (view.accessCoin txin.prevout)
    have hlt : coinTime chainActive (view.accessCoin txin.prevout) < 2 ^ 32 := by
      rw [coinTime, CBlockIndex.getBlockTime]
      cases hhead : (getAncestor chainActive (view.accessCoin txin.prevout).nHeight).head?
      case none => decide
      case some b =>
      have hmem := (getAncestor_isSuffix chainActive _).subset (mem_of_mem_head? hhead)
      exact_mod_cast hc b hmem
    have hage : mainNet.nStakeMinAge = 172800 := rfl
    exact ⟨by omega, by omega⟩
  · have hT : mainNet.TLRHeight = 130000 := rfl
    rw [halvingHeight, hT]
    omega
  · rw [hval]
    exact exactReward_nonneg mainNet_sane nCoinAge n
  have hsmall : (a : Int) * 86400 * 100 ≤ 4295 * MAX_MONEY := by omega
  obtain ⟨hvala, _⟩ := getProofOfStakeReward_of_bound hsmall n
  rw [hwrap hsmall] at hvala
  rw [hval, hvala]
  exact exactReward_mono ha n

def agedCoin : Coin where
  out := { nValue := 1000 * COIN, scriptPubKey := [] }
  nHeight := 0
  fCoinBase := false

def agedOutPoint : COutPoint where
  hash := 1
  n := 0

def agedBase : CCoinsView where
  getCoin := fun o => if o = agedOutPoint then some agedCoin else none
  getBestBlock := 0
  finite := by
    refine (Set.finite_singleton agedOutPoint).subset fun o ho => ?_
    by_contra hne
    exact ho (if_neg hne)

def agedView : CCoinsViewCache :=
  .onto agedBase

def agedStake : CTransaction where
  vin := [{ prevout := agedOutPoint }]
  vout := []
  hash := 2
  witnessHash := 2

lemma agedStake_spendable : Spendable agedView agedStake.vin :=
  ⟨by decide +kernel, by decide +kernel, by decide +kernel⟩

theorem coinAge_and_reward_aged : ∃ nCoinAge,
    getCoinAge mainNet [] agedStake agedView 8640000 = some nCoinAge ∧
      0 ≤ (getProofOfStakeReward mainNet nCoinAge 200000).val := by
  have ⟨nCoinAge, hage, _, _, _, _, _, _, _, hz, _⟩ :=
    @coinAge_and_reward_exact [] agedView 8640000 200000 agedStake (by decide) agedStake_spendable
      ⟨by decide, by decide⟩ (fun _ hb => absurd hb not_mem_nil) (by decide)
  exact ⟨nCoinAge, hage, hz⟩

end Taler
