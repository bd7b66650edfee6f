import Mathlib.Algebra.BigOperators.Intervals
import TalerModel.Consensus.Subsidy
import TalerModel.Consensus.TxInputs
import Mathlib.Tactic.Linarith
import Mathlib.Tactic.Positivity

namespace Taler

open Traced Int Finset

lemma fitsInt64_of_le (hl : 0 ≤ n) (hu : n ≤ 2 * MAX_MONEY) : FitsInt64 n := by
  simp only [MAX_MONEY, COIN] at hu
  constructor <;> linarith

def outputSum (vout : List CTxOut) : Int :=
  (vout.map CTxOut.nValue).sum

structure OutputsInRange (n : CAmount) (vout : List CTxOut) : Prop where
  nonneg : ∀ out ∈ vout, 0 ≤ out.nValue
  sum : n + outputSum vout ≤ MAX_MONEY
  fits : (checkOutputs n vout).Fits FitsInt64

lemma outputSum_nonneg (h : ∀ out ∈ vout, 0 ≤ out.nValue) : 0 ≤ outputSum vout := by
  apply List.sum_nonneg
  intro v hv
  have ⟨out, hm, he⟩ := List.mem_map.mp hv
  exact he ▸ h out hm

lemma checkOutputs_inRange (hn : 0 ≤ n) (hm : n ≤ MAX_MONEY)
    (h : (checkOutputs n vout).val = .ok ()) : OutputsInRange n vout := by
  induction vout generalizing n
  case nil => exact ⟨by simp, by simpa [outputSum] using hm, by simp [checkOutputs]⟩
  case cons out rest hi =>
  simp only [checkOutputs] at h
  split at h
  · cases h
  rename_i hl
  split at h
  · cases h
  rename_i hu
  have hf : FitsInt64 (n + out.nValue) := fitsInt64_of_le (by linarith) (by linarith)
  simp only [bind_val, amount_val, wrap64_eq hf] at h
  split at h
  · cases h
  rename_i hr
  have hr := moneyRange_iff.mp (by simpa using hr)
  obtain ⟨h1, h2, h3⟩ := hi hr.1 hr.2 h
  constructor
  case nonneg => exact List.forall_mem_cons.mpr ⟨by linarith, h1⟩
  case sum => simpa [outputSum, add_assoc] using h2
  case fits =>
  have hc := moneyRange_iff.mpr hr
  simp only [checkOutputs, hl, hu, if_false, bind_fits, amount_val, wrap64_eq hf, hc]
  exact ⟨by simpa [Traced.Fits] using hf, h3⟩

lemma getValueOut_go (hn : 0 ≤ n) (h : ∀ out ∈ vout, 0 ≤ out.nValue)
    (hs : n + outputSum vout ≤ MAX_MONEY) :
    (CTransaction.getValueOut.go n vout).val = some (n + outputSum vout) ∧
    (CTransaction.getValueOut.go n vout).Fits FitsInt64 := by
  induction vout generalizing n
  case nil => simp [CTransaction.getValueOut.go, outputSum]
  case cons out rest hi =>
  have ⟨ho, hr⟩ := List.forall_mem_cons.mp h
  have hp := outputSum_nonneg hr
  have he : outputSum (out :: rest) = out.nValue + outputSum rest := by simp [outputSum]
  rw [he] at hs ⊢
  have hf : FitsInt64 (n + out.nValue) := fitsInt64_of_le (by linarith) (by linarith)
  have hc1 := moneyRange_iff.mpr ⟨ho, by linarith⟩
  have hc2 : moneyRange (n + out.nValue) := moneyRange_iff.mpr ⟨by linarith, by linarith⟩
  have ⟨hv, hfs⟩ := hi (n := n + out.nValue) (by linarith) hr (by linarith)
  simp only [CTransaction.getValueOut.go, bind_val, bind_fits, amount_val,
    wrap64_eq hf, hc1, hc2, Bool.not_true, Bool.or_self, Bool.false_eq_true, if_false]
  exact ⟨by rw [hv, add_assoc], by simpa [Traced.Fits] using hf, hfs⟩

lemma getValueOut_eq {tx : CTransaction} (h : OutputsInRange 0 tx.vout) :
    tx.getValueOut.val = some (outputSum tx.vout) ∧ tx.getValueOut.Fits FitsInt64 := by
  simpa [CTransaction.getValueOut] using getValueOut_go (le_refl 0) h.nonneg h.sum

section

variable {params : Params} {chainActive : CBlockIndex} {view : CCoinsViewCache} {height : Nat}
  {time : Int}

def inputSum (view : CCoinsViewCache) (vin : List CTxIn) : Int :=
  (vin.map fun txin => (view.accessCoin txin.prevout).out.nValue).sum

structure InputsInRange (params : Params) (view : CCoinsViewCache) (height : Nat) (n : CAmount)
    (vin : List CTxIn) : Prop where
  coins : ∀ txin ∈ vin, 0 ≤ (view.accessCoin txin.prevout).out.nValue ∧
    spendsImmature params (view.accessCoin txin.prevout) height = false
  sum : n + inputSum view vin ≤ MAX_MONEY

lemma checkInputValues_inRange (hn : 0 ≤ n) (hm : n ≤ MAX_MONEY)
    (h : (checkInputValues params chainActive view height time n vin).val = .ok v) :
    InputsInRange params view height n vin ∧ v = n + inputSum view vin ∧
    (checkInputValues params chainActive view height time n vin).Fits FitsInt64 := by
  induction vin generalizing n
  case nil =>
    simp only [checkInputValues, pure_val, Except.ok.injEq] at h
    subst h
    exact ⟨⟨by simp, by simpa [inputSum] using hm⟩, by simp [inputSum], by simp [checkInputValues]⟩
  case cons txin vin hi =>
  simp only [checkInputValues] at h ⊢
  split at h
  · nomatch h
  rename_i hs
  split at h
  · nomatch h
  rename_i hi1
  split at h
  · nomatch h
  rename_i hi2
  rw [bind_val] at h
  split at h
  · nomatch h
  rename_i hr
  simp only [Bool.or_eq_true, Bool.not_eq_true', not_or, Bool.not_eq_false, amount_val] at h hr
  have hc := moneyRange_iff.mp hr.1
  have hf : FitsInt64 (n + (view.accessCoin txin.prevout).out.nValue) :=
    fitsInt64_of_le (by linarith) (by linarith)
  have hr2 := hr.2
  rw [wrap64_eq hf] at h hr2
  have hr3 := moneyRange_iff.mp hr2
  have ⟨⟨h1, h2⟩, h3, h4⟩ := hi hr3.1 hr3.2 h
  have he : inputSum view (txin :: vin) =
      (view.accessCoin txin.prevout).out.nValue + inputSum view vin := by simp [inputSum]
  refine ⟨⟨List.forall_mem_cons.mpr ⟨⟨hc.1, by simpa using hi1⟩, h1⟩, ?_⟩, ?_, ?_⟩
  · rw [he]; linarith
  · rw [he]; linarith
  simp only [hs, hi1, hi2, if_false, bind_fits, amount_val, wrap64_eq hf,
    hr.1, hr2, Bool.not_true, Bool.or_self, Bool.false_eq_true]
  exact ⟨by simpa [Traced.Fits] using hf, h4⟩

structure Paid (params : Params) (view : CCoinsViewCache) (height : Nat) (tx : CTransaction)
    (fee : CAmount) : Prop where
  found : view.haveInputs tx
  inputs : InputsInRange params view height 0 tx.vin
  eq : fee = inputSum view tx.vin - outputSum tx.vout
  nonneg : 0 ≤ fee
  le : fee ≤ MAX_MONEY

lemma checkFee_eq {tx : CTransaction} (ho : OutputsInRange 0 tx.vout) (hn : n ≤ MAX_MONEY)
    (h : (checkFee tx n).val = .ok fee) :
    fee = n - outputSum tx.vout ∧ 0 ≤ fee ∧ (checkFee tx n).Fits FitsInt64 := by
  obtain ⟨hv, hf⟩ := getValueOut_eq ho
  have hp := outputSum_nonneg ho.nonneg
  simp only [checkFee, bind_val, bind_fits, hv] at h ⊢
  split at h
  · cases h
  rename_i hl
  have hs : FitsInt64 (n - outputSum tx.vout) := fitsInt64_of_le (by linarith) (by linarith)
  have hm : moneyRange (n - outputSum tx.vout) := moneyRange_iff.mpr ⟨by linarith, by linarith⟩
  rw [if_neg hl]
  simp only [bind_val, bind_fits, amount_val, wrap64_eq hs, hm, Bool.not_true,
    Bool.false_eq_true, if_false, pure_val, pure_fits, and_true,
    Except.ok.injEq] at h ⊢
  exact ⟨h.symm, by linarith, hf, by simpa [Traced.Fits] using hs⟩

lemma checkTxInputs_paid (ho : OutputsInRange 0 tx.vout)
    (h : (checkTxInputs params chainActive tx view height time).val = .ok fee) :
    Paid params view height tx fee ∧
    (checkTxInputs params chainActive tx view height time).Fits FitsInt64 := by
  simp only [checkTxInputs] at h ⊢
  split at h
  · cases h
  rename_i hi
  rw [if_neg hi]
  simp only [bind_val, bind_fits] at h ⊢
  cases hc : (checkInputValues params chainActive view height time 0 tx.vin).val
  case error => simp [hc] at h
  rename_i n
  obtain ⟨hr, hn, hf⟩ := checkInputValues_inRange (le_refl 0) (by simp [MAX_MONEY, COIN]) hc
  simp only [hc] at h ⊢
  have hm : n ≤ MAX_MONEY := by linarith [hr.sum]
  obtain ⟨he, hp, hff⟩ := checkFee_eq ho hm h
  have hs := outputSum_nonneg ho.nonneg
  exact ⟨⟨by simpa using hi, hr, by linarith, hp, by linarith⟩, hf, hff⟩

lemma accessCoin_of_getCoin (h : view.getCoin o = some coin) : view.accessCoin o = coin := by
  have ⟨hm, _⟩ := Option.filter_eq_some_iff.mp h
  rw [CCoinsViewCache.accessCoin, hm, Option.getD_some]

end

section

variable {params : Params}

lemma shiftRight_le {n : Int} (h : 0 ≤ n) (k : Nat) : 0 ≤ n >>> k ∧ n >>> k ≤ n := by
  rw [shiftRight_eq_div_pow]
  exact ⟨ediv_nonneg h (by positivity), ediv_le_self _ h⟩

lemma fullSubsidy_le (n) : 0 ≤ (fullSubsidy params n).val ∧ (fullSubsidy params n).val ≤ 50 * COIN ∧
    (fullSubsidy params n).Fits FitsInt64 := by
  simp only [fullSubsidy]
  split <;> decide +kernel

lemma getBlockSubsidy_le (n : Nat) :
    0 ≤ (getBlockSubsidy params n).val ∧ (getBlockSubsidy params n).val ≤ MAX_MONEY ∧
    (n ≠ 1 → (getBlockSubsidy params n).val ≤ 50 * COIN) ∧
    (getBlockSubsidy params n).Fits FitsInt64 := by
  simp only [getBlockSubsidy]
  split
  case isTrue hn => exact ⟨by decide, by decide, by simp [hn], by simp⟩
  have ⟨hl, hu, hf⟩ := @fullSubsidy_le params n
  have ⟨hl', hu'⟩ := shiftRight_le hl
    (halvingHeight params n / params.nSubsidyHalvingInterval)
  have hc : 50 * COIN ≤ MAX_MONEY := by decide
  simp only [bind_val, pure_val, bind_fits, pure_fits, and_true]
  split
  · exact ⟨le_refl 0, by decide, fun _ => by decide, hf⟩
  · exact ⟨hl', by linarith, fun _ => by linarith, hf⟩

def halvedSum (interval m : Nat) (subsidy : Int) : Int :=
  ∑ j ∈ range m, subsidy >>> (j / interval)

lemma halvedSum_of_le {interval m : Nat} {subsidy : Int} (hm : m ≤ interval) :
    halvedSum interval m subsidy = subsidy * m := by
  have hterm : ∀ j ∈ Finset.range m, subsidy >>> (j / interval) = subsidy := fun j hj => by
    have hlt : j < interval := (mem_range.mp hj).trans_le hm
    rw [Nat.div_eq_of_lt hlt, shiftRight_zero]
  rw [halvedSum, sum_congr rfl hterm, sum_const, card_range, nsmul_eq_mul, mul_comm]

lemma halvedSum_add (hi : 0 < interval) (m subsidy) : halvedSum interval (interval + m) subsidy =
      subsidy * interval + halvedSum interval m (subsidy >>> (1 : Nat)) := by
  have hterm : ∀ j ∈ Finset.range m, subsidy >>> ((interval + j) / interval) =
      (subsidy >>> (1 : Nat)) >>> (j / interval) := fun j _ => by
    rw [Nat.add_div_left j hi, ← shiftRight_add, Nat.add_comm 1]
  have hfirst := @halvedSum_of_le interval interval subsidy (le_refl interval)
  rw [halvedSum] at hfirst
  rw [halvedSum, sum_range_add, hfirst, sum_congr rfl hterm, halvedSum]

lemma halvedSum_succ (interval m subsidy) :
    halvedSum interval (m + 1) subsidy = halvedSum interval m subsidy + subsidy >>> (m / interval) := by
  rw [halvedSum, sum_range_succ, halvedSum]

lemma halvedSum_nonneg {subsidy : Int} (hn : 0 ≤ subsidy) (interval m : Nat) :
    0 ≤ halvedSum interval m subsidy :=
  sum_nonneg fun j _ => (shiftRight_le hn (j / interval)).1

lemma getCoinSupply_finish {n interval : Nat} {supply subsidy : Int} (hs : 0 ≤ supply)
    (hn : 0 ≤ subsidy) (h : n ≤ interval) (hb : supply + 2 * (subsidy * interval) ≤ 2 ^ 62) :
    (getCoinSupply.finish n supply subsidy).val = supply + halvedSum interval n subsidy ∧
    (getCoinSupply.finish n supply subsidy).Fits FitsInt64 := by
  have hp : 0 ≤ subsidy * (n : Int) := mul_nonneg hn (by positivity)
  have hm : subsidy * (n : Int) ≤ subsidy * interval := mul_le_mul_of_nonneg_left (by omega) hn
  have hf1 : FitsInt64 (subsidy * n) := ⟨by linarith, by linarith⟩
  have hf2 : FitsInt64 (supply + subsidy * n) := ⟨by linarith, by linarith⟩
  simp only [getCoinSupply.finish, bind_val, amount_val, wrap64_eq hf1, wrap64_eq hf2,
    bind_fits, halvedSum_of_le h]
  exact ⟨trivial, by simpa [Traced.Fits] using hf1, by simpa [Traced.Fits] using hf2⟩

lemma getCoinSupply_go {supply subsidy : Int} (hs : 0 ≤ supply) (hn : 0 ≤ subsidy)
    (hi : 0 < params.nSubsidyHalvingInterval)
    (hf : n < (fuel + 1) * params.nSubsidyHalvingInterval)
    (hb : supply + 2 * (subsidy * params.nSubsidyHalvingInterval) ≤ 2 ^ 62) :
    (getCoinSupply.go params fuel n supply subsidy).val =
      supply + halvedSum params.nSubsidyHalvingInterval n subsidy ∧
    (getCoinSupply.go params fuel n supply subsidy).Fits FitsInt64 := by
  induction fuel generalizing n supply subsidy
  case zero => exact getCoinSupply_finish hs hn (by omega) hb
  case succ fuel ih =>
  simp only [getCoinSupply.go]
  split
  case isFalse => exact getCoinSupply_finish hs hn (by omega) hb
  rename_i hl
  have hp : 0 ≤ subsidy * (params.nSubsidyHalvingInterval : Int) := mul_nonneg hn (by positivity)
  have hf1 : FitsInt64 (subsidy * params.nSubsidyHalvingInterval) := ⟨by linarith, by linarith⟩
  have hf2 : FitsInt64 (supply + subsidy * params.nSubsidyHalvingInterval) :=
    ⟨by linarith, by linarith⟩
  -- What the next interval adds is at most half of what this one adds.
  have hh : (2 : Int) * ((subsidy >>> (1 : Nat)) * params.nSubsidyHalvingInterval) ≤
      subsidy * params.nSubsidyHalvingInterval := by
    rw [← mul_assoc]
    refine mul_le_mul_of_nonneg_right ?_ (by positivity)
    rw [shiftRight_eq_div_pow]
    exact mul_ediv_self_le (by norm_num)
  have hlt : n - params.nSubsidyHalvingInterval < (fuel + 1) * params.nSubsidyHalvingInterval := by
    have he : (fuel + 1 + 1) * params.nSubsidyHalvingInterval =
      (fuel + 1) * params.nSubsidyHalvingInterval + params.nSubsidyHalvingInterval := by ring
    omega
  have hsum := halvedSum_add hi (n - params.nSubsidyHalvingInterval) subsidy
  rw [Nat.add_sub_cancel' (Nat.le_of_lt hl)] at hsum
  have ⟨hv, hf'⟩ := ih (by linarith : 0 ≤ supply + subsidy * params.nSubsidyHalvingInterval)
    (shiftRight_le hn 1).1 hlt (by linarith)
  simp only [bind_val, amount_val, wrap64_eq hf1, wrap64_eq hf2, bind_fits]
  refine ⟨?_, by simpa [Traced.Fits] using hf1, by simpa [Traced.Fits] using hf2, hf'⟩
  rw [hv, hsum]
  ring

-- What the exact stake reward needs of the parameters, apart from its last product.
structure Params.Sane (params : Params) : Prop where
  interval : 0 < params.nSubsidyHalvingInterval ∧ params.nSubsidyHalvingInterval ≤ 2 ^ 22
  TLRHeight : 1 < params.TLRHeight
  tick : 600 ≤ params.nCoinAgeTick

lemma Params.mainNet_sane : Params.mainNet.Sane := by
  constructor <;> decide

lemma Params.testNet_sane : Params.testNet.Sane := by
  constructor <;> decide

section

variable (hp : params.Sane) (n : Nat)
include hp n

lemma getCoinSupply_eq :
    (getCoinSupply params n).val = 2333283 * COIN +
      halvedSum params.nSubsidyHalvingInterval (halvingHeight params n) (10 * COIN) ∧
    (getCoinSupply params n).Fits FitsInt64 := by
  have ⟨hi, hi'⟩ := hp.interval
  have hc : (2333333 * COIN - 50 * COIN : Int) = 2333283 * COIN := by decide
  refine getCoinSupply_go (by decide) (by decide) hi ?_ ?_
  · rw [Nat.add_mul, Nat.one_mul]
    exact Nat.lt_div_mul_add hi
  simp only [COIN]
  linarith

lemma getCoinSupply_ge :
    2333283 * COIN ≤ (getCoinSupply params n).val ∧ (getCoinSupply params n).Fits FitsInt64 := by
  have ⟨hv, hf⟩ := getCoinSupply_eq hp n
  have hz := halvedSum_nonneg (by decide : (0 : Int) ≤ 10 * COIN) params.nSubsidyHalvingInterval
    (halvingHeight params n)
  exact ⟨by linarith, hf⟩

lemma getProofOfStakeBlockSubsidy_le :
    0 ≤ (getProofOfStakeBlockSubsidy params n).val ∧
    (getProofOfStakeBlockSubsidy params n).val ≤ 2142857143 ∧
    (getProofOfStakeBlockSubsidy params n).Fits FitsInt64 := by
  simp only [getProofOfStakeBlockSubsidy]
  split
  · simp
  rename_i hf
  have ht := hp.TLRHeight
  have hn : n ≠ 1 := by
    rintro rfl
    apply hf
    simp only [Params.forkNumber, if_neg (by omega : ¬1 ≥ params.TLRHeight)]
    split <;> omega
  obtain ⟨hl, _, hu, hfs⟩ := @getBlockSubsidy_le params n
  have hu := hu hn
  simp only [COIN] at hu
  have hfm : FitsInt64 ((getBlockSubsidy params n).val * 30) := ⟨by linarith, by linarith⟩
  simp only [bind_val, pure_val, bind_fits, pure_fits, and_true, amount_val, wrap64_eq hfm]
  rw [Int.tdiv_eq_ediv_of_nonneg (by linarith)]
  refine ⟨Int.ediv_nonneg (by linarith) (by norm_num), ?_, hfs, by simpa [Traced.Fits] using hfm⟩
  exact Int.ediv_le_of_le_mul (by norm_num) (by linarith)

lemma rewardCoinYear_le :
    0 ≤ (rewardCoinYear params n).val ∧ (rewardCoinYear params n).val ≤ 482704327 ∧
    (rewardCoinYear params n).Fits FitsInt64 := by
  have ⟨hl, hu, hf⟩ := getProofOfStakeBlockSubsidy_le hp n
  have ⟨hs, hfs⟩ := getCoinSupply_ge hp n
  have hy : FitsInt64 ((getProofOfStakeBlockSubsidy params n).val * 525600) :=
    ⟨by linarith, by linarith⟩
  have hc : (0 : Int) < COIN := by decide
  have hq : ((getProofOfStakeBlockSubsidy params n).val * 525600).tdiv COIN =
      (getProofOfStakeBlockSubsidy params n).val * 525600 / COIN :=
    Int.tdiv_eq_ediv_of_nonneg (by linarith)
  have hq0 : 0 ≤ (getProofOfStakeBlockSubsidy params n).val * 525600 / COIN :=
    Int.ediv_nonneg (by linarith) hc.le
  have hq1 : (getProofOfStakeBlockSubsidy params n).val * 525600 / COIN ≤ 11262858 :=
    Int.ediv_le_of_le_mul hc (by simp only [COIN]; linarith)
  generalize hQ : (getProofOfStakeBlockSubsidy params n).val * 525600 / COIN = q at hq hq0 hq1
  have hm : FitsInt64 (CENT * 100 * q) := by
    simp only [CENT]
    exact ⟨by linarith, by linarith⟩
  have hd : (getCoinSupply params n).val.tdiv COIN = (getCoinSupply params n).val / COIN :=
    Int.tdiv_eq_ediv_of_nonneg (by simp only [COIN] at hs; linarith)
  have hd1 := Int.le_ediv_of_mul_le hc hs
  simp only [rewardCoinYear, bind_val, pure_val, bind_fits, pure_fits,
    and_true, amount_val, wrap64_eq hy, hq, wrap64_eq hm, hd]
  have hn : 0 ≤ CENT * 100 * q := by simp only [CENT]; linarith
  rw [Int.tdiv_eq_ediv_of_nonneg hn]
  refine ⟨Int.ediv_nonneg hn (by linarith), ?_, hf, by simpa [Traced.Fits] using hy,
    by simpa [Traced.Fits] using hm, hfs⟩
  exact Int.ediv_le_of_le_mul (by linarith) (by simp only [CENT]; linarith)

end

def exactReward (params : Params) (nCoinAge : Nat) (nPowHeight : Nat) : Int :=
  (nCoinAge * 33 / (365 * 33 + 8) : Nat) * (rewardCoinYear params nPowHeight).val

lemma exactReward_nonneg (hp : params.Sane) (nCoinAge n) : 0 ≤ exactReward params nCoinAge n :=
  mul_nonneg (by positivity) (rewardCoinYear_le hp n).1

lemma getProofOfStakeReward_exact (hp : params.Sane) {nCoinAge : Nat} (n)
    (ha : nCoinAge ≤ 2 * 10 ^ 14) :
    (getProofOfStakeReward params (wrap64 nCoinAge) n).val = wrap64 (exactReward params nCoinAge n) ∧
    ((getProofOfStakeReward params (wrap64 nCoinAge) n).Fits FitsInt64 ↔
      exactReward params nCoinAge n < 2 ^ 63) := by
  obtain ⟨_, _, hf⟩ := rewardCoinYear_le hp n
  have hw : wrap64 nCoinAge = nCoinAge := wrap64_eq ⟨by linarith, by linarith⟩
  have hm : FitsInt64 ((nCoinAge : Int) * 33) := ⟨by linarith, by linarith⟩
  have hd : ((nCoinAge : Int) * 33).tdiv (365 * 33 + 8) * (rewardCoinYear params n).val =
      exactReward params nCoinAge n := by
    have hl : (0 : Int) ≤ nCoinAge * 33 := by linarith
    simp [exactReward, tdiv_eq_ediv_of_nonneg hl]
  simp only [getProofOfStakeReward, bind_val, bind_fits, amount_val, hw, wrap64_eq hm, hd]
  refine ⟨trivial, fun h => ?_, fun h => ⟨hf, by simpa [Traced.Fits] using hm, ?_⟩⟩
  · have h : FitsInt64 (exactReward params nCoinAge n) := by simpa [Traced.Fits] using h.2.2
    exact h.2
  have hn := exactReward_nonneg hp nCoinAge n
  have h : FitsInt64 (exactReward params nCoinAge n) := ⟨by linarith, h⟩
  simpa [Traced.Fits] using h

variable {view : CCoinsViewCache} {chainActive : CBlockIndex} {time : Int}

-- A coin earns fewer than 4295 cent-seconds per unit: its age is below 2 ^ 32 seconds.
lemma centSeconds_le (h : 0 ≤ coin.out.nValue) :
    (centSeconds params chainActive coin time : Int) ≤ 4295 * coin.out.nValue := by
  simp only [centSeconds]
  split
  · simpa using h
  have hv : (coin.out.nValue % 2 ^ 64).toNat ≤ coin.out.nValue.toNat := by
    dsimp only [CAmount] at h ⊢
    omega
  have ht : ((time - coinTime chainActive coin) % 2 ^ 32).toNat ≤ 2 ^ 32 := by
    omega
  have hm := Nat.mul_le_mul hv ht
  have hc : CENT.toNat = 1000000 := rfl
  have hd : (coin.out.nValue % 2 ^ 64).toNat *
      ((time - coinTime chainActive coin) % 2 ^ 32).toNat % 2 ^ 256 / CENT.toNat ≤
      4295 * coin.out.nValue.toNat := by
    rw [hc]
    refine Nat.div_le_of_le_mul ((Nat.mod_le _ _).trans (hm.trans ?_))
    omega
  have he : ((4295 * coin.out.nValue.toNat : Nat) : Int) = 4295 * coin.out.nValue := by
    rw [Nat.cast_mul, toNat_of_nonneg h]
    rfl
  exact he ▸ ofNat_le.mpr hd

lemma sumCentSeconds_le (hv : ∀ txin ∈ vin, 0 ≤ (view.accessCoin txin.prevout).out.nValue)
    (h : sumCentSeconds params chainActive view time acc vin = some r) :
    (r : Int) ≤ acc + 4295 * inputSum view vin := by
  induction vin generalizing acc
  case nil => simp_all [sumCentSeconds, inputSum]
  case cons txin vin hi =>
  have ⟨hc, hv⟩ := List.forall_mem_cons.mp hv
  simp only [sumCentSeconds] at h
  split at h
  case h_1 => nomatch h
  rename_i coin hg
  rw [accessCoin_of_getCoin hg] at hc
  have hr := hi hv h
  have hs : inputSum view (txin :: vin) = coin.out.nValue + inputSum view vin := by
    simp [inputSum, accessCoin_of_getCoin hg]
  have hn := @centSeconds_le params chainActive time coin hc
  have hm : (((acc + centSeconds params chainActive coin time) % 2 ^ 256 : Nat) : Int) ≤
      acc + centSeconds params chainActive coin time := by
    exact_mod_cast Nat.mod_le _ _
  linarith

lemma sumCentSeconds_congr
    (h : ∀ txin ∈ vin, view.getCoin txin.prevout = view'.getCoin txin.prevout) (acc) :
    sumCentSeconds params chainActive view time acc vin =
      sumCentSeconds params chainActive view' time acc vin := by
  induction vin generalizing acc
  case nil => rfl
  case cons txin vin hi =>
  have ⟨ht, h⟩ := List.forall_mem_cons.mp h
  simp only [sumCentSeconds, ht]
  cases view'.getCoin txin.prevout
  case none => rfl
  case some => exact hi h _

lemma getCoinAge_congr
    (h : ∀ txin ∈ tx.vin, view.getCoin txin.prevout = view'.getCoin txin.prevout) :
    getCoinAge params chainActive tx view time = getCoinAge params chainActive tx view' time := by
  simp [getCoinAge, sumCentSeconds_congr h]

section

variable {tx : CTransaction} (hp : params.Sane) (hi : InputsInRange params view height 0 tx.vin)
  (h : getCoinAge params chainActive tx view time = some nCoinAge)
include hp hi h

lemma getCoinAge_le : (nCoinAge : Int) * params.nCoinAgeTick * 100 ≤ 4295 * MAX_MONEY := by
  simp only [getCoinAge] at h
  split at h
  · cases h
    simp [MAX_MONEY, COIN]
  have ⟨r, hr, he⟩ := Option.map_eq_some_iff.mp h
  have hs := sumCentSeconds_le (fun txin hm => (hi.coins txin hm).1) hr
  rw [Nat.cast_zero] at hs
  have hb := hi.sum
  have ht := hp.tick
  have htn := toNat_of_nonneg (by linarith)
  have hc : CENT.toNat = 1000000 := rfl
  have hC : COIN.toNat = 100000000 := rfl
  rw [hc, hC] at he
  have hle : nCoinAge * params.nCoinAgeTick.toNat * 100 ≤ r := by
    rw [← he]
    have h1 := Nat.mod_le (r * 1000000 % 2 ^ 256 / 100000000 / params.nCoinAgeTick.toNat) (2 ^ 64)
    have h2 := Nat.div_mul_le_self (r * 1000000 % 2 ^ 256 / 100000000) params.nCoinAgeTick.toNat
    have h5 := Nat.mul_le_mul_right params.nCoinAgeTick.toNat h1
    omega
  have hli := ofNat_le.mpr hle
  push_cast at hli
  rw [htn] at hli
  linarith

lemma getCoinAge_le_of_sane : nCoinAge ≤ 2 * 10 ^ 14 := by
  have hl := getCoinAge_le hp hi h
  have ht := hp.tick
  have hn : (nCoinAge : Int) * 600 ≤ nCoinAge * params.nCoinAgeTick :=
    mul_le_mul_of_nonneg_left ht (by positivity)
  simp only [MAX_MONEY, COIN] at hl
  have hi : (nCoinAge : Int) ≤ 2 * 10 ^ 14 := by linarith
  exact_mod_cast hi

end

lemma exactReward_lt {nCoinAge : Nat} (hl : (nCoinAge : Int) * 86400 * 100 ≤ 4295 * MAX_MONEY)
    (n) : exactReward Params.mainNet nCoinAge n < 2 ^ 63 := by
  simp only [MAX_MONEY, COIN] at hl
  have ha : nCoinAge * 33 / (365 * 33 + 8) ≤ 3176049150 := by omega
  have ⟨hr0, hr, _⟩ := rewardCoinYear_le Params.mainNet_sane n
  have hai : ((nCoinAge * 33 / (365 * 33 + 8) : Nat) : Int) ≤ 3176049150 := by exact_mod_cast ha
  calc exactReward Params.mainNet nCoinAge n
    _ ≤ 3176049150 * 482704327 := mul_le_mul hai hr hr0 (by norm_num)
    _ < 2 ^ 63 := by norm_num

end

end Taler
