import TalerModel.Consensus.Theorems.Amounts

namespace Taler

open Finset Params

variable {n h : Nat} (params : Params)

def heightSubsidy (k : Nat) : Int :=
  (getBlockSubsidy params k).val + (getProofOfStakeBlockSubsidy params k).val

def scheduled (h : Nat) : Int :=
  ∑ k ∈ Icc 1 h, heightSubsidy params k

lemma scheduled_succ (h : Nat) :
    scheduled params (h + 1) = scheduled params h + heightSubsidy params (h + 1) := by
  rw [scheduled, sum_Icc_succ_top (by omega), scheduled]

section

lemma mainNet_halvingHeight (h : Nat) : halvingHeight mainNet h = h + 4 * min h 130000 :=
  rfl

lemma mainNet_getCoinSupply (h : Nat) : (getCoinSupply mainNet h).val =
    233328300000000 + halvedSum 1050000 (h + 4 * min h 130000) 1000000000 :=
  (getCoinSupply_eq mainNet_sane h).1

lemma heightSubsidy_early (h1 : 1 < n) (h2 : n < 130000) :
    heightSubsidy mainNet n = 5000000000 := by
  have ht : mainNet.TLRHeight = 130000 := rfl
  have hi : mainNet.nSubsidyHalvingInterval = 1050000 := rfl
  have hfork : mainNet.forkNumber n < 2 := by
    rw [forkNumber, ht, if_neg (by omega)]
    split <;> decide
  have hz : halvingHeight mainNet n / 1050000 = 0 := by
    rw [mainNet_halvingHeight]
    omega
  have hfull : (fullSubsidy mainNet n).val = 5000000000 := by
    rw [fullSubsidy, ht, if_neg (by omega)]
    decide
  rw [heightSubsidy, getProofOfStakeBlockSubsidy, if_pos hfork, getBlockSubsidy, if_neg (by omega)]
  simp [hfull, hi, hz]

lemma scheduled_early (h1 : 1 ≤ h) (h2 : h < 130000) :
    scheduled mainNet h = (getCoinSupply mainNet h).val := by
  rw [mainNet_getCoinSupply, halvedSum_of_le (by omega)]
  induction h, h1 using Nat.le_induction
  case base => decide +kernel
  case succ h hle hi =>
  rw [scheduled_succ, hi (by omega), heightSubsidy_early (by omega) h2]
  have hmin1 : min h 130000 = h := by omega
  have hmin2 : min (h + 1) 130000 = h + 1 := by omega
  rw [hmin1, hmin2]
  push_cast
  ring

lemma halved_shares (k : Nat) : (1000000000 : Int) >>> k ≤
    (700000000 : Int) >>> k + (700000000 : Int) >>> k * 30 / 70 + if k < 30 then 2 else 0 := by
  have hd : (0 : Int) < 2 ^ k := by positivity
  rw [Int.shiftRight_eq_div_pow, Int.shiftRight_eq_div_pow]
  push_cast
  split
  · have hy := Int.ediv_mul_le 1000000000 (ne_of_gt hd)
    have hx := Int.lt_ediv_add_one_mul_self 700000000 hd
    generalize 1000000000 / (2 : Int) ^ k = y at hy ⊢
    generalize 700000000 / (2 : Int) ^ k = x at hx ⊢
    have hlt : 7 * y < 10 * (x + 1) := by
      refine lt_of_mul_lt_mul_right ?_ (le_of_lt hd)
      linarith
    omega
  case isFalse hk =>
  have hpow : (1000000000 : Int) < 2 ^ k := by
    calc (1000000000 : Int)
      _ < 2 ^ 30 := by norm_num
      _ ≤ 2 ^ k := pow_le_pow_right₀ (by norm_num) (by omega)
  have hx : 0 ≤ 700000000 / (2 : Int) ^ k := Int.ediv_nonneg (by norm_num) (le_of_lt hd)
  rw [Int.ediv_eq_zero_of_lt (by norm_num) hpow]
  omega

lemma heightSubsidy_late (hn : 130000 < n) :
    (1000000000 : Int) >>> ((n + 520000) / 1050000) ≤ heightSubsidy mainNet n +
      if (n + 520000) / 1050000 < 30 then 2 else 0 := by
  have ht : mainNet.TLRHeight = 130000 := rfl
  have hi : mainNet.nSubsidyHalvingInterval = 1050000 := rfl
  have hfork : ¬mainNet.forkNumber n < 2 := by
    rw [forkNumber, ht, if_pos (by omega)]
    decide
  have hh : halvingHeight mainNet n = n + 520000 := by
    rw [mainNet_halvingHeight]
    omega
  have hfull : (fullSubsidy mainNet n).val = 700000000 := by
    rw [fullSubsidy, ht, if_pos hn]
    decide
  have hb : (getBlockSubsidy mainNet n).val =
      if (n + 520000) / 1050000 ≥ 64 then 0
      else (700000000 : Int) >>> ((n + 520000) / 1050000) := by
    rw [getBlockSubsidy, if_neg (by omega)]
    simp [hfull, hh, hi]
  obtain ⟨hl, _, hu, _⟩ := @getBlockSubsidy_le mainNet n
  have hu := hu (by omega)
  simp only [COIN] at hu
  have hpos : (getProofOfStakeBlockSubsidy mainNet n).val =
      (getBlockSubsidy mainNet n).val * 30 / 70 := by
    have hf : FitsInt64 ((getBlockSubsidy mainNet n).val * 30) := ⟨by linarith, by linarith⟩
    rw [getProofOfStakeBlockSubsidy, if_neg hfork]
    simp only [Traced.bind_val, Traced.pure_val, amount_val, wrap64_eq hf]
    exact Int.tdiv_eq_ediv_of_nonneg (by linarith)
  have hshares := halved_shares ((n + 520000) / 1050000)
  rw [heightSubsidy, hpos, hb]
  by_cases h64 : (n + 520000) / 1050000 ≥ 64
  case neg =>
    rw [if_neg h64]
    exact hshares
  have hz : (1000000000 : Int) >>> ((n + 520000) / 1050000) = 0 := by
    rw [Int.shiftRight_eq_div_pow]
    refine Int.ediv_eq_zero_of_lt (by norm_num) ?_
    calc (1000000000 : Int)
      _ < 2 ^ 64 := by norm_num
      _ ≤ _ := by exact_mod_cast Nat.pow_le_pow_right (by decide) h64
  rw [if_pos h64, if_neg (by omega), hz]
  decide

-- By how much the schedule is ahead of the supply.
def surplus (h : Nat) : Int :=
  scheduled mainNet h - (getCoinSupply mainNet h).val

lemma surplus_fork : surplus 130000 = 2142857142 := by
  have hbefore := scheduled_early (h := 129999) (by decide) (by decide)
  have hlast : heightSubsidy mainNet 130000 = 7142857142 := by decide +kernel
  rw [surplus, scheduled_succ, hbefore, hlast, mainNet_getCoinSupply, mainNet_getCoinSupply,
    halvedSum_of_le (by decide), halvedSum_of_le (by decide)]
  decide

-- The supply is halved one height later than the schedule.
lemma surplus_succ (hh : 130000 ≤ h) :
    surplus h - ((1000000000 : Int) >>> ((h + 520000) / 1050000) -
        (1000000000 : Int) >>> ((h + 1 + 520000) / 1050000)) -
      (if (h + 1 + 520000) / 1050000 < 30 then 2 else 0) ≤ surplus (h + 1) := by
  have hlate := heightSubsidy_late (n := h + 1) (by omega)
  have hm1 : h + 4 * min h 130000 = h + 520000 := by omega
  have hm2 : h + 1 + 4 * min (h + 1) 130000 = h + 520000 + 1 := by omega
  rw [surplus, surplus, scheduled_succ, mainNet_getCoinSupply, mainNet_getCoinSupply, hm1, hm2,
    halvedSum_succ 1050000 (h + 520000)]
  linarith

-- The induction carries the rest of the subsidy and two units for each height before.
lemma surplus_late (hh : 130000 ≤ h) : 2142857142 ≤ surplus h +
    (1000000000 - (1000000000 : Int) >>> ((h + 520000) / 1050000)) +
      2 * (min h 31500000 : Nat) := by
  induction h, hh using Nat.le_induction
  case base =>
    rw [surplus_fork]
    decide
  case succ h hle hi =>
  have hstep := surplus_succ hle
  split at hstep
  case isTrue hlt =>
    have hmin : ((min (h + 1) 31500000 : Nat) : Int) = (min h 31500000 : Nat) + 1 := by omega
    linarith
  have hmin : ((min h 31500000 : Nat) : Int) ≤ (min (h + 1) 31500000 : Nat) := by omega
  linarith

theorem supply_eq_scheduled_iff (hh : 1 ≤ h) :
    (getCoinSupply mainNet h).val =
      ∑ k ∈ Icc 1 h, ((getBlockSubsidy mainNet k).val +
        (getProofOfStakeBlockSubsidy mainNet k).val) ↔ h < 130000 := by
  constructor
  · intro he
    by_contra hge
    have hlate := surplus_late (Nat.not_lt.mp hge)
    have hzero : surplus h = 0 := sub_eq_zero.mpr he.symm
    have hpos := (shiftRight_le (n := 1000000000) (by norm_num) ((h + 520000) / 1050000)).1
    have hmin : ((min h 31500000 : Nat) : Int) ≤ 31500000 := by omega
    linarith
  · exact fun hlt => (scheduled_early hh hlt).symm

theorem supply_first : (getCoinSupply mainNet 1).val =
    ∑ k ∈ Icc 1 1, ((getBlockSubsidy mainNet k).val +
      (getProofOfStakeBlockSubsidy mainNet k).val) :=
  (supply_eq_scheduled_iff (le_refl 1)).mpr (by decide)

-- At the height of the fork the proof-of-stake blocks are counted, but not yet in the supply.
theorem supply_fork_ne : (getCoinSupply mainNet 130000).val ≠
    ∑ k ∈ Icc 1 130000, ((getBlockSubsidy mainNet k).val +
      (getProofOfStakeBlockSubsidy mainNet k).val) := by
  intro he
  have hzero : surplus 130000 = 0 := sub_eq_zero.mpr he.symm
  rw [surplus_fork] at hzero
  exact absurd hzero (by decide)

end

end Taler
