import Mathlib.Data.Nat.Log
import Mathlib.Tactic.Ring

-- Binary long division: the divisor is shifted up, then subtracted wherever it fits.
namespace LongDivision

open BitVec

variable {w : Nat}

def bitLength (x : BitVec w) : Nat :=
  if x = 0 then 0 else x.toNat.log2 + 1

def rounds : Nat → BitVec w → BitVec w → BitVec w → BitVec w
  | 0, _, _, quotient => quotient
  | shift + 1, num, div, quotient =>
    if div ≤ num then rounds shift (num - div) (div >>> 1) (quotient ||| 1#w <<< shift)
    else rounds shift num (div >>> 1) quotient

-- There is no result if the divisor is zero.
def divide (num div : BitVec w) : Option (BitVec w) :=
  if bitLength div = 0 then none
  else if bitLength div > bitLength num then some 0
  else
    let shift := bitLength num - bitLength div
    some (rounds (shift + 1) num (div <<< shift) 0)

section

variable {x y : BitVec w}

lemma lt_two_pow_bitLength (x : BitVec w) : x.toNat < 2 ^ bitLength x := by
  rw [bitLength]
  split
  case isTrue h => simp [h]
  · exact Nat.lt_log2_self

lemma two_pow_le_of_bitLength_pos (h : 0 < bitLength x) : 2 ^ (bitLength x - 1) ≤ x.toNat := by
  rw [bitLength] at h ⊢
  split at h
  · exact absurd h (Nat.lt_irrefl 0)
  case isFalse hx =>
  rw [if_neg hx, Nat.add_sub_cancel]
  exact Nat.log2_self_le fun hz => hx (eq_of_toNat_eq hz)

lemma bitLength_le (x : BitVec w) : bitLength x ≤ w := by
  by_cases h : 0 < bitLength x
  case neg => omega
  have hlt := (two_pow_le_of_bitLength_pos h).trans_lt x.isLt
  have := (Nat.pow_lt_pow_iff_right (by decide)).mp hlt
  omega

end

lemma toNat_or_bit (hk : k < w) (hq : 2 ^ (k + 1) ∣ q.toNat) :
    (q ||| 1#w <<< k).toNat = q.toNat + 2 ^ k := by
  have ⟨c, hc⟩ := hq
  have hlt : 2 ^ k < 2 ^ w := Nat.pow_lt_pow_right (by decide) hk
  have hbit : (1#w <<< k).toNat = 2 ^ k := by
    rw [toNat_shiftLeft, toNat_ofNat, Nat.mod_eq_of_lt (Nat.one_lt_two_pow (by omega)),
      Nat.one_shiftLeft, Nat.mod_eq_of_lt hlt]
  rw [toNat_or, hbit, hc]
  exact (Nat.two_pow_add_eq_or_of_lt (Nat.pow_lt_pow_right (by decide) (Nat.lt_succ_self k)) c).symm

lemma rounds_toNat {num div q : BitVec w} (hnum : num.toNat < b * 2 ^ k)
    (hdiv : 0 < k → div.toNat = b * 2 ^ (k - 1)) (hq : 2 ^ k ∣ q.toNat)
    (hfit : q.toNat + num.toNat / b < 2 ^ w) :
    (rounds k num div q).toNat = q.toNat + num.toNat / b := by
  induction k generalizing num div q
  case zero =>
    rw [Nat.pow_zero, Nat.mul_one] at hnum
    rw [rounds, Nat.div_eq_of_lt hnum, Nat.add_zero]
  case succ k hi =>
  have hb := Nat.pos_of_mul_pos_right (Nat.zero_lt_of_lt hnum)
  have hd : div.toNat = b * 2 ^ k := hdiv (Nat.succ_pos k)
  have hhalf (hk : 0 < k) : (div >>> 1).toNat = b * 2 ^ (k - 1) := by
    have hpow : 2 ^ k = 2 ^ (k - 1) * 2 := by
      rw [← Nat.pow_succ, Nat.succ_eq_add_one, Nat.sub_add_cancel hk]
    rw [toNat_ushiftRight, Nat.shiftRight_eq_div_pow, hd, hpow, Nat.pow_one, ← Nat.mul_assoc,
      Nat.mul_div_cancel _ (by decide)]
  have hdvd := Nat.dvd_trans (Nat.pow_dvd_pow 2 (Nat.le_succ k)) hq
  rw [rounds]
  split
  case isTrue hle =>
    have hle := le_def.mp hle
    have hsub : (num - div).toNat = num.toNat - b * 2 ^ k := by
      rw [toNat_sub_of_le (le_def.mpr hle), hd]
    rw [hd] at hle
    have hge : 2 ^ k ≤ num.toNat / b := by
      rw [Nat.le_div_iff_mul_le hb, Nat.mul_comm]
      exact hle
    have hk : k < w :=
      (Nat.pow_lt_pow_iff_right (by decide)).mp
        ((hge.trans (Nat.le_add_left _ q.toNat)).trans_lt hfit)
    have hor := toNat_or_bit hk hq
    have hquot : q.toNat + 2 ^ k + (num.toNat - b * 2 ^ k) / b = q.toNat + num.toNat / b := by
      rw [Nat.sub_mul_div, Nat.add_assoc, Nat.add_sub_cancel' hge]
    have hless : num.toNat - b * 2 ^ k < b * 2 ^ k := by
      rw [Nat.pow_succ, ← Nat.mul_assoc] at hnum
      omega
    rw [hi (hsub ▸ hless) hhalf ?_ ?_, hor, hsub, hquot]
    · rw [hor]
      exact Nat.dvd_add hdvd (Nat.dvd_refl _)
    rw [hor, hsub, hquot]
    exact hfit
  case isFalse hlt =>
  have hlt := Nat.not_le.mp fun hle => hlt (le_def.mpr hle)
  exact hi (hd ▸ hlt) hhalf hdvd hfit

lemma divide_eq {num div : BitVec w} (h : div ≠ 0) : divide num div = some (num / div) := by
  have hpos : 0 < bitLength div := by
    rw [bitLength, if_neg h]
    exact Nat.succ_pos _
  have hlow := two_pow_le_of_bitLength_pos hpos
  have hnum := lt_two_pow_bitLength num
  rw [divide, if_neg (by omega)]
  split
  case isTrue hgt =>
    have hlt : num.toNat < div.toNat := by
      have := Nat.pow_le_pow_right (n := 2) (by decide) (Nat.le_sub_one_of_lt hgt)
      omega
    refine congrArg some (eq_of_toNat_eq ?_)
    rw [toNat_udiv, Nat.div_eq_of_lt hlt]
    rfl
  case isFalse hle =>
  have hsum : bitLength num - bitLength div + bitLength div = bitLength num := by omega
  have hfits : div.toNat * 2 ^ (bitLength num - bitLength div) < 2 ^ w := by
    calc div.toNat * 2 ^ (bitLength num - bitLength div)
      _ < 2 ^ bitLength div * 2 ^ (bitLength num - bitLength div) :=
        Nat.mul_lt_mul_of_pos_right (lt_two_pow_bitLength div) (Nat.two_pow_pos _)
      _ = 2 ^ bitLength num := by rw [← Nat.pow_add, Nat.add_comm, hsum]
      _ ≤ 2 ^ w := Nat.pow_le_pow_right (by decide) (bitLength_le num)
  have hbound : num.toNat < div.toNat * 2 ^ (bitLength num - bitLength div + 1) := by
    have he : bitLength div - 1 + (bitLength num - bitLength div + 1) = bitLength num := by omega
    calc num.toNat
      _ < 2 ^ bitLength num := hnum
      _ = 2 ^ (bitLength div - 1) * 2 ^ (bitLength num - bitLength div + 1) := by
        rw [← Nat.pow_add, he]
      _ ≤ div.toNat * 2 ^ (bitLength num - bitLength div + 1) := Nat.mul_le_mul_right _ hlow
  have hshift : (div <<< (bitLength num - bitLength div)).toNat =
      div.toNat * 2 ^ (bitLength num - bitLength div) := by
    rw [toNat_shiftLeft, Nat.shiftLeft_eq, Nat.mod_eq_of_lt hfits]
  refine congrArg some (eq_of_toNat_eq ?_)
  rw [rounds_toNat hbound (fun _ => hshift) (Nat.dvd_zero _) ?_, toNat_udiv]
  · exact Nat.zero_add _
  have hz : (0 : BitVec w).toNat = 0 := toNat_zero
  rw [hz, Nat.zero_add]
  exact (Nat.div_le_self num.toNat div.toNat).trans_lt num.isLt

end LongDivision
