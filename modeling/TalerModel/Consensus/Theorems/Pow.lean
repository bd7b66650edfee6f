import Mathlib.Algebra.Order.BigOperators.Group.List
import TalerModel.Consensus.Pow

namespace Taler

open ArithUint256 Params List

section

lemma pow_le_of_bits (h : 0 < bn) : 2 ^ (8 * ((bits bn + 7) / 8 - 1)) ≤ bn := by
  rw [bits, if_neg (Nat.pos_iff_ne_zero.mp h)]
  calc 2 ^ (8 * ((bn.log2 + 1 + 7) / 8 - 1))
    _ ≤ 2 ^ bn.log2 := Nat.pow_le_pow_right (by decide) (by omega)
    _ ≤ bn := Nat.log2_self_le (Nat.pos_iff_ne_zero.mp h)

lemma lt_pow_of_bits (bn) : bn < 2 ^ (8 * ((bits bn + 7) / 8)) := by
  rw [bits]
  split
  case isTrue h => simp [h]
  calc bn
    _ < 2 ^ (bn.log2 + 1) := Nat.lt_log2_self
    _ ≤ 2 ^ (8 * ((bn.log2 + 1 + 7) / 8)) := Nat.pow_le_pow_right (by decide) (by omega)

def unpacked (nSize nWord : Nat) : Nat :=
  if nSize ≤ 3 then nWord / 2 ^ (8 * (3 - nSize)) else nWord * 2 ^ (8 * (nSize - 3))

lemma setCompact_pack (hw : nWord < 2 ^ 23) (hn : nSize ≤ 33)
    (hu : unpacked nSize nWord < 2 ^ 256) :
    (setCompact (nWord + nSize * 2 ^ 24)).target = unpacked nSize nWord ∧
    (setCompact (nWord + nSize * 2 ^ 24)).fNegative = false ∧
    (setCompact (nWord + nSize * 2 ^ 24)).fOverflow = false := by
  have hsize : (nWord + nSize * 2 ^ 24) / 2 ^ 24 = nSize := by omega
  have hword : (nWord + nSize * 2 ^ 24) % 2 ^ 23 = nWord := by omega
  have hsign : (nWord + nSize * 2 ^ 24) / 2 ^ 23 % 2 = 0 := by omega
  simp only [setCompact, hsize, hword, hsign]
  refine ⟨?_, by simp, ?_⟩
  · rw [unpacked] at hu ⊢
    split
    case isTrue h => rfl
    case isFalse h =>
    rw [if_neg h] at hu
    exact Nat.mod_eq_of_lt hu
  -- Of the largest size only mantissas of two bytes are numbers of 256 bits.
  have h32 (h : nSize > 32) : nWord ≤ 0xffff := by
    obtain rfl : nSize = 33 := by omega
    simp only [unpacked, if_neg (by decide : ¬33 ≤ 3)] at hu
    omega
  have h34 : nSize ≤ 34 := by omega
  by_cases h : nSize > 32
  · rw [if_neg (by omega)]
    simp [h32 h, h34, hn]
  · simp [h34, hn, h]

def MAX_TARGET : Nat := 2 ^ 248 - 1

lemma leading_bytes (hlo : 2 ^ (8 * (k + 2)) ≤ bn) (hhi : bn < 2 ^ (8 * (k + 3))) :
    2 ^ 16 ≤ bn / 2 ^ (8 * k) ∧ bn / 2 ^ (8 * k) < 2 ^ 24 ∧ bn / 2 ^ (8 * k) * 2 ^ (8 * k) ≤ bn := by
  have hpos : 0 < 2 ^ (8 * k) := Nat.two_pow_pos _
  refine ⟨?_, ?_, Nat.div_mul_le_self ..⟩
  · rw [Nat.le_div_iff_mul_le hpos, ← Nat.pow_add]
    exact (Nat.pow_le_pow_right (by decide) (by omega)).trans hlo
  rw [Nat.div_lt_iff_lt_mul hpos, ← Nat.pow_add]
  exact hhi.trans_le (Nat.pow_le_pow_right (by decide) (by omega))

-- A mantissa of 23 bits with a nonzero top byte: the number is cut off below the mantissa.
structure Packs (nSize nWord bn : Nat) : Prop where
  word_ge : 2 ^ 15 ≤ nWord
  word_lt : nWord < 2 ^ 23
  le : nWord * 2 ^ (8 * nSize) ≤ bn * 2 ^ 24
  lt : bn * 2 ^ 24 < (nWord + 1) * 2 ^ (8 * nSize)

namespace Packs

lemma unpacked_mul (h : Packs nSize nWord bn) :
    unpacked nSize nWord * 2 ^ 24 = nWord * 2 ^ (8 * nSize) := by
  have hle := h.le
  have hlt := h.lt
  -- A number of less than three bytes keeps all of them.
  by_cases h3 : nSize ≤ 3
  · have hcases : nSize = 0 ∨ nSize = 1 ∨ nSize = 2 ∨ nSize = 3 := by omega
    rcases hcases with rfl | rfl | rfl | rfl <;> simp [unpacked] at * <;> omega
  rw [unpacked, if_neg h3, Nat.mul_assoc, ← Nat.pow_add]
  congr 2
  omega

lemma size_le_of_lt (h : Packs nSize nWord bn) (hb : bn < 2 ^ 256) : nSize ≤ 33 := by
  by_contra hc
  have hpow : 256 ^ 34 ≤ 2 ^ (8 * nSize) := by
    rw [pow_mul]
    exact Nat.pow_le_pow_right (by decide) (by omega)
  have := (Nat.mul_le_mul h.word_ge hpow).trans h.le
  omega

end Packs

lemma getCompact_packs (h : 0 < bn) :
    ∃ nSize nWord, getCompact bn = nWord + nSize * 2 ^ 24 ∧ Packs nSize nWord bn := by
  have hlo := pow_le_of_bits h
  have hhi := lt_pow_of_bits bn
  have hsize : 1 ≤ (bits bn + 7) / 8 := by
    rw [bits, if_neg (Nat.pos_iff_ne_zero.mp h)]
    omega
  rw [getCompact]
  generalize (bits bn + 7) / 8 = nSize at *
  by_cases h3 : nSize ≤ 3
  · rw [if_pos h3]
    have hcases : nSize = 1 ∨ nSize = 2 ∨ nSize = 3 := by omega
    split
    case isTrue hs =>
      refine ⟨nSize + 1, _, rfl, ?_⟩
      rcases hcases with rfl | rfl | rfl <;> constructor <;> simp at * <;> omega
    case isFalse hs =>
    refine ⟨nSize, _, rfl, ?_⟩
    rcases hcases with rfl | rfl | rfl <;> constructor <;> simp at * <;> omega
  have ⟨k, hk⟩ : ∃ k, nSize = k + 3 := ⟨nSize - 3, by omega⟩
  subst hk
  have ⟨hl, hh, hle⟩ := leading_bytes hlo hhi
  have hlt : bn < (bn / 2 ^ (8 * k) + 1) * 2 ^ (8 * k) := by
    rw [Nat.mul_comm]
    exact Nat.lt_mul_div_succ bn (Nat.two_pow_pos _)
  rw [if_neg h3, Nat.add_sub_cancel]
  generalize bn / 2 ^ (8 * k) = nWord at *
  split
  case isTrue hs =>
    refine ⟨k + 4, _, rfl, by omega, by omega, ?_, ?_⟩
    all_goals rw [show 8 * (k + 4) = 8 + 8 * k + 24 by omega, Nat.pow_add, Nat.pow_add,
      ← Nat.mul_assoc, ← Nat.mul_assoc]
    · exact Nat.mul_le_mul_right _
        ((Nat.mul_le_mul_right _ (Nat.div_mul_le_self ..)).trans hle)
    have hword : nWord + 1 ≤ (nWord / 2 ^ 8 + 1) * 2 ^ 8 := by omega
    exact Nat.mul_lt_mul_of_pos_right (hlt.trans_le (Nat.mul_le_mul_right _ hword)) (by decide)
  case isFalse hs =>
  refine ⟨k + 3, _, rfl, by omega, by omega, ?_, ?_⟩
  all_goals rw [show 8 * (k + 3) = 8 * k + 24 by omega, Nat.pow_add, ← Nat.mul_assoc]
  · exact Nat.mul_le_mul_right _ hle
  · exact Nat.mul_lt_mul_of_pos_right hlt (by decide)

lemma setCompact_getCompact (h : 0 < bn) (hb : bn < 2 ^ 256) :
    ∃ nSize nWord, getCompact bn = nWord + nSize * 2 ^ 24 ∧ Packs nSize nWord bn ∧
      (setCompact (getCompact bn)).target * 2 ^ 24 = nWord * 2 ^ (8 * nSize) ∧
      (setCompact (getCompact bn)).fNegative = false ∧
      (setCompact (getCompact bn)).fOverflow = false := by
  obtain ⟨nSize, nWord, he, hp⟩ := getCompact_packs h
  have hmul := hp.unpacked_mul
  have hle := hp.le
  obtain ⟨ht, hf⟩ := setCompact_pack hp.word_lt (hp.size_le_of_lt hb) (by omega)
  exact ⟨nSize, nWord, he, hp, by rw [he, ht, hmul], he ▸ hf⟩

structure Encodes (limit nBits : Nat) : Prop where
  positive : (setCompact nBits).fNegative = false
  fits : (setCompact nBits).fOverflow = false
  target_le : (setCompact nBits).target ≤ limit

def InRange (limit nBits : Nat) : Prop :=
  Encodes limit nBits ∧ (setCompact nBits).target ≠ 0

lemma Encodes.mono (h : Encodes limit nBits) (hl : limit ≤ limit') : Encodes limit' nBits :=
  ⟨h.positive, h.fits, h.target_le.trans hl⟩

lemma getCompact_encodes (hb : bn < 2 ^ 256) :
    Encodes bn (getCompact bn) ∧ ((setCompact (getCompact bn)).target ≠ 0 ↔ bn ≠ 0) := by
  by_cases h : bn = 0
  · subst h
    exact ⟨⟨by decide, by decide, by decide⟩, by decide⟩
  obtain ⟨nSize, nWord, -, hp, hmul, hneg, hover⟩ :=
    setCompact_getCompact (Nat.pos_of_ne_zero h) hb
  have hle := hp.le
  have hpos := Nat.mul_pos ((by decide : 0 < 2 ^ 15).trans_le hp.word_ge) (Nat.two_pow_pos (8 * nSize))
  exact ⟨⟨hneg, hover, by omega⟩, by omega⟩

lemma inRange_getCompact_min (bn) (h : 0 < limit) (hl : limit ≤ MAX_TARGET) :
    Encodes limit (getCompact (min bn limit)) ∧
    (InRange limit (getCompact (min bn limit)) ↔ bn ≠ 0) := by
  have ⟨he, hz⟩ :=
    getCompact_encodes (((Nat.min_le_right bn limit).trans hl).trans_lt (by decide))
  have he := he.mono (Nat.min_le_right bn limit)
  refine ⟨he, ?_⟩
  rw [InRange, hz, and_iff_right he]
  omega

end

structure Params.WorkSane (params : Params) : Prop where
  legacy_ge : 2 ^ 32 ≤ params.powLimitLegacy
  legacy_le : params.powLimitLegacy ≤ params.powLimit
  legacy_lt : params.powLimitLegacy < 2 ^ 240
  limit_le : params.powLimit ≤ MAX_TARGET
  stake_pos : 0 < params.posLimit
  stake_le : params.posLimit ≤ params.powLimit
  usual : params.fPowAllowMinDifficultyBlocks = false
  retargets : params.fPowNoRetargeting = false
  timespan_ge : 4 ≤ params.nPowTargetTimespan
  timespan_lt : params.nPowTargetTimespan < 2 ^ 12
  spacing_ge : 3 ≤ params.nPowTargetSpacing
  spacing_lt : params.nPowTargetSpacing < 2 ^ 12
  windowv1_pos : 0 < params.nPowAveragingWindowv1
  windowv1_lt : params.nPowAveragingWindowv1 < 2 ^ 7
  windowv2_pos : 0 < params.nPowAveragingWindowv2
  windowv2_lt : params.nPowAveragingWindowv2 < 2 ^ 7
  interval_pos : ∀ n, 0 < params.difficultyAdjustmentIntervalPow n
  lyra2Z_pos : 0 < params.nLyra2ZHeight
  lyra2Z_le : params.nLyra2ZHeight ≤ params.TLRHeight
  fixed_le : (setCompact 0x1c08b5b1).target ≤ params.powLimit
  stakeSpan_pos : 0 < (params.difficultyAdjustmentIntervalPos + 1) * params.nPosTargetSpacing
  stakeSpan_lt : (params.difficultyAdjustmentIntervalPos + 1) * params.nPosTargetSpacing < 2 ^ 32

lemma Params.WorkSane.of_net (h : params = mainNet ∨ params = testNet) : params.WorkSane := by
  rcases h with rfl | rfl
  all_goals
    constructor
    case interval_pos =>
      intro n
      rw [difficultyAdjustmentIntervalPow]
      split <;> decide
    all_goals decide

section

variable {params : Params}

-- What a rule returns decodes to at most a limit, and it can be met exactly under a condition.
structure YieldsBits (x : Check Nat) (limit : Nat) (workable : Prop) : Prop where
  encodes : x = .ok nBits → Encodes limit nBits
  inRange : (∃ nBits, x = .ok nBits ∧ InRange limit nBits) ↔ workable

lemma YieldsBits.congr (h : YieldsBits x limit p) (hp : p ↔ q) : YieldsBits x limit q where
  encodes := h.encodes
  inRange := h.inRange.trans hp

lemma yields_ok (he : Encodes limit nBits) (h : (setCompact nBits).target ≠ 0 ↔ p) :
    YieldsBits (.ok nBits) limit p where
  encodes hx := by
    cases hx
    exact he
  inRange := by
    rw [← h]
    constructor
    · intro ⟨_, hx, hr⟩
      cases hx
      exact hr.2
    · exact fun h => ⟨_, rfl, he, h⟩

lemma yields_getCompact (h : 0 < bn) (hl : bn ≤ limit) (hm : limit ≤ MAX_TARGET) :
    YieldsBits (.ok (getCompact bn)) limit True :=
  have ⟨he, hz⟩ := getCompact_encodes ((hl.trans hm).trans_lt (by decide))
  yields_ok (he.mono hl) (iff_true_intro (hz.mpr (Nat.pos_iff_ne_zero.mp h)))

lemma yields_fault (f) : YieldsBits (Check.fault f) limit False where
  encodes hx := nomatch hx
  inRange := ⟨fun ⟨_, hx, _⟩ => (nomatch hx), False.elim⟩

lemma div_eq (h : 0 < n) (hn : n < 2 ^ 64) : div bn n = .ok (bn / n.toNat) := by
  have hmod := Int.emod_eq_of_lt (by omega) hn
  rw [div, hmod, if_neg (by omega)]

lemma yields_div (h : 0 < n) (hn : n < 2 ^ 64) (hp : 0 < limit) (hl : limit ≤ MAX_TARGET) :
    YieldsBits (do return getCompact (min (← div bn n) limit)) limit (n ≤ bn) := by
  have ⟨he, hr⟩ := inRange_getCompact_min (bn / n.toNat) hp hl
  rw [div_eq h hn]
  refine yields_ok he ?_
  rw [InRange, and_iff_right he] at hr
  rw [hr, ne_eq, Nat.div_eq_zero_iff]
  omega

def lastStaked (params : Params) (pindexLast : CBlockIndex) : Option (IndexHeader × IndexHeader) :=
  match params.getLastBlockIndex true pindexLast with
  | [] => none
  | indexPrev :: pprev =>
    match params.getLastBlockIndex true pprev with
    | [] => none
    | [_] => none
    | indexPrevPrev :: _ :: _ => some (indexPrev, indexPrevPrev)

-- When a staked block can be required on top of an entry: staking has begun, and if there are two
-- staked blocks, the target of the last one times the adjusted span, in the wrapping arithmetic of the
-- source, is not less than the span of a period.
def StakeWorkable (params : Params) (pindexLast : CBlockIndex) : Prop :=
  2 ≤ params.forkNumber (nHeight pindexLast + 1) ∧
  ∀ pair ∈ lastStaked params pindexLast,
    (params.difficultyAdjustmentIntervalPos + 1) * params.nPosTargetSpacing ≤
      mul pair.1.target ((params.difficultyAdjustmentIntervalPos - 1) * params.nPosTargetSpacing +
        2 * (pair.1.nTime - pair.2.nTime))

lemma forPos_early (h : params.forkNumber (nHeight pindexLast + 1) < 2) :
    params.getNextWorkRequiredForPos pindexLast = Check.fault .assertion := by
  rw [getNextWorkRequiredForPos, decide_eq_true h]
  rfl

lemma forPos_yields (hs : params.WorkSane) (pindexLast) :
    YieldsBits (params.getNextWorkRequiredForPos pindexLast) params.powLimit
      (StakeWorkable params pindexLast) := by
  have hlimit := yields_getCompact hs.stake_pos hs.stake_le hs.limit_le
  have hpos := hs.stake_pos.trans_le hs.stake_le
  have hlarge := hs.stakeSpan_lt
  by_cases hf : params.forkNumber (nHeight pindexLast + 1) < 2
  · rw [forPos_early hf]
    exact (yields_fault .assertion).congr (iff_of_false id fun h => Nat.not_le_of_lt hf h.1)
  rw [getNextWorkRequiredForPos, decide_eq_false hf]
  have hf := Nat.not_lt.mp hf
  cases hprev : params.getLastBlockIndex true pindexLast
  case nil => exact hlimit.congr (iff_of_true trivial ⟨hf, by simp [lastStaked, hprev]⟩)
  case cons indexPrev pprev =>
  cases hpp : params.getLastBlockIndex true pprev
  case nil =>
    simp only [hpp]
    exact hlimit.congr (iff_of_true trivial ⟨hf, by simp [lastStaked, hprev, hpp]⟩)
  case cons indexPrevPrev rest =>
  cases rest
  case nil =>
    simp only [hpp]
    exact hlimit.congr (iff_of_true trivial ⟨hf, by simp [lastStaked, hprev, hpp]⟩)
  case cons b rest =>
  have hpair : lastStaked params pindexLast = some (indexPrev, indexPrevPrev) := by
    simp [lastStaked, hprev, hpp]
  simp only [hpp]
  refine (yields_div hs.stakeSpan_pos (by omega) hpos hs.limit_le).congr ?_
  rw [StakeWorkable, hpair, and_iff_right hf]
  simp only [Option.mem_def, Option.some.injEq, forall_eq', two_mul, ← add_assoc]
  split <;> omega

lemma limited_bounds (hn : 1 ≤ n) (ht : 0 ≤ nTargetTimespan) (nActualTimespan) :
    nTargetTimespan / n ≤ limited nActualTimespan nTargetTimespan n ∧
    limited nActualTimespan nTargetTimespan n ≤ nTargetTimespan * n := by
  have hmul := Int.mul_le_mul_of_nonneg_left hn ht
  have hdiv := Int.ediv_le_self n ht
  rw [limited]
  omega

lemma mul_eq (ht : bn < 2 ^ 242) (hn : 0 ≤ n) (hn' : n < 2 ^ 14) : mul bn n = bn * n.toNat := by
  have hmod : n % 2 ^ 32 = n := Int.emod_eq_of_lt hn (by omega)
  have hlt : bn * n.toNat < 2 ^ 242 * 2 ^ 14 := Nat.mul_lt_mul_of_lt_of_le ht (by omega) (by omega)
  rw [mul, hmod]
  exact Nat.mod_eq_of_lt (hlt.trans_le (by decide))

lemma two_pow_le_of_bits (h : k < bits bn) : 2 ^ k ≤ bn := by
  rw [bits] at h
  split at h
  · omega
  case isFalse hz => exact (Nat.pow_le_pow_right (by decide) (by omega)).trans (Nat.log2_self_le hz)

lemma lt_bits_of_two_pow_le (h : 2 ^ k ≤ bn) : k < bits bn := by
  have hz : bn ≠ 0 := by
    have := Nat.two_pow_pos k
    omega
  rw [bits, if_neg hz]
  exact Nat.lt_succ_of_le ((Nat.le_log2 hz).mpr h)

def legacyFirst (params : Params) (pindexLast : CBlockIndex) : Option IndexHeader :=
  let nInterval := params.difficultyAdjustmentIntervalPow (nHeight pindexLast + 1)
  (pindexLast.drop (if ((nHeight pindexLast + 1 : Nat) : Int) ≠ nInterval then nInterval
    else nInterval - 1).toNat).head?

-- When the legacy rule gives a target: between retargets the last block has one, and at a retarget the
-- target of the last block times the limited span is not less than the wanted span.
def LegacyWorkable (params : Params) (pindexLast : CBlockIndex) : Prop :=
  ∀ indexLast ∈ pindexLast.head?,
    if ((nHeight pindexLast + 1 : Nat) : Int) %
        params.difficultyAdjustmentIntervalPow (nHeight pindexLast + 1) ≠ 0 then
      indexLast.target ≠ 0
    else ∀ indexFirst ∈ legacyFirst params pindexLast,
      params.nPowTargetTimespan ≤ indexLast.target *
        limited (indexLast.nTime - indexFirst.nTime) params.nPowTargetTimespan 4

lemma exists_legacyFirst (hi : 0 < params.difficultyAdjustmentIntervalPow (nHeight (b :: pprev) + 1))
    (h : ((nHeight (b :: pprev) + 1 : Nat) : Int) %
      params.difficultyAdjustmentIntervalPow (nHeight (b :: pprev) + 1) = 0) :
    ∃ indexFirst, legacyFirst params (b :: pprev) = some indexFirst := by
  have hle := Int.le_of_dvd (by omega) (Int.dvd_of_emod_eq_zero h)
  have hlen : nHeight (b :: pprev) + 1 = (b :: pprev).length := by simp [nHeight]
  rw [← Option.isSome_iff_exists, legacyFirst, isSome_head?, ne_eq, drop_eq_nil_iff, ← hlen]
  split <;> omega

lemma retarget_yields (hs : params.WorkSane) (hb : bn ≤ params.powLimitLegacy)
    (hlo : params.nPowTargetTimespan / 4 ≤ n) (hhi : n ≤ params.nPowTargetTimespan * 4) :
    YieldsBits (do
      let fShift : Bool := bits bn > bits params.powLimitLegacy - 1
      let bnNew ← div (mul (if fShift then bn / 2 else bn) n) params.nPowTargetTimespan
      return getCompact (min (if fShift then shiftLeft bnNew 1 else bnNew) params.powLimitLegacy))
      params.powLimitLegacy (params.nPowTargetTimespan ≤ bn * n) := by
  have hspan := hs.timespan_ge
  have hspan' := hs.timespan_lt
  have hlegacy := hs.legacy_lt
  have hpos : 0 < params.powLimitLegacy := (by decide : 0 < 2 ^ 32).trans_le hs.legacy_ge
  have hmax := hs.legacy_le.trans hs.limit_le
  have hn : ((n.toNat : Nat) : Int) = n := Int.toNat_of_nonneg (by omega)
  by_cases hf : bits bn > bits params.powLimitLegacy - 1
  · have hbn : 2 ^ 32 ≤ bn := by
      have := lt_bits_of_two_pow_le hs.legacy_ge
      exact two_pow_le_of_bits (by omega)
    have hprod := calc params.nPowTargetTimespan.toNat
        _ ≤ 8 * n.toNat := by omega
        _ ≤ bn / 2 * n.toNat := Nat.mul_le_mul_right _ (by omega)
    have hle : bn / 2 * n.toNat ≤ bn * n.toNat := Nat.mul_le_mul_right _ (by omega)
    have hlt : bn / 2 * n.toNat / params.nPowTargetTimespan.toNat < 2 ^ 255 := by
      have h : bn / 2 * n.toNat < 2 ^ 240 * 2 ^ 14 :=
        Nat.mul_lt_mul_of_lt_of_le (by omega) (by omega) (by omega)
      exact (Nat.div_le_self ..).trans_lt (h.trans (by decide))
    have hquot := Nat.div_pos hprod (by omega)
    have hw : params.nPowTargetTimespan ≤ bn * n := by
      rw [← hn, ← Int.natCast_mul]
      omega
    simp only [decide_eq_true hf, if_true]
    rw [mul_eq (by omega) (by omega) (by omega), div_eq (by omega) (by omega)]
    have ⟨he, hr⟩ := inRange_getCompact_min
      (shiftLeft (bn / 2 * n.toNat / params.nPowTargetTimespan.toNat) 1) hpos hmax
    refine yields_ok he (iff_of_true (hr.mpr ?_).2 hw)
    rw [shiftLeft, Nat.mod_eq_of_lt (by omega)]
    omega
  simp only [decide_eq_false hf]
  refine (yields_div (by omega) (by omega) hpos hmax).congr ?_
  rw [if_neg Bool.false_ne_true, mul_eq (by omega) (by omega) (by omega), Int.natCast_mul, hn]

lemma btc_yields (hs : params.WorkSane) (he : Encodes params.powLimitLegacy b.nBits) (nTime) :
    YieldsBits (params.getNextWorkRequiredBTC (b :: pprev) nTime) params.powLimitLegacy
      (LegacyWorkable params (b :: pprev)) := by
  have hspan := hs.timespan_ge
  rw [getNextWorkRequiredBTC]
  by_cases hr : ((nHeight (b :: pprev) + 1 : Nat) : Int) %
      params.difficultyAdjustmentIntervalPow (nHeight (b :: pprev) + 1) ≠ 0
  · have hw : LegacyWorkable params (b :: pprev) ↔ b.target ≠ 0 := by
      simp only [LegacyWorkable, head?_cons, Option.mem_def, Option.some.injEq, forall_eq',
        if_pos hr]
    simp only [if_pos hr, hs.usual]
    exact (yields_ok he Iff.rfl).congr hw.symm
  have ⟨indexFirst, hf⟩ := exists_legacyFirst (hs.interval_pos _) (not_not.mp hr)
  have hw : LegacyWorkable params (b :: pprev) ↔ params.nPowTargetTimespan ≤ b.target *
      limited (b.nTime - indexFirst.nTime) params.nPowTargetTimespan 4 := by
    simp only [LegacyWorkable, head?_cons, Option.mem_def, Option.some.injEq, forall_eq',
      if_neg hr, hf]
  have hbounds := limited_bounds (by decide : (1 : Int) ≤ 4) (by omega : 0 ≤ params.nPowTargetTimespan)
    (b.nTime - indexFirst.nTime)
  have ⟨rest, hd⟩ := head?_eq_some_iff.mp hf
  dsimp only at hd ⊢
  rw [if_neg hr, hd, hs.retargets]
  exact (retarget_yields hs he.target_le hbounds.1 hbounds.2).congr hw.symm

def visited (last : CBlockIndex → CBlockIndex) : Nat → CBlockIndex → List IndexHeader
  | 0, _ => []
  | _ + 1, [] => []
  | n + 1, b :: pprev => b :: visited last n (last pprev)

-- The targets of a window, the first one counted twice, and the time that it spans.

def windowSum (window : List IndexHeader) : Nat :=
  (window.head?.map IndexHeader.target).getD 0 + (window.map IndexHeader.target).sum

def lastTime (window : List IndexHeader) : Int :=
  (window.getLast?.map IndexHeader.nTime).getD 0

def windowTime (window : List IndexHeader) : Int :=
  CBlockIndex.getBlockTime window - lastTime window

variable {last : CBlockIndex → CBlockIndex}

lemma lastTime_cons (h : window ≠ []) : lastTime (b :: window) = lastTime window := by
  rw [lastTime, getLast?_cons_of_ne_nil h, lastTime]

lemma gravityLoop_eq (hn : n + 1 ≤ nBlocks)
    (hl : (visited last (n + 1) (b :: pprev)).length = n + 1)
    (hsum : (if n + 1 = nBlocks then b.target else bn) +
      ((visited last (n + 1) (b :: pprev)).map IndexHeader.target).sum < 2 ^ 256) :
    gravityLoop last nBlocks (n + 1) (b :: pprev) bn nActualTimespan = .ok
      ((if n + 1 = nBlocks then b.target else bn) +
        ((visited last (n + 1) (b :: pprev)).map IndexHeader.target).sum,
        nActualTimespan + (b.nTime - lastTime (visited last (n + 1) (b :: pprev)))) := by
  induction n generalizing b pprev bn nActualTimespan
  case zero =>
    simp only [visited, map_cons, map_nil, sum_cons, sum_nil, Nat.add_zero] at hsum ⊢
    rw [gravityLoop, if_pos rfl, add, Nat.mod_eq_of_lt hsum]
    simp [lastTime]
  case succ n hi =>
  have hne : n + 1 ≠ nBlocks := by omega
  rw [visited, length_cons, Nat.succ_inj] at hl
  rw [visited, map_cons, sum_cons, ← Nat.add_assoc] at hsum ⊢
  cases hcur : last pprev
  case nil => simp [hcur, visited] at hl
  case cons cur rest =>
  rw [hcur] at hl hsum
  have hwin : visited last (n + 1) (cur :: rest) ≠ [] := by simp [visited]
  rw [gravityLoop, if_neg (Nat.succ_ne_zero n)]
  simp only [hcur]
  have hadd : add (if n + 1 + 1 = nBlocks then b.target else bn) b.target =
      (if n + 1 + 1 = nBlocks then b.target else bn) + b.target :=
    Nat.mod_eq_of_lt (by omega)
  rw [hadd, hi (by omega) hl (by rw [if_neg hne]; exact hsum), if_neg hne, lastTime_cons hwin]
  congr 2
  omega

lemma gravityLoop_fault (hl : (visited last (n + 1) (b :: pprev)).length ≠ n + 1) :
    gravityLoop last nBlocks (n + 1) (b :: pprev) bn nActualTimespan = Check.fault .outOfRange := by
  induction n generalizing b pprev bn nActualTimespan
  case zero => simp [visited] at hl
  case succ n hi =>
  rw [visited, length_cons, ne_eq, Nat.succ_inj] at hl
  rw [gravityLoop, if_neg (Nat.succ_ne_zero n)]
  cases hcur : last pprev
  case nil => rfl
  case cons cur rest =>
  rw [hcur] at hl
  exact hi hl

lemma gravity_fault (hn : 0 < nBlocks) (hh : ¬(pLast = [] ∨ nHeight pLast < nBlocks))
    (hl : (visited last nBlocks pLast).length ≠ nBlocks) :
    params.gravity last nBlocks nTargetTimespan pLast = Check.fault .outOfRange := by
  have ⟨n, hnb⟩ : ∃ n, nBlocks = n + 1 := ⟨nBlocks - 1, by omega⟩
  subst hnb
  cases pLast
  case nil => exact absurd (.inl rfl) hh
  case cons b pprev =>
  rw [gravity, if_neg hh, gravityLoop_fault hl]
  rfl

-- When an average gives a target: there are enough entries, and the average less the size of the
-- window, times the limited span, in the wrapping arithmetic of the source, is not less than the wanted
-- span.
structure GravityWorkable (window : List IndexHeader) (nBlocks : Nat) (nTargetTimespan : Int) :
    Prop where
  enough : window.length = nBlocks
  span : nTargetTimespan ≤ mul (sub (windowSum window / (nBlocks + 1)) (nBlocks + 1))
    (limited (windowTime window) nTargetTimespan 3)

lemma gravity_full (hn : 0 < nBlocks) (hn' : nBlocks < 2 ^ 7)
    (hh : ¬(pLast = [] ∨ nHeight pLast < nBlocks))
    (hw : ∀ b ∈ visited last nBlocks pLast, b.target ≤ MAX_TARGET)
    (hl : (visited last nBlocks pLast).length = nBlocks) :
    params.gravity last nBlocks nTargetTimespan pLast = do
      return getCompact (min (← div (mul
        (sub (windowSum (visited last nBlocks pLast) / (nBlocks + 1)) (nBlocks + 1))
        (limited (windowTime (visited last nBlocks pLast)) nTargetTimespan 3))
        nTargetTimespan) params.powLimit) := by
  have ⟨n, hnb⟩ : ∃ n, nBlocks = n + 1 := ⟨nBlocks - 1, by omega⟩
  subst hnb
  rw [gravity, if_neg hh]
  cases pLast
  case nil => exact absurd (.inl rfl) hh
  case cons b pprev =>
  have hsum : b.target + ((visited last (n + 1) (b :: pprev)).map IndexHeader.target).sum <
      2 ^ 256 := by
    have hb := hw b (by simp [visited])
    have hle := sum_le_card_nsmul
      ((visited last (n + 1) (b :: pprev)).map IndexHeader.target) MAX_TARGET (by
        intro t hm
        have ⟨c, hc, he⟩ := mem_map.mp hm
        exact he ▸ hw c hc)
    rw [length_map, hl, nsmul_eq_mul, Nat.cast_id] at hle
    have hmax : (n + 1) * MAX_TARGET ≤ 2 ^ 7 * MAX_TARGET := Nat.mul_le_mul_right _ hn'.le
    have hlt : 2 ^ 7 * MAX_TARGET + MAX_TARGET < 2 ^ 256 := by decide
    omega
  have hloop : gravityLoop last (n + 1) (n + 1) (b :: pprev) 0 0 =
      .ok (windowSum (visited last (n + 1) (b :: pprev)),
        windowTime (visited last (n + 1) (b :: pprev))) := by
    rw [gravityLoop_eq le_rfl hl (by rwa [if_pos rfl]), if_pos rfl, zero_add]
    rfl
  have hdiv : div (windowSum (visited last (n + 1) (b :: pprev))) ((n + 1 : Nat) + 1) =
      .ok (windowSum (visited last (n + 1) (b :: pprev)) / (n + 1 + 1)) :=
    div_eq (by omega) (by omega)
  rw [hloop]
  simp only [bind, Except.bind, hdiv]

lemma gravity_yields (hs : params.WorkSane) (hn : 0 < nBlocks) (hn' : nBlocks < 2 ^ 7)
    (ht : 0 < nTargetTimespan) (ht' : nTargetTimespan < 2 ^ 64)
    (hw : ∀ b ∈ visited last nBlocks pLast, b.target ≤ MAX_TARGET) :
    YieldsBits (params.gravity last nBlocks nTargetTimespan pLast) params.powLimit
      (pLast = [] ∨ nHeight pLast < nBlocks ∨
        GravityWorkable (visited last nBlocks pLast) nBlocks nTargetTimespan) := by
  have hpos := hs.stake_pos.trans_le hs.stake_le
  by_cases hshort : pLast = [] ∨ nHeight pLast < nBlocks
  · rw [gravity, if_pos hshort]
    refine (yields_getCompact hpos le_rfl hs.limit_le).congr (iff_of_true trivial ?_)
    exact hshort.imp_right .inl
  rw [← or_assoc, or_iff_right hshort]
  by_cases hl : (visited last nBlocks pLast).length = nBlocks
  · rw [gravity_full hn hn' hshort hw hl]
    refine (yields_div ht ht' hpos hs.limit_le).congr ?_
    exact ⟨fun h => ⟨hl, h⟩, fun h => h.span⟩
  rw [gravity_fault hn hshort hl]
  exact (yields_fault .outOfRange).congr (iff_of_false id fun h => hl h.enough)

lemma visited_id (n pindex) : visited id n pindex = pindex.take n := by
  induction n generalizing pindex
  case zero => rfl
  case succ n hi =>
  cases pindex
  case nil => rfl
  case cons b pprev => rw [visited, id, hi, take_succ_cons]

def minedEntries : CBlockIndex → List IndexHeader
  | [] => []
  | [b] => [b]
  | b :: pprev => if b.fProofOfStake then minedEntries pprev else b :: minedEntries pprev

lemma minedEntries_sublist (pindex) : (minedEntries pindex).Sublist pindex := by
  fun_induction minedEntries pindex
  case case1 => exact .slnil
  case case2 => exact .refl _
  case case3 hi => exact .cons _ hi
  case case4 hi => exact .cons_cons _ hi

lemma visited_mined (n pindex) :
    visited (params.getLastBlockIndex false) n (params.getLastBlockIndex false pindex) =
      (minedEntries pindex).take n := by
  fun_induction minedEntries pindex generalizing n
  case case1 => cases n <;> rfl
  case case2 b =>
    cases n
    case zero => rfl
    case succ n => cases n <;> rfl
  case case3 b pprev hne hb hi =>
    have hlast : params.getLastBlockIndex false (b :: pprev) =
        params.getLastBlockIndex false pprev := by
      cases pprev
      case nil => exact (hne rfl).elim
      case cons => simp [getLastBlockIndex, hb]
    rw [hlast, hi]
  case case4 b pprev hne hb hi =>
  have hlast : params.getLastBlockIndex false (b :: pprev) = b :: pprev := by
    cases pprev
    case nil => rfl
    case cons => simp [getLastBlockIndex, hb]
  rw [hlast]
  cases n
  case zero => rfl
  case succ n => rw [visited, hi, take_succ_cons]

-- A mined block can be required. Where the limit or a fixed target is asked for, it always can.
def MinedWorkable (params : Params) (pindexLast : CBlockIndex) : Prop :=
  let nNextHeight := nHeight pindexLast + 1
  if nNextHeight < params.nLyra2ZHeight then LegacyWorkable params pindexLast else
  if nNextHeight < params.nLyra2ZHeight + params.nPowAveragingWindowv1 then True else
  if nNextHeight < params.nNewDiffAdjustmentAlgorithmHeight then
    GravityWorkable (pindexLast.take params.nPowAveragingWindowv1) params.nPowAveragingWindowv1
      (params.nPowAveragingWindowv1 * params.nPowTargetSpacing *
        if nHeight pindexLast < params.TLRHeight then 5 else 1)
  else
  if nNextHeight < params.nNewDiffAdjustmentAlgorithmHeight + params.nPowAveragingWindowv2 then True
  else
    nHeight (params.getLastBlockIndex false pindexLast) < params.nPowAveragingWindowv2 ∨
    GravityWorkable ((minedEntries pindexLast).take params.nPowAveragingWindowv2)
      params.nPowAveragingWindowv2 (params.nPowAveragingWindowv2 * params.nPowTargetSpacing)

def Workable (params : Params) (pindexLast : CBlockIndex) (fProofOfStake : Bool) : Prop :=
  if fProofOfStake then StakeWorkable params pindexLast else MinedWorkable params pindexLast

lemma targetTimespan_bounds (hs : params.WorkSane) (hn : 0 < n) (hn' : n < 2 ^ 7) :
    0 < n * params.nPowTargetSpacing ∧ n * params.nPowTargetSpacing < 2 ^ 19 := by
  have hge := hs.spacing_ge
  have hlt := hs.spacing_lt
  have hle : n * params.nPowTargetSpacing ≤ 2 ^ 7 * params.nPowTargetSpacing :=
    Int.mul_le_mul_of_nonneg_right hn'.le (by omega)
  exact ⟨Int.mul_pos hn (by omega), by omega⟩

lemma gravity_short (hn : 0 < nBlocks) :
    (pLast = [] ∨ nHeight pLast < nBlocks ∨ p) ↔ nHeight pLast < nBlocks ∨ p := by
  refine ⟨fun h => ?_, .inr⟩
  cases h
  case inl h => exact .inl (h ▸ hn)
  case inr h => exact h

lemma darkGravityWaveOld_eq (params : Params) (pindexLast) :
    params.darkGravityWaveOld pindexLast = params.gravity id params.nPowAveragingWindowv1
      (params.nPowAveragingWindowv1 * params.nPowTargetSpacing *
        if nHeight pindexLast < params.TLRHeight then 5 else 1) pindexLast := by
  rw [darkGravityWaveOld]
  congr 1
  split <;> omega

lemma gravityWaveOld_yields (hs : params.WorkSane)
    (hall : ∀ b ∈ pindexLast, b.target ≤ MAX_TARGET)
    (hn : params.nLyra2ZHeight + params.nPowAveragingWindowv1 ≤ nHeight pindexLast + 1) :
    YieldsBits (params.darkGravityWaveOld pindexLast) params.powLimit
      (GravityWorkable (pindexLast.take params.nPowAveragingWindowv1) params.nPowAveragingWindowv1
        (params.nPowAveragingWindowv1 * params.nPowTargetSpacing *
          if nHeight pindexLast < params.TLRHeight then 5 else 1)) := by
  have ⟨hpos, hlt⟩ := targetTimespan_bounds hs (Int.natCast_pos.mpr hs.windowv1_pos)
    (by have := hs.windowv1_lt; omega)
  rw [darkGravityWaveOld_eq]
  have hw : ∀ b ∈ visited id params.nPowAveragingWindowv1 pindexLast, b.target ≤ MAX_TARGET := by
    rw [visited_id]
    exact fun b hb => hall b (mem_of_mem_take hb)
  refine (gravity_yields hs hs.windowv1_pos hs.windowv1_lt ?_ ?_ hw).congr ?_
  · split <;> omega
  · split <;> omega
  have hlyra := hs.lyra2Z_pos
  rw [visited_id, gravity_short hs.windowv1_pos, or_iff_right (by omega)]

lemma gravityWave_yields (hs : params.WorkSane) (hall : ∀ b ∈ pindexLast, b.target ≤ MAX_TARGET) :
    YieldsBits (params.darkGravityWave pindexLast) params.powLimit
      (nHeight (params.getLastBlockIndex false pindexLast) < params.nPowAveragingWindowv2 ∨
        GravityWorkable ((minedEntries pindexLast).take params.nPowAveragingWindowv2)
          params.nPowAveragingWindowv2
          (params.nPowAveragingWindowv2 * params.nPowTargetSpacing)) := by
  have ⟨hpos, hlt⟩ := targetTimespan_bounds hs (Int.natCast_pos.mpr hs.windowv2_pos)
    (by have := hs.windowv2_lt; omega)
  have hw : ∀ b ∈ visited (params.getLastBlockIndex false) params.nPowAveragingWindowv2
      (params.getLastBlockIndex false pindexLast), b.target ≤ MAX_TARGET := by
    rw [visited_mined]
    exact fun b hb => hall b ((minedEntries_sublist pindexLast).mem (mem_of_mem_take hb))
  refine (gravity_yields hs hs.windowv2_pos hs.windowv2_lt hpos (by omega) hw).congr ?_
  rw [visited_mined, gravity_short hs.windowv2_pos]

lemma next_yields (hs : params.WorkSane) (hne : pindexLast ≠ [])
    (hall : ∀ b ∈ pindexLast, b.target ≤ MAX_TARGET)
    (hlast : nHeight pindexLast < params.nLyra2ZHeight →
      ∀ b ∈ pindexLast.head?, Encodes params.powLimitLegacy b.nBits) (fProofOfStake nTime) :
    YieldsBits (params.getNextWorkRequired pindexLast fProofOfStake nTime)
      (params.workLimit (nHeight pindexLast + 1) fProofOfStake)
      (Workable params pindexLast fProofOfStake) := by
  rw [getNextWorkRequired, if_neg hne, if_pos (params.forkNumber_lt_three _)]
  cases fProofOfStake
  case true => exact forPos_yields hs pindexLast
  have hpos := hs.stake_pos.trans_le hs.stake_le
  simp only [getNextWorkRequiredForPow, workLimit, Workable, MinedWorkable,
    Bool.false_eq_true, if_false, Bool.not_false, Bool.true_and, decide_eq_true_eq]
  split
  case isTrue h =>
    cases pindexLast
    case nil => exact absurd rfl hne
    case cons b pprev => exact btc_yields hs (hlast (by omega) b rfl) nTime
  split
  · exact yields_getCompact hpos le_rfl hs.limit_le
  split
  · exact gravityWaveOld_yields hs hall (by omega)
  split
  · exact yields_ok ⟨by decide, by decide, hs.fixed_le⟩ (by decide)
  · exact gravityWave_yields hs hall

end

-- Chains whose blocks have the required bits, over a genesis block that could be mined.
def Regulated (params : Params) : CBlockIndex → Prop
  | [] => False
  | [b] => InRange (params.workLimit 0 false) b.nBits
  | b :: pprev =>
    params.getNextWorkRequired pprev b.fProofOfStake b.nTime = .ok b.nBits ∧ Regulated params pprev

section

variable {params : Params} {pindex : CBlockIndex}

lemma Regulated.ne_nil (h : Regulated params pindex) : pindex ≠ [] := by
  rintro rfl
  exact h

lemma workLimit_le (hs : params.WorkSane) : params.workLimit n fProofOfStake ≤ params.powLimit := by
  rw [workLimit]
  split
  · exact hs.legacy_le
  · exact le_rfl

lemma Regulated.encodes (hs : params.WorkSane) (h : Regulated params pindex) :
    (∀ b ∈ pindex, Encodes params.powLimit b.nBits) ∧
    (nHeight pindex < params.nLyra2ZHeight →
      ∀ b ∈ pindex.head?, Encodes params.powLimitLegacy b.nBits) := by
  fun_induction Regulated params pindex
  case case1 => exact h.elim
  case case2 b =>
    have he : Encodes params.powLimitLegacy b.nBits := by
      simpa [workLimit, hs.lyra2Z_pos] using h.1
    exact ⟨by simpa using he.mono hs.legacy_le, fun _ => by simpa using he⟩
  case case3 b pprev hne hi =>
  obtain ⟨hnext, h⟩ := h
  obtain ⟨hall, hlast⟩ := hi h
  have he := (next_yields hs h.ne_nil (fun c hc => (hall c hc).target_le.trans hs.limit_le) hlast
    b.fProofOfStake b.nTime).encodes hnext
  refine ⟨forall_mem_cons.mpr ⟨he.mono (workLimit_le hs), hall⟩, fun hn => ?_⟩
  have hheight : nHeight (b :: pprev) = nHeight pprev + 1 := by
    have := length_pos_of_ne_nil h.ne_nil
    simp only [nHeight, length_cons]
    omega
  rw [hheight] at hn
  cases hb : b.fProofOfStake
  case false =>
    rw [hb, workLimit, decide_eq_true hn] at he
    simpa using he
  have hf : params.forkNumber (nHeight pprev + 1) < 2 := by
    have := hs.lyra2Z_le
    rw [forkNumber, if_neg (by omega), if_neg (by omega)]
    decide
  rw [hb, getNextWorkRequired, if_neg h.ne_nil, if_pos (params.forkNumber_lt_three _),
    if_pos rfl, forPos_early hf] at hnext
  cases hnext

-- On such a chain a block can be required just if the times and targets before allow it.
theorem getNextWorkRequired_inRange_iff (hp : params = mainNet ∨ params = testNet)
    (h : Regulated params pindex) (fProofOfStake : Bool) (nTime : Nat) :
    (∃ nBits, params.getNextWorkRequired pindex fProofOfStake nTime = .ok nBits ∧
      InRange (params.workLimit (nHeight pindex + 1) fProofOfStake) nBits) ↔
    Workable params pindex fProofOfStake := by
  have hs := Params.WorkSane.of_net hp
  have ⟨hall, hlast⟩ := h.encodes hs
  exact (next_yields hs h.ne_nil (fun b hb => (hall b hb).target_le.trans hs.limit_le) hlast
    fProofOfStake nTime).inRange

def mainGenesis : IndexHeader where
  hash := mainNet.hashGenesisBlock
  nVersion := 1
  hashMerkleRoot := 0
  nTime := 1505338813
  nBits := 0x1e0ffff0
  nNonce := 725170
  fProofOfStake := false

lemma mainGenesis_regulated : Regulated mainNet [mainGenesis] :=
  ⟨⟨by decide, by decide, by decide⟩, by decide⟩

theorem getNextWorkRequired_inRange_iff_genesis :
    ∃ nBits, mainNet.getNextWorkRequired [mainGenesis] false 1505338814 = .ok nBits ∧
      InRange (mainNet.workLimit 1 false) nBits := by
  refine (getNextWorkRequired_inRange_iff (.inl rfl) mainGenesis_regulated false 1505338814).mpr ?_
  intro b hb
  cases hb
  decide

def hastyChain : Nat → CBlockIndex
  | 0 => [mainGenesis]
  | n + 1 =>
    let nTime := mainGenesis.nTime + n + 1
    match mainNet.getNextWorkRequired (hastyChain n) false nTime with
    | .ok nBits => { mainGenesis with nTime := nTime, nBits := nBits } :: hastyChain n
    | .error _ => hastyChain n

lemma hastyChain_regulated (n) : Regulated mainNet (hastyChain n) := by
  induction n
  case zero => exact mainGenesis_regulated
  case succ n hi =>
  rw [hastyChain]
  split
  case h_1 nBits h =>
    cases hc : hastyChain n
    case nil => exact absurd hc hi.ne_nil
    case cons => exact ⟨hc ▸ h, hc ▸ hi⟩
  case h_2 => exact hi

-- A staked block on genesis fails an assertion, and 235 quick blocks leave nothing to mine.
theorem getNextWorkRequired_not_inRange :
    (Regulated mainNet [mainGenesis] ∧
      mainNet.getNextWorkRequired [mainGenesis] true 1505338814 = Check.fault .assertion) ∧
    (Regulated mainNet (hastyChain 235) ∧
      mainNet.getNextWorkRequired (hastyChain 235) false 1505339049 = .ok 0 ∧
      ¬ InRange (mainNet.workLimit 236 false) 0) := by
  refine ⟨⟨mainGenesis_regulated, ?_⟩, ?_, ?_, fun h => h.2 (by decide)⟩
  case refine_2 => simp only [hastyChain_regulated]
  all_goals decide +kernel

end

end Taler
