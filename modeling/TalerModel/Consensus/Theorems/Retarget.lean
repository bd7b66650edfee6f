import TalerModel.Consensus.Theorems.Pow

namespace Taler

open ArithUint256 Params Nat

section

variable {bn bn' limit nSize nWord nSize' nWord' : Nat}

namespace Packs

lemma size_le (h : Packs nSize nWord bn) (h' : Packs nSize' nWord' bn') (hb : bn ≤ bn') :
    nSize ≤ nSize' := by
  by_contra hlt
  -- The smallest mantissa of the next size is more than the largest one of this size.
  have hpow : 2 ^ (8 * (nSize' + 1)) ≤ 2 ^ (8 * nSize) :=
    Nat.pow_le_pow_right (by decide) (by omega)
  have h1 := Nat.mul_le_mul h.word_ge hpow
  have h2 : (nWord' + 1) * 2 ^ (8 * nSize') ≤ 2 ^ 23 * 2 ^ (8 * nSize') :=
    Nat.mul_le_mul_right _ h'.word_lt
  have hmul : 2 ^ 15 * 2 ^ (8 * (nSize' + 1)) = 2 ^ 23 * 2 ^ (8 * nSize') := by
    rw [← Nat.pow_add, ← Nat.pow_add]
    congr 1
    omega
  have := h.le
  have := h'.lt
  omega

lemma unique (h : Packs nSize nWord bn) (h' : Packs nSize' nWord' bn) :
    nSize = nSize' ∧ nWord = nWord' := by
  have hsize := Nat.le_antisymm (h.size_le h' le_rfl) (h'.size_le h le_rfl)
  subst hsize
  refine ⟨rfl, ?_⟩
  have h1 := Nat.lt_of_mul_lt_mul_right (h.le.trans_lt h'.lt)
  have h2 := Nat.lt_of_mul_lt_mul_right (h'.le.trans_lt h.lt)
  omega

lemma sub_lt (h : Packs nSize nWord bn) (h' : Packs nSize nWord bn') (hb : bn' < 2 ^ 248) :
    bn' < bn + 2 ^ 233 := by
  have hlt : bn' * 2 ^ 24 < bn * 2 ^ 24 + 2 ^ (8 * nSize) := by
    have hle := h.le
    have hlt := h'.lt
    rw [add_mul, one_mul] at hlt
    omega
  have hle : 2 ^ 15 * 2 ^ (8 * nSize) ≤ bn' * 2 ^ 24 := (mul_le_mul_right _ h'.word_ge).trans h'.le
  omega

lemma sub_mul_lt (h : Packs nSize nWord bn) (he : bn' * 2 ^ 24 = nWord * 2 ^ (8 * nSize)) :
    (bn - bn') * 2 ^ 15 < bn := by
  have hge := Nat.mul_le_mul_right (2 ^ (8 * nSize)) h.word_ge
  have hle := h.le
  have hlt := h.lt
  rw [add_mul, one_mul] at hlt
  rw [Nat.sub_mul]
  omega

end Packs

def rounded (bn : Nat) : Nat :=
  (setCompact (getCompact bn)).target

lemma rounded_le (h : bn < 2 ^ 256) : rounded bn ≤ bn :=
  (getCompact_encodes h).1.target_le

lemma getCompact_eq_iff (hl : 0 < limit) (hm : limit < 2 ^ 256) (hb : bn ≤ limit) :
    getCompact bn = getCompact limit ↔ rounded limit ≤ bn := by
  obtain ⟨nSize, nWord, he, hp, hmul, -⟩ := setCompact_getCompact hl hm
  constructor
  · intro heq
    rw [rounded, ← heq]
    exact rounded_le (hb.trans_lt hm)
  intro hr
  have hle : nWord * 2 ^ (8 * nSize) ≤ bn * 2 ^ 24 := hmul ▸ Nat.mul_le_mul_right _ hr
  have hp' : Packs nSize nWord bn :=
    ⟨hp.word_ge, hp.word_lt, hle, (Nat.mul_le_mul_right _ hb).trans_lt hp.lt⟩
  have hpos : 0 < bn := by
    have := Nat.mul_pos ((by decide : 0 < 2 ^ 15).trans_le hp.word_ge) (Nat.two_pow_pos (8 * nSize))
    omega
  have ⟨_, _, he', hp''⟩ := getCompact_packs hpos
  have ⟨h1, h2⟩ := hp''.unique hp'
  rw [he', he, h1, h2]

lemma lt_of_getCompact_eq (h : getCompact bn = getCompact bn') (hb : bn' ≤ MAX_TARGET) :
    bn' < bn + 2 ^ 233 := by
  have hlt : bn' < 2 ^ 248 := lt_of_le_of_lt hb (by decide)
  by_cases hz' : bn' = 0
  · omega
  have ⟨nSize', nWord', he', hp'⟩ := getCompact_packs (pos_of_ne_zero hz')
  have hge' := hp'.word_ge
  have hlt' := hp'.word_lt
  by_cases hz : bn = 0
  · rw [hz, he'] at h
    have : getCompact 0 = 0 := rfl
    omega
  have ⟨nSize, nWord, he, hp⟩ := getCompact_packs (pos_of_ne_zero hz)
  have hlt := hp.word_lt
  have hsize : nSize = nSize' := by omega
  have hword : nWord = nWord' := by omega
  exact hp.sub_lt (hsize ▸ hword ▸ hp') ‹_›

lemma mantissa_lt (bn) : (if (ArithUint256.bits bn + 7) / 8 ≤ 3 then
    bn * 2 ^ (8 * (3 - (ArithUint256.bits bn + 7) / 8))
    else bn / 2 ^ (8 * ((ArithUint256.bits bn + 7) / 8 - 3))) < 2 ^ 24 := by
  have hb := lt_pow_of_bits bn
  generalize (ArithUint256.bits bn + 7) / 8 = nSize at *
  split
  · have hcases : nSize = 0 ∨ nSize = 1 ∨ nSize = 2 ∨ nSize = 3 := by omega
    rcases hcases with rfl | rfl | rfl | rfl <;> omega
  rw [Nat.div_lt_iff_lt_mul (Nat.two_pow_pos _), ← Nat.pow_add]
  exact hb.trans_eq (congrArg (2 ^ ·) (by omega))

lemma getCompactAsserted_ok (h : bn < 2 ^ 256) :
    getCompactAsserted bn = .ok (getCompact bn) := by
  have hs : (ArithUint256.bits bn + 7) / 8 ≤ 32 := by
    rw [ArithUint256.bits]
    split
    · decide
    case isFalse hz =>
    have := (Nat.log2_lt hz).mpr h
    omega
  have hm := mantissa_lt bn
  rw [getCompactAsserted, getCompact]
  generalize (ArithUint256.bits bn + 7) / 8 = nSize at *
  dsimp only
  rw [Nat.mod_eq_of_lt (hm.trans (by decide))]
  generalize (if nSize ≤ 3 then _ else _) = nCompact at *
  split
  · exact if_pos ⟨by omega, by omega⟩
  · exact if_pos ⟨by omega, by omega⟩

-- What has a mantissa of 23 bits is not rounded.
lemma rounded_eq (hw : nWord < 2 ^ 23) (he : bn * 2 ^ 24 = nWord * 2 ^ (8 * nSize))
    (hb : bn < 2 ^ 256) : rounded bn = bn := by
  by_cases hz : bn = 0
  · rw [hz]
    rfl
  obtain ⟨nSize', nWord', -, hp, hmul, -⟩ := setCompact_getCompact (pos_of_ne_zero hz) hb
  have hle := hp.le
  have hlt := hp.lt
  have hs : nSize' ≤ nSize := by
    by_contra hn
    have hpow : 2 ^ (8 * nSize) * 2 ^ 8 ≤ 2 ^ (8 * nSize') := by
      rw [← Nat.pow_add]
      exact Nat.pow_le_pow_right (by decide) (by omega)
    have h1 := Nat.mul_le_mul hp.word_ge hpow
    have h2 := Nat.mul_lt_mul_of_pos_right hw (Nat.two_pow_pos (8 * nSize))
    omega
  obtain ⟨k, rfl⟩ := Nat.exists_eq_add_of_le hs
  rw [Nat.mul_add, Nat.pow_add, Nat.mul_comm (2 ^ _), ← Nat.mul_assoc] at he
  rw [he] at hle hlt
  have h1 := Nat.le_of_mul_le_mul_right hle (Nat.two_pow_pos _)
  have h2 := Nat.lt_of_mul_lt_mul_right hlt
  have heq : nWord' = nWord * 2 ^ (8 * k) := by omega
  rw [← heq, ← hmul] at he
  exact (Nat.eq_of_mul_eq_mul_right (by decide) he).symm

lemma setCompact_mantissa (h : (setCompact nBits).fOverflow = false) :
    (setCompact nBits).target < 2 ^ 256 ∧ ∃ nWord < 2 ^ 23, ∃ nSize,
      (setCompact nBits).target * 2 ^ 24 = nWord * 2 ^ (8 * nSize) := by
  have hw : nBits % 2 ^ 23 < 2 ^ 23 := Nat.mod_lt _ (by decide)
  simp only [setCompact] at h ⊢
  generalize nBits % 2 ^ 23 = nWord at *
  generalize nBits / 2 ^ 24 = nSize at *
  split
  case isTrue hs =>
    have := Nat.div_le_self nWord (2 ^ (8 * (3 - nSize)))
    exact ⟨by omega, _, by omega, 3, rfl⟩
  case isFalse hs =>
  rw [if_neg hs] at h
  have hlt : nWord * 2 ^ (8 * (nSize - 3)) < 2 ^ 256 := by
    by_cases hz : nWord = 0
    · simp [hz]
    have ho : nSize ≤ 34 ∧ (nWord ≤ 0xff ∨ nSize ≤ 33) ∧ (nWord ≤ 0xffff ∨ nSize ≤ 32) := by
      simp [hz] at h
      omega
    have hb : nWord < 2 ^ (8 * (35 - nSize)) := by
      by_cases h32 : nSize ≤ 32
      · exact hw.trans_le (Nat.pow_le_pow_right (by decide) (by omega))
      obtain rfl | rfl : nSize = 33 ∨ nSize = 34 := by omega
      all_goals omega
    have := Nat.mul_lt_mul_of_pos_right hb (Nat.two_pow_pos (8 * (nSize - 3)))
    rwa [← Nat.pow_add, (by omega : 8 * (35 - nSize) + 8 * (nSize - 3) = 256)] at this
  rw [Nat.mod_eq_of_lt hlt]
  refine ⟨hlt, nWord, hw, nSize, ?_⟩
  rw [Nat.mul_assoc, ← Nat.pow_add]
  congr 2
  omega

theorem getCompact_canonical :
    (∀ x < 2 ^ 256, getCompactAsserted x = .ok (getCompact x) ∧
      (setCompact (getCompact x)).fNegative = false ∧
      (setCompact (getCompact x)).fOverflow = false ∧
      (setCompact (getCompact x)).target ≤ x ∧
      (0 < x → (x - (setCompact (getCompact x)).target) * 2 ^ 15 < x) ∧
      getCompact (setCompact (getCompact x)).target = getCompact x) ∧
    ∀ c < 2 ^ 32, (setCompact c).fNegative = false → (setCompact c).fOverflow = false →
      (setCompact (getCompact (setCompact c).target)).target = (setCompact c).target := by
  refine ⟨fun x hx => ?_, fun c hc _ ho => ?_⟩
  · obtain ⟨⟨hneg, hover, hle⟩, -⟩ := getCompact_encodes hx
    refine ⟨getCompactAsserted_ok hx, hneg, hover, hle, fun hz => ?_, ?_⟩
    · obtain ⟨nSize, nWord, -, hp, hmul, -⟩ := setCompact_getCompact hz hx
      exact hp.sub_mul_lt hmul
    by_cases hz : x = 0
    · rw [hz]
      rfl
    exact (getCompact_eq_iff (pos_of_ne_zero hz) hx hle).mpr le_rfl
  obtain ⟨hb, nWord, hw, nSize, he⟩ := setCompact_mantissa ho
  exact rounded_eq hw he hb

end

section

variable {params : Params} {pindexLast : CBlockIndex}

lemma mul_eq_mod (hn : 0 ≤ n) (hn' : n < 2 ^ 32) : mul bn n = bn * n.toNat % 2 ^ 256 := by
  rw [mul, Int.emod_eq_of_lt hn hn']

section


def stakedSpan (params : Params) (nActualSpacing : Int) : Int :=
  (params.difficultyAdjustmentIntervalPos - 1) * params.nPosTargetSpacing + 2 * nActualSpacing

def stakePeriod (params : Params) : Nat :=
  ((params.difficultyAdjustmentIntervalPos + 1) * params.nPosTargetSpacing).toNat

def STAKE_LIMIT : Nat := 0xdfffffffffffffffffffffffffffffffffffffffffffffffffffffffffffffff

def exactStakeTarget (params : Params) (bnOld : Nat) (nActualSpacing : Int) : Nat :=
  min params.powLimit
    (min (bnOld * (stakedSpan params nActualSpacing).toNat) STAKE_LIMIT / stakePeriod params)

lemma forPos_eq (hs : params.WorkSane) (hf : 2 ≤ params.forkNumber (nHeight pindexLast + 1))
    (hh : 730000 ≤ nHeight pindexLast + 1) (hpair : lastStaked params pindexLast = some (b, b')) :
    params.getNextWorkRequiredForPos pindexLast = .ok (getCompact (min
      (min (mul b.target (stakedSpan params (b.nTime - b'.nTime))) STAKE_LIMIT / stakePeriod params)
      params.powLimit)) := by
  have hlt := hs.stakeSpan_lt
  rw [getNextWorkRequiredForPos, decide_eq_false (not_lt.mpr hf)]
  rw [lastStaked] at hpair
  split at hpair
  case h_1 => cases hpair
  rename_i indexPrev pprev hprev
  split at hpair
  case h_1 => cases hpair
  case h_2 => cases hpair
  rename_i indexPrevPrev c rest hpp
  cases hpair
  simp only [hprev, hpp, ge_iff_le, hh, if_true]
  rw [div_eq hs.stakeSpan_pos (by omega), stakedSpan, two_mul, ← add_assoc]
  rfl

lemma capped_eq_iff (hd : 0 < period) (hc : cap < 2 ^ 256) (hl : limit ≤ MAX_TARGET)
    (hlarge : 2 ^ 24 ≤ min limit (cap / period)) :
    getCompact (min (min (n % 2 ^ 256) cap / period) limit) =
        getCompact (min limit (min n cap / period)) ↔
      n < 2 ^ 256 ∨ rounded (min limit (cap / period)) * period ≤ n % 2 ^ 256 := by
  by_cases hn : n < 2 ^ 256
  · simp only [Nat.mod_eq_of_lt hn, Nat.min_comm, hn, true_or]
  have hmax : min limit (cap / period) ≤ MAX_TARGET := (Nat.min_le_left ..).trans hl
  have hround := rounded_le (hmax.trans_lt (by decide))
  have hcap : min n cap = cap := Nat.min_eq_right (by omega)
  have hle : min (min (n % 2 ^ 256) cap / period) limit ≤ min limit (cap / period) := by
    rw [Nat.min_comm]
    exact Nat.le_min.mpr ⟨Nat.min_le_left .., (Nat.min_le_right ..).trans
      (Nat.div_le_div_right (Nat.min_le_right ..))⟩
  rw [hcap, getCompact_eq_iff (by omega) (hmax.trans_lt (by decide)) hle, or_iff_right hn, Nat.le_min,
    and_iff_left (hround.trans (Nat.min_le_left ..)), Nat.le_div_iff_mul_le hd, Nat.le_min]
  have hin : rounded (min limit (cap / period)) * period ≤ cap :=
    (Nat.mul_le_mul_right _ (hround.trans (Nat.min_le_right ..))).trans (Nat.div_mul_le_self ..)
  exact and_iff_left hin

-- Exact unless the product wraps, or even then, if the limits hide the difference.
theorem getNextWorkRequiredForPos_exact_iff (hp : params = mainNet ∨ params = testNet)
    (hh : 730000 ≤ nHeight pindexLast + 1) {b b' : IndexHeader}
    (hpair : lastStaked params pindexLast = some (b, b'))
    (hm : 0 < stakedSpan params (b.nTime - b'.nTime))
    (hm' : stakedSpan params (b.nTime - b'.nTime) < 2 ^ 32) :
    params.getNextWorkRequiredForPos pindexLast =
        .ok (getCompact (exactStakeTarget params b.target (b.nTime - b'.nTime))) ↔
      b.target * (stakedSpan params (b.nTime - b'.nTime)).toNat < 2 ^ 256 ∨
      rounded (min params.powLimit (STAKE_LIMIT / stakePeriod params)) * stakePeriod params ≤
        b.target * (stakedSpan params (b.nTime - b'.nTime)).toNat % 2 ^ 256 := by
  have hs := Params.WorkSane.of_net hp
  have hf : 2 ≤ params.forkNumber (nHeight pindexLast + 1) := by
    have htlr : params.TLRHeight ≤ 730000 := by rcases hp with rfl | rfl <;> decide
    rw [forkNumber, if_pos (htlr.trans hh)]
  have hlarge : 2 ^ 24 ≤ min params.powLimit (STAKE_LIMIT / stakePeriod params) := by
    rcases hp with rfl | rfl <;> decide
  rw [forPos_eq hs hf hh hpair, mul_eq_mod hm.le hm', exactStakeTarget, Except.ok.injEq]
  exact capped_eq_iff (Int.pos_iff_toNat_pos.mp hs.stakeSpan_pos) (by decide) hs.limit_le hlarge

variable (nBits nActualSpacing : Nat)

def stakedChain : CBlockIndex :=
  { mainGenesis with nTime := mainGenesis.nTime + nActualSpacing, nBits, fProofOfStake := true } ::
    { mainGenesis with nBits, fProofOfStake := true } :: mainGenesis ::
      List.replicate 729997 mainGenesis

-- For any number of blocks, which keeps the kernel from building the list.
lemma nHeight_replicate (a b c d : α) (n) :
    nHeight (a :: b :: c :: List.replicate n d) + 1 = n + 3 := by
  rw [nHeight, List.length_cons, List.length_cons, List.length_cons, List.length_replicate]
  rfl

lemma stakedChain_height : nHeight (stakedChain nBits nActualSpacing) + 1 = 730000 :=
  nHeight_replicate ..

lemma stakedChain_last : lastStaked mainNet (stakedChain nBits nActualSpacing) = some
      ({ mainGenesis with nTime := mainGenesis.nTime + nActualSpacing, nBits, fProofOfStake := true },
        { mainGenesis with nBits, fProofOfStake := true }) := by
  simp only [lastStaked, stakedChain, getLastBlockIndex, if_true]

theorem getNextWorkRequiredForPos_exact_iff_common :
    mainNet.getNextWorkRequiredForPos (stakedChain 0x1c08b5b1 140) =
      .ok (getCompact (exactStakeTarget mainNet (setCompact 0x1c08b5b1).target 140)) := by
  have hspan : (140 : Int) = ((mainGenesis.nTime + 140 : Nat) : Int) - mainGenesis.nTime := by decide
  rw [hspan]
  exact (getNextWorkRequiredForPos_exact_iff (.inl rfl) (stakedChain_height ..).ge
    (stakedChain_last 0x1c08b5b1 140) (by decide) (by decide)).mpr (.inl (by decide))

-- The last target is the largest. After more than a day the product wraps and the target falls.
theorem getNextWorkRequiredForPos_wraps :
    nHeight (stakedChain 0x1e0c2288 90000) + 1 = 730000 ∧
    lastStaked mainNet (stakedChain 0x1e0c2288 90000) = some
      ({ mainGenesis with
          nTime := mainGenesis.nTime + 90000, nBits := 0x1e0c2288, fProofOfStake := true },
        { mainGenesis with nBits := 0x1e0c2288, fProofOfStake := true }) ∧
    (0 < (setCompact 0x1e0c2288).target ∧ (setCompact 0x1e0c2288).target ≤ mainNet.powLimit) ∧
    (0 < stakedSpan mainNet 90000 ∧ stakedSpan mainNet 90000 < 2 ^ 32) ∧
    getCompact (exactStakeTarget mainNet (setCompact 0x1e0c2288).target 90000) = 0x1e0c2288 ∧
    mainNet.getNextWorkRequiredForPos (stakedChain 0x1e0c2288 90000) = .ok 0x1d11b7b0 := by
  refine ⟨stakedChain_height .., stakedChain_last .., by decide, by decide, by decide, ?_⟩
  have hh := stakedChain_height 0x1e0c2288 90000
  rw [forPos_eq (.of_net (.inl rfl)) (by rw [hh]; decide) hh.ge (stakedChain_last ..)]
  decide

end

section

structure Averageable (params : Params) (nBlocks : Nat) (window : List IndexHeader) : Prop where
  length : window.length = nBlocks
  target {b : IndexHeader} : b ∈ window → nBlocks + 1 ≤ b.target ∧ b.target ≤ params.powLimit

def weightedAverage (nBlocks : Nat) (nTargetTimespan : Int) (window : List IndexHeader) : Nat :=
  (windowSum window / (nBlocks + 1) - (nBlocks + 1)) *
    (limited (windowTime window) nTargetTimespan 3).toNat

def exactGravityTarget (params : Params) (nBlocks : Nat) (nTargetTimespan : Int)
    (window : List IndexHeader) : Nat :=
  min params.powLimit (weightedAverage nBlocks nTargetTimespan window / nTargetTimespan.toNat)

-- The product does not wrap, or what is left of it has the encoding of the limit.
def Unwrapped (params : Params) (nBlocks : Nat) (nTargetTimespan : Int) (window : List IndexHeader) :
    Prop :=
  weightedAverage nBlocks nTargetTimespan window < 2 ^ 256 ∨
    rounded params.powLimit * nTargetTimespan.toNat ≤
      weightedAverage nBlocks nTargetTimespan window % 2 ^ 256

lemma quotient_eq_iff (hd : 0 < period) (hd' : period < 2 ^ 22) (hl : limit ≤ MAX_TARGET)
    (hlarge : 2 ^ 24 ≤ limit) :
    getCompact (min (n % 2 ^ 256 / period) limit) = getCompact (min limit (n / period)) ↔
      n < 2 ^ 256 ∨ rounded limit * period ≤ n % 2 ^ 256 := by
  by_cases hn : n < 2 ^ 256
  · simp only [Nat.mod_eq_of_lt hn, Nat.min_comm, hn, true_or]
  rw [or_iff_right hn, ← Nat.le_div_iff_mul_le hd]
  have hm : limit < 2 ^ 256 := hl.trans_lt (by decide)
  have hround := rounded_le hm
  by_cases hlim : limit ≤ n / period
  · rw [Nat.min_eq_left hlim, getCompact_eq_iff (by omega) hm (Nat.min_le_right ..), Nat.le_min,
      and_iff_left hround]
  -- The two quotients are far apart.
  have hfar : n % 2 ^ 256 / period + 2 ^ 234 ≤ n / period := by
    rw [Nat.le_div_iff_mul_le hd, Nat.add_mul]
    have h1 := Nat.div_mul_le_self (n % 2 ^ 256) period
    omega
  refine iff_of_false (fun he => ?_) fun hle => ?_
  · have := lt_of_getCompact_eq he (by omega)
    omega
  have hr : getCompact (rounded limit) = getCompact limit :=
    (getCompact_eq_iff (by omega) hm hround).mpr le_rfl
  have := lt_of_getCompact_eq hr hl
  omega

variable {nBlocks : Nat}

lemma windowSum_bounds (hn : 0 < nBlocks) (hw : Averageable params nBlocks window) :
    (nBlocks + 1) * (nBlocks + 1) ≤ windowSum window ∧
    windowSum window ≤ (nBlocks + 1) * params.powLimit := by
  cases window
  case nil => exact absurd hw.length hn.ne
  case cons b window =>
  have hb := hw.target List.mem_cons_self
  have htargets {t : Nat} (ht : t ∈ (b :: window).map IndexHeader.target) :
      nBlocks + 1 ≤ t ∧ t ≤ params.powLimit := by
    have ⟨c, hc, he⟩ := List.mem_map.mp ht
    exact he ▸ hw.target hc
  have hge := List.card_nsmul_le_sum _ _ fun t ht => (htargets ht).1
  have hle := List.sum_le_card_nsmul _ _ fun t ht => (htargets ht).2
  rw [List.length_map, hw.length, nsmul_eq_mul, cast_id] at hge hle
  rw [windowSum, List.head?_cons, Option.map_some, Option.getD_some, succ_mul, succ_mul]
  omega

lemma gravity_exact_iff (hs : params.WorkSane) (hn : 0 < nBlocks) (hn' : nBlocks < 2 ^ 7)
    (ht : 0 < nTargetTimespan) (ht' : nTargetTimespan < 2 ^ 22) (hh : nBlocks ≤ nHeight pLast)
    (hw : Averageable params nBlocks (visited last nBlocks pLast)) :
    params.gravity last nBlocks nTargetTimespan pLast =
        .ok (getCompact (exactGravityTarget params nBlocks nTargetTimespan
          (visited last nBlocks pLast))) ↔
      Unwrapped params nBlocks nTargetTimespan (visited last nBlocks pLast) := by
  have hshort : ¬(pLast = [] ∨ nHeight pLast < nBlocks) := by
    rintro (rfl | hlt)
    · exact absurd hh (Nat.not_le.mpr hn)
    · omega
  have hmax : params.powLimit < 2 ^ 248 := Nat.lt_of_le_of_lt hs.limit_le (by decide)
  rw [gravity_full hn hn' hshort (fun b hb => (hw.target hb).2.trans hs.limit_le) hw.length,
    exactGravityTarget, Unwrapped, weightedAverage]
  have ⟨hge, hle⟩ := windowSum_bounds hn hw
  have ⟨htlo, hthi⟩ := limited_bounds (by decide : (1 : Int) ≤ 3) ht.le
    (windowTime (visited last nBlocks pLast))
  have hge := (Nat.le_div_iff_mul_le (by omega : 0 < nBlocks + 1)).mpr hge
  have hle := Nat.div_le_of_le_mul hle
  generalize windowSum (visited last nBlocks pLast) / (nBlocks + 1) = bnAverage at *
  have hsub : sub bnAverage (nBlocks + 1) = bnAverage - (nBlocks + 1) := by
    rw [sub, show bnAverage + 2 ^ 256 - (nBlocks + 1) = bnAverage - (nBlocks + 1) + 2 ^ 256 by omega,
      Nat.add_mod_right, Nat.mod_eq_of_lt (by omega)]
  rw [hsub, mul_eq_mod (by omega) (by omega), div_eq ht (by omega)]
  have hlarge : 2 ^ 24 ≤ params.powLimit :=
    ((by decide : 2 ^ 24 ≤ 2 ^ 32).trans hs.legacy_ge).trans hs.legacy_le
  exact (Except.ok.injEq ..).to_iff.trans
    (quotient_eq_iff (by omega) (by omega) hs.limit_le hlarge)

-- The averages are exact unless the product wraps, or if the limit hides the difference.
theorem darkGravityWave_exact_iff (hp : params = mainNet ∨ params = testNet)
    (pindexLast : CBlockIndex) :
    (params.nPowAveragingWindowv1 ≤ nHeight pindexLast →
      Averageable params params.nPowAveragingWindowv1
        (pindexLast.take params.nPowAveragingWindowv1) →
      let nTargetTimespan : Int := params.nPowAveragingWindowv1 * params.nPowTargetSpacing *
        if nHeight pindexLast < params.TLRHeight then 5 else 1
      let window := pindexLast.take params.nPowAveragingWindowv1
      (params.darkGravityWaveOld pindexLast = .ok (getCompact
          (exactGravityTarget params params.nPowAveragingWindowv1 nTargetTimespan window)) ↔
        Unwrapped params params.nPowAveragingWindowv1 nTargetTimespan window)) ∧
    (params.nPowAveragingWindowv2 ≤ nHeight (params.getLastBlockIndex false pindexLast) →
      Averageable params params.nPowAveragingWindowv2
        ((minedEntries pindexLast).take params.nPowAveragingWindowv2) →
      let nTargetTimespan : Int := params.nPowAveragingWindowv2 * params.nPowTargetSpacing
      let window := (minedEntries pindexLast).take params.nPowAveragingWindowv2
      (params.darkGravityWave pindexLast = .ok (getCompact
          (exactGravityTarget params params.nPowAveragingWindowv2 nTargetTimespan window)) ↔
        Unwrapped params params.nPowAveragingWindowv2 nTargetTimespan window)) := by
  have hs := Params.WorkSane.of_net hp
  constructor
  case left =>
    intro hh hw
    have ⟨hpos, hlt⟩ := targetTimespan_bounds hs (Int.natCast_pos.mpr hs.windowv1_pos)
      (by have := hs.windowv1_lt; omega)
    rw [darkGravityWaveOld_eq, ← visited_id]
    refine gravity_exact_iff hs hs.windowv1_pos hs.windowv1_lt ?_ ?_ hh (visited_id .. ▸ hw)
    all_goals split <;> omega
  case right =>
  intro hh hw
  have ⟨hpos, hlt⟩ := targetTimespan_bounds hs (Int.natCast_pos.mpr hs.windowv2_pos)
    (by have := hs.windowv2_lt; omega)
  rw [darkGravityWave, ← @visited_mined params]
  exact gravity_exact_iff hs hs.windowv2_pos hs.windowv2_lt hpos (by omega) hh
    (@visited_mined params _ _ ▸ hw)

def steadyChain (nBits n : Nat) : CBlockIndex :=
  (List.range n).reverse.map fun i => { mainGenesis with nTime := mainGenesis.nTime + 60 * i, nBits }

lemma steadyChain_averageable (h : nBlocks ≤ n)
    (ht : nBlocks + 1 ≤ (setCompact nBits).target ∧ (setCompact nBits).target ≤ mainNet.powLimit) :
    Averageable mainNet nBlocks ((steadyChain nBits n).take nBlocks) where
  length := by simpa [steadyChain] using h
  target := by
    intro b hb
    have ⟨i, _, he⟩ := List.mem_map.mp (List.mem_of_mem_take hb)
    exact he ▸ ht

theorem darkGravityWave_exact_iff_genesis :
    mainNet.darkGravityWaveOld (steadyChain 0x1e0ffff0 25) = .ok (getCompact
      (exactGravityTarget mainNet 24 7200 ((steadyChain 0x1e0ffff0 25).take 24))) ∧
    mainNet.darkGravityWave (steadyChain 0x1e0ffff0 121) = .ok (getCompact
      (exactGravityTarget mainNet 120 7200 ((steadyChain 0x1e0ffff0 121).take 120))) := by
  have hmined : minedEntries (steadyChain 0x1e0ffff0 121) = steadyChain 0x1e0ffff0 121 := by
    decide +kernel
  have hw1 : Averageable mainNet 24 ((steadyChain 0x1e0ffff0 25).take 24) :=
    steadyChain_averageable (by decide) (by decide)
  have hw2 : Averageable mainNet 120 ((steadyChain 0x1e0ffff0 121).take 120) :=
    steadyChain_averageable (by decide) (by decide)
  have hold := (darkGravityWave_exact_iff (.inl rfl) (steadyChain 0x1e0ffff0 25)).1 (by decide) hw1
  have hnew := (darkGravityWave_exact_iff (.inl rfl) (steadyChain 0x1e0ffff0 121)).2
    (by decide +kernel) (hmined.symm ▸ hw2)
  rw [hmined] at hnew
  exact ⟨hold.mpr (.inl (by decide +kernel)), hnew.mpr (.inl (by decide +kernel))⟩

-- With targets near the limit the products wrap, and both averages become much too small.
theorem darkGravityWave_wraps :
    Averageable mainNet 24 ((steadyChain 0x2000ffff 25).take 24) ∧
    getCompact (exactGravityTarget mainNet 24 7200 ((steadyChain 0x2000ffff 25).take 24)) =
      0x1f5554ff ∧
    mainNet.darkGravityWaveOld (steadyChain 0x2000ffff 25) = .ok 0x1f03697a ∧
    Averageable mainNet 120 ((minedEntries (steadyChain 0x2000ffff 121)).take 120) ∧
    getCompact (exactGravityTarget mainNet 120 7200
      ((minedEntries (steadyChain 0x2000ffff 121)).take 120)) = 0x2000fddc ∧
    mainNet.darkGravityWave (steadyChain 0x2000ffff 121) = .ok 0x1f081a50 := by
  have hmined : minedEntries (steadyChain 0x2000ffff 121) = steadyChain 0x2000ffff 121 := by
    decide +kernel
  rw [hmined]
  refine ⟨steadyChain_averageable (by decide) (by decide), ?_, ?_,
    steadyChain_averageable (by decide) (by decide), ?_, ?_⟩
  all_goals decide +kernel

end

end

end Taler
