import TalerModel.Chain.Theorems.Stake
import TalerModel.Validation.Theorems.CheckBlock

namespace Taler

open EStateM Params Nat Crypto

variable {params : Params} {tip p : CBlockIndex} {block : CBlockHeader} {out : COutPoint}
  {value : CAmount} {time offset : Nat} {st : StakeStore}

section

-- No modifier for a coin of this time: the tip or every generating entry below it is too young.
def Unripe (params : Params) (st : StakeStore) (tip : CBlockIndex) (time : Nat) : Prop :=
  tip.getBlockTime ≤ modifierBound params time ∨
    ∀ p : CBlockIndex, p <:+ tip.tail → p ≠ [] → st.generated p →
      modifierBound params time < p.getBlockTime

lemma kernelModifierEntry_eq_none_iff (hne : tip ≠ []) :
    kernelModifierEntry generated bound tip t = none ↔
      bound < t ∧ ∀ p : CBlockIndex, p <:+ tip.tail → p ≠ [] → generated p →
        bound < p.getBlockTime := by
  induction tip generalizing t
  case nil => exact absurd rfl hne
  case cons b pprev hi =>
  rw [kernelModifierEntry, List.tail_cons]
  by_cases ht : t > bound
  case neg =>
    rw [if_neg ht]
    exact iff_of_false nofun fun h => ht h.1
  rw [if_pos ht, and_iff_right ht]
  by_cases hp : pprev = []
  · rw [if_pos hp]
    refine iff_of_true rfl fun p hs hpn => ?_
    rw [hp, List.suffix_nil] at hs
    exact absurd hs hpn
  rw [if_neg hp, hi hp]
  have ⟨c, rest, hc⟩ := List.exists_cons_of_ne_nil hp
  subst hc
  constructor
  · rintro ⟨hlt, hall⟩ p hs hpn hg
    rcases List.suffix_cons_iff.mp hs with rfl | hs
    · rwa [if_pos hg] at hlt
    · exact hall p hs hpn hg
  intro hall
  refine ⟨?_, fun p hs => hall p (hs.trans (List.suffix_cons ..))⟩
  split
  case isTrue hg => exact hall _ List.suffix_rfl hp hg
  · exact ht

lemma kernelSource_eq_none_iff (hne : tip ≠ []) :
    kernelSource params st tip time = none ↔ Unripe params st tip time := by
  rw [kernelSource, Unripe]
  by_cases ht : tip.getBlockTime ≤ modifierBound params time
  · rw [if_pos ht]
    exact iff_of_true rfl (.inl ht)
  rw [if_neg ht, kernelModifierEntry_eq_none_iff hne, or_iff_right ht]
  exact and_iff_right (not_le.mp ht)

end

section

abbrev Crypto.withKernelHash (crypto : Crypto) (hash : Nat → Nat → Nat → Nat → Nat → Uint256) :
    Crypto :=
  { crypto with kernelHash := hash }

lemma unripe_of_immature (nTime : Nat) (h : (nTime : Int) - time < params.nStakeMinAge)
    (ht : tip.getBlockTime ≤
      nTime + (getStakeModifierSelectionInterval params - 2 * params.nStakeMinAge)) :
    Unripe params st tip time := by
  refine .inl ?_
  rw [modifierBound]
  omega

-- Kernels are rejected whatever their hash is just where there is no modifier for the coin.
theorem checkProofOfStake_rejects_iff (crypto : Crypto) (hne : tip ≠ []) :
    (∀ hash, ∃ st', @checkProofOfStake (crypto.withKernelHash hash) params tip block out value time
      offset st = .ok none st') ↔ Unripe params st tip time := by
  rw [← kernelSource_eq_none_iff hne]
  constructor
  · intro h
    by_contra hs
    have ⟨p, hp⟩ := Option.ne_none_iff_exists'.mp hs
    have ⟨m, st', _, hm⟩ := checkProofOfStake_of_some hne hp
    have ⟨st'', hz⟩ := h fun _ _ _ _ _ => 0
    have hm := @hm (crypto.withKernelHash fun _ _ _ _ _ => 0) block out value offset
    rw [hz] at hm
    split at hm
    case isTrue hlt => exact absurd hlt (not_lt_zero _)
    · nomatch hm
  intro h hash
  let _ := crypto.withKernelHash hash
  exact ⟨st, checkProofOfStake_of_none hne h⟩

-- The times of eleven blocks after the genesis block, all but the last of them a second apart.
def laggingChain (nTime : Nat) : CBlockIndex :=
  let genesis : IndexHeader :=
    { hash := 0, nVersion := 2, hashMerkleRoot := 0, nTime := nTime, nBits := 0x1e0ffff0, nNonce := 0,
      fProofOfStake := false }
  { genesis with hash := 12, nTime := nTime + 600000 } ::
    (List.range 11).reverse.map fun i => { genesis with hash := i, nTime := nTime + i }

def genesisModifier : StakeStore where
  generated p := p.length = 1
  modifiers _ := none
  stakeHashes _ := none

def hastyHeader (nTime nBits : Nat) : CBlockHeader where
  nVersion := 2
  hashPrevBlock := 12
  hashMerkleRoot := 0
  nTime := nTime
  nBits := nBits
  nNonce := 0
  nFlags := BLOCK_PROOF_OF_STAKE

theorem checkProofOfStake_rejects_iff_tip : laggingChain 1600000000 ≠ [] ∧
    ∀ hash, ∃ st', @checkProofOfStake (additive.withKernelHash hash) mainNet
      (laggingChain 1600000000) (hastyHeader 1600600060 0x1e0ffff0) { hash := 5, n := 0 } COIN
      1600500000 0 genesisModifier = .ok none st' :=
  ⟨by decide, (checkProofOfStake_rejects_iff additive (by decide)).mpr
    (unripe_of_immature 1600600060 (by decide) (by decide +kernel))⟩

-- Five blocks lag far behind, as may the next. It stakes a coin of nineteen seconds.
theorem checkProofOfStake_immature :
    (laggingChain 1600000000).getMedianTimePast < (hastyHeader 1600000020 0x1e0ffff0).nTime ∧
    ((hastyHeader 1600000020 0x1e0ffff0).nTime : Int) - 1600000001 < mainNet.nStakeMinAge ∧
    ∃ st', @checkProofOfStake (additive.withKernelHash fun _ _ _ _ _ => 2 ^ 250)
      mainNet (laggingChain 1600000000) (hastyHeader 1600000020 0x1e0ffff0)
      { hash := 5, n := 0 } COIN 1600000001 0 genesisModifier = .ok (some (2 ^ 250)) st' := by
  refine ⟨by decide +kernel, by decide, ?_⟩
  have hs : kernelSource mainNet genesisModifier (laggingChain 1600000000) 1600000001 =
      some ((laggingChain 1600000000).drop 11) := by
    decide +kernel
  have ⟨m, st', _, hm⟩ := checkProofOfStake_of_some (by decide) hs
  refine ⟨st', (@hm (additive.withKernelHash fun _ _ _ _ _ => 2 ^ 250) ..).trans ?_⟩
  have ht : ¬2 ^ 250 > kernelTarget mainNet (hastyHeader 1600000020 0x1e0ffff0) COIN
      1600000001 := by
    decide +kernel
  exact congrArg (Result.ok · st') (if_neg ht)

end

section

def stakeWeight (params : Params) (nTime time : Nat) (value : CAmount) : Nat :=
  value.toNat * (min ((nTime : Int) - time) params.nStakeMaxAge - params.nStakeMinAge).toNat /
    (COIN.toNat * params.nCoinAgeTick.toNat)

structure Params.StakeSane (params : Params) : Prop where
  tick_pos : 0 < params.nCoinAgeTick
  age_le : params.nStakeMinAge ≤ params.nStakeMaxAge
  age_lt : params.nStakeMaxAge - params.nStakeMinAge < 2 ^ 32
  step_le : params.nStakeMaxAge - params.nStakeMinAge ≤ COIN * params.nCoinAgeTick

lemma Params.StakeSane.of_net (h : params = mainNet ∨ params = testNet) : params.StakeSane := by
  rcases h with rfl | rfl <;> constructor <;> decide

lemma kernelTarget_eq (hs : params.StakeSane) (hv : 0 ≤ value) (hm : value ≤ MAX_MONEY)
    (ha : params.nStakeMinAge ≤ (block.nTime : Int) - time) :
    kernelTarget params block value time =
      (setCompact block.nBits).target * stakeWeight params block.nTime time value % 2 ^ 256 := by
  have hlt : value.toNat < 2 ^ 64 := (Int.toNat_lt hv).mpr (lt_of_le_of_lt hm (by decide))
  have h1 := hs.age_le
  have h2 := hs.age_lt
  have hprod : value.toNat * (min ((block.nTime : Int) - time) params.nStakeMaxAge -
      params.nStakeMinAge).toNat < 2 ^ 64 * 2 ^ 32 := Nat.mul_lt_mul'' hlt (by omega)
  rw [kernelTarget, stakeWeight, Int.emod_eq_of_lt hv (lt_of_le_of_lt hm (by decide)),
    Int.emod_eq_of_lt (by omega) (by omega),
    Nat.div_div_eq_div_mul, Nat.mod_eq_of_lt (hprod.trans (by decide))]

lemma stakeWeight_mono (h : value ≤ value') :
    stakeWeight params nTime time value ≤ stakeWeight params nTime time value' :=
  Nat.div_le_div_right (Nat.mul_le_mul_right _ (Int.toNat_le_toNat h))

lemma setCompact_target_lt (nBits) : (setCompact nBits).target < 2 ^ 256 := by
  simp only [setCompact]
  split
  · refine (div_le_self ..).trans_lt ((mod_lt _ (by decide)).trans (by decide))
  · exact mod_lt _ (by decide)

lemma exists_wrap (ha : a < 2 ^ 256) (h : 2 ^ 256 ≤ a * n) :
    ∃ k, k + 1 ≤ n ∧ a * k < 2 ^ 256 ∧ a * (k + 1) % 2 ^ 256 < a * k := by
  have hpos : 0 < a := by
    refine Nat.pos_of_ne_zero fun he => ?_
    rw [he, Nat.zero_mul] at h
    exact absurd h (by decide)
  have hmul := Nat.div_add_mod (2 ^ 256 - 1) a
  have hmod := Nat.mod_lt (2 ^ 256 - 1) hpos
  refine ⟨(2 ^ 256 - 1) / a, ?_, by omega, ?_⟩
  · by_contra hlt
    have := Nat.mul_le_mul_left a (Nat.le_of_lt_succ (not_le.mp hlt))
    omega
  rw [Nat.mul_succ]
  omega

lemma ceil_mul_div (ha : 0 < a) (hc : a ≤ c) (n) : (n * c + a - 1) / a * a / c = n := by
  have hmul := Nat.div_add_mod (n * c + a - 1) a
  have hmod := Nat.mod_lt (n * c + a - 1) ha
  rw [Nat.mul_comm] at hmul
  refine Nat.div_eq_of_lt_le (by omega) ?_
  rw [Nat.succ_mul]
  omega

lemma ceil_le (ha : 0 < a) (hc : 0 < c) (h : n ≤ m * a / c) : (n * c + a - 1) / a ≤ m := by
  have hle := (Nat.le_div_iff_mul_le hc).mp h
  refine Nat.lt_succ_iff.mp ((Nat.div_lt_iff_lt_mul ha).mpr ?_)
  rw [Nat.succ_mul]
  omega

lemma exists_stakeWeight_eq (hs : params.StakeSane)
    (hn : n + 1 ≤ stakeWeight params nTime time MAX_MONEY) :
    ∃ value value' : CAmount, 0 ≤ value ∧ value ≤ value' ∧ value' ≤ MAX_MONEY ∧
      stakeWeight params nTime time value = n ∧ stakeWeight params nTime time value' = n + 1 := by
  have htick := hs.tick_pos
  have hstep := hs.step_le
  simp only [stakeWeight] at hn ⊢
  have hage : (min ((nTime : Int) - time) params.nStakeMaxAge - params.nStakeMinAge).toNat ≤
      COIN.toNat * params.nCoinAgeTick.toNat := by
    rw [← Int.toNat_mul (by decide) htick.le]
    exact Int.toNat_le_toNat (le_trans (by omega) hstep)
  generalize (min ((nTime : Int) - time) params.nStakeMaxAge - params.nStakeMinAge).toNat = a at *
  generalize hc : COIN.toNat * params.nCoinAgeTick.toNat = c at *
  have ha : 0 < a := by
    refine Nat.pos_of_ne_zero fun he => ?_
    rw [he, Nat.mul_zero, Nat.zero_div] at hn
    omega
  have hle : (n * c + a - 1) / a ≤ ((n + 1) * c + a - 1) / a := by
    refine Nat.div_le_div_right ?_
    have := Nat.mul_le_mul_right c (Nat.le_add_right n 1)
    omega
  refine ⟨((n * c + a - 1) / a : Nat), (((n + 1) * c + a - 1) / a : Nat), Int.natCast_nonneg _,
    Int.ofNat_le.mpr hle, ?_, ?_, ?_⟩
  · exact (Int.ofNat_le.mpr (ceil_le ha (by omega) hn)).trans_eq (by decide)
  · rw [Int.toNat_natCast, ceil_mul_div ha hage]
  · rw [Int.toNat_natCast, ceil_mul_div ha hage]

def AcceptsKernel (crypto : Crypto) (params : Params) (st : StakeStore) (tip : CBlockIndex)
    (block : CBlockHeader) (out : COutPoint) (time offset : Nat) (value : CAmount) : Prop :=
  ∃ hash st', @checkProofOfStake crypto params tip block out value time offset st =
    .ok (some hash) st'

lemma exists_acceptsKernel_iff (hne : tip ≠ []) (h : kernelSource params st tip time = some p) :
    ∃ nStakeModifier, ∀ crypto block out offset value,
      AcceptsKernel crypto params st tip block out time offset value ↔
        crypto.kernelHash nStakeModifier time offset out.n block.nTime ≤
          kernelTarget params block value time := by
  have ⟨m, st', _, hcheck⟩ := checkProofOfStake_of_some hne h
  refine ⟨m, fun crypto block out offset value => ?_⟩
  have he := hcheck block out value offset
  constructor
  · rintro ⟨hash, st'', h⟩
    rw [he] at h
    split at h
    · nomatch h
    case isFalse hle => exact not_lt.mp hle
  · exact fun hle => ⟨_, st', he.trans (congrArg (Result.ok · st') (if_neg (not_lt.mpr hle)))⟩

-- Larger coins are accepted wherever smaller ones are, or the weight of the largest coin wraps.
theorem checkProofOfStake_mono_iff (hp : params = mainNet ∨ params = testNet)
    (crypto : Crypto) (hne : tip ≠ []) (ha : params.nStakeMinAge ≤ (block.nTime : Int) - time) :
    (∀ value value' : CAmount, 0 ≤ value → value ≤ value' → value' ≤ MAX_MONEY →
      ∀ hash, AcceptsKernel (crypto.withKernelHash hash) params st tip block out time offset value →
        AcceptsKernel (crypto.withKernelHash hash) params st tip block out time offset value') ↔
      Unripe params st tip time ∨
      (setCompact block.nBits).target * stakeWeight params block.nTime time MAX_MONEY < 2 ^ 256 := by
  have hs := Params.StakeSane.of_net hp
  cases hsrc : kernelSource params st tip time
  case none =>
    refine iff_of_true (fun value value' _ _ _ hash h => ?_)
      (.inl ((kernelSource_eq_none_iff hne).mp hsrc))
    have ⟨_, _, h⟩ := h
    let _ := crypto.withKernelHash hash
    rw [checkProofOfStake_of_none hne hsrc] at h
    nomatch h
  case some p =>
  have hripe : ¬Unripe params st tip time := by
    rw [← kernelSource_eq_none_iff hne, hsrc]
    nofun
  have ⟨m, haccepts⟩ := exists_acceptsKernel_iff hne hsrc
  rw [or_iff_right hripe]
  constructor
  case mp =>
    -- The first weight whose product wraps has a smaller target than the one before it.
    intro h
    by_contra hwrap
    have ⟨n, hn, hlt, hdown⟩ := exists_wrap (setCompact_target_lt block.nBits) (not_lt.mp hwrap)
    have ⟨value, value', hv, hle, hmax, hw, hw'⟩ := exists_stakeWeight_eq hs hn
    have hmono := h value value' hv hle hmax fun _ _ _ _ _ => (setCompact block.nBits).target * n
    rw [haccepts, haccepts, kernelTarget_eq hs hv (hle.trans hmax) ha,
      kernelTarget_eq hs (hv.trans hle) hmax ha, hw, hw', mod_eq_of_lt hlt] at hmono
    exact absurd (hmono le_rfl) (not_le.mpr hdown)
  case mpr =>
  intro hlt value value' hv hle hmax hash
  rw [haccepts, haccepts, kernelTarget_eq hs hv (hle.trans hmax) ha,
    kernelTarget_eq hs (hv.trans hle) hmax ha]
  have hw : stakeWeight params block.nTime time value ≤ stakeWeight params block.nTime time value' :=
    stakeWeight_mono hle
  have hw' : stakeWeight params block.nTime time value' ≤
      stakeWeight params block.nTime time MAX_MONEY := stakeWeight_mono hmax
  have hlt' := (mul_le_mul_left (setCompact block.nBits).target hw').trans_lt hlt
  have hle' := mul_le_mul_left (setCompact block.nBits).target hw
  rw [mod_eq_of_lt hlt', mod_eq_of_lt (hle'.trans_lt hlt')]
  exact fun h => h.trans hle'

theorem checkProofOfStake_mono_iff_common : laggingChain 1600000000 ≠ [] ∧
    ∀ value value' : CAmount, 0 ≤ value → value ≤ value' → value' ≤ MAX_MONEY → ∀ hash,
      AcceptsKernel (additive.withKernelHash hash) mainNet genesisModifier
        (laggingChain 1600000000) (hastyHeader 1600600060 0x1c08b5b1) { hash := 5, n := 0 }
        1600000001 0 value →
      AcceptsKernel (additive.withKernelHash hash) mainNet genesisModifier
        (laggingChain 1600000000) (hastyHeader 1600600060 0x1c08b5b1) { hash := 5, n := 0 }
        1600000001 0 value' :=
  ⟨by decide, (checkProofOfStake_mono_iff (.inl rfl) additive (by decide) (by decide)).mpr
    (.inr (by decide +kernel))⟩

-- With a target near the limit, 51 coins are accepted and 52 are not.
theorem checkProofOfStake_not_mono :
    (setCompact 0x2000ffff).target ≤ mainNet.powLimit ∧
    mainNet.nStakeMinAge ≤ ((hastyHeader 1600600060 0x2000ffff).nTime : Int) - 1600000001 ∧
    52 * COIN ≤ MAX_MONEY ∧
    AcceptsKernel (additive.withKernelHash fun _ _ _ _ _ => 2 ^ 255) mainNet
      genesisModifier (laggingChain 1600000000) (hastyHeader 1600600060 0x2000ffff)
      { hash := 5, n := 0 } 1600000001 0 (51 * COIN) ∧
    ¬AcceptsKernel (additive.withKernelHash fun _ _ _ _ _ => 2 ^ 255) mainNet
      genesisModifier (laggingChain 1600000000) (hastyHeader 1600600060 0x2000ffff)
      { hash := 5, n := 0 } 1600000001 0 (52 * COIN) := by
  have hs : kernelSource mainNet genesisModifier (laggingChain 1600000000) 1600000001 =
      some ((laggingChain 1600000000).drop 11) := by
    decide +kernel
  have ⟨m, haccepts⟩ := exists_acceptsKernel_iff (by decide) hs
  have hlo : 2 ^ 255 ≤ kernelTarget mainNet (hastyHeader 1600600060 0x2000ffff) (51 * COIN)
      1600000001 := by decide +kernel
  have hhi : ¬2 ^ 255 ≤ kernelTarget mainNet (hastyHeader 1600600060 0x2000ffff) (52 * COIN)
      1600000001 := by decide +kernel
  refine ⟨by decide, by decide, by decide, (haccepts ..).mpr hlo, fun h => hhi ((haccepts ..).mp h)⟩

end

end Taler
