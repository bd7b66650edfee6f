import TalerModel.Consensus.Theorems.Pow
import TalerModel.Validation.Accept
import TalerModel.Validation.Theorems.CheckBlock

namespace Taler

open ArithUint256 Params List

section

variable {params : Params} {pindexLast pprev : CBlockIndex} {b : IndexHeader}

structure Completes (x : Check α) : Prop where
  assertion : x ≠ Check.fault .assertion
  null : x ≠ Check.fault .outOfRange

lemma completes_ok (a) : Completes (.ok a : Check α) :=
  ⟨nofun, nofun⟩

lemma completes_div {f : Nat → Nat} (bn n) : Completes (do return f (← div bn n)) := by
  rw [div]
  split
  · constructor <;> intro h <;> cases h
  · exact completes_ok _

lemma forPos_completes_iff (pindexLast) : Completes (params.getNextWorkRequiredForPos pindexLast) ↔
      2 ≤ params.forkNumber (nHeight pindexLast + 1) := by
  by_cases hf : params.forkNumber (nHeight pindexLast + 1) < 2
  · rw [forPos_early hf]
    exact iff_of_false (fun h => h.assertion rfl) (Nat.not_le.mpr hf)
  refine iff_of_true ?_ (Nat.not_lt.mp hf)
  rw [getNextWorkRequiredForPos, decide_eq_false hf]
  cases params.getLastBlockIndex true pindexLast
  case nil => exact completes_ok _
  case cons indexPrev pprev =>
  cases hpp : params.getLastBlockIndex true pprev
  case nil =>
    simp only [hpp]
    exact completes_ok _
  case cons indexPrevPrev rest =>
  cases rest
  case nil =>
    simp only [hpp]
    exact completes_ok _
  case cons =>
  simp only [hpp]
  exact completes_div _ _

lemma lastUsual_ne_nil (nProofOfWorkLimit) (h : pindexLast ≠ []) :
    params.lastUsual nProofOfWorkLimit pindexLast ≠ [] := by
  fun_induction lastUsual params nProofOfWorkLimit pindexLast
  case case1 => exact absurd rfl h
  case case2 hc hi => exact hi hc.1
  case case3 => exact h

lemma btc_completes (hi : ∀ n, 0 < params.difficultyAdjustmentIntervalPow n) (nTime) :
    Completes (params.getNextWorkRequiredBTC (b :: pprev) nTime) := by
  rw [getNextWorkRequiredBTC]
  dsimp only
  split
  case isTrue hr =>
    split
    · split
      · exact completes_ok _
      split
      case h_1 he => exact absurd he (lastUsual_ne_nil _ (by simp))
      case h_2 => exact completes_ok _
    case isFalse => exact completes_ok _
  case isFalse hr =>
  obtain ⟨indexFirst, hf⟩ := exists_legacyFirst (hi _) (not_not.mp hr)
  obtain ⟨rest, hd⟩ := head?_eq_some_iff.mp hf
  rw [hd]
  dsimp only
  split
  · exact completes_ok _
  · exact completes_div _ _

lemma gravityLoop_ok (hl : (visited last n pindexLast).length = n) :
    ∃ r, gravityLoop last nBlocks n pindexLast bn nActualTimespan = .ok r := by
  induction n generalizing pindexLast bn nActualTimespan
  case zero => exact ⟨_, rfl⟩
  case succ n hi =>
  cases pindexLast
  case nil => simp [visited] at hl
  case cons b pprev =>
  rw [visited, length_cons, Nat.succ_inj] at hl
  rw [gravityLoop]
  split
  · exact ⟨_, rfl⟩
  rename_i hn
  cases hcur : last pprev
  case nil =>
    rw [hcur] at hl
    cases n
    case zero => exact absurd rfl hn
    case succ => simp [visited] at hl
  case cons cur rest => exact hi (hcur ▸ hl)

lemma gravity_completes_iff :
    Completes (params.gravity last nBlocks nTargetTimespan pLast) ↔
      nHeight pLast < nBlocks ∨ (visited last nBlocks pLast).length = nBlocks := by
  by_cases hshort : pLast = [] ∨ nHeight pLast < nBlocks
  · rw [gravity, if_pos hshort]
    refine iff_of_true (completes_ok _) ?_
    rcases hshort with rfl | hlt
    · cases nBlocks
      case zero => exact .inr rfl
      case succ n => exact .inl (Nat.succ_pos n)
    · exact .inl hlt
  rw [or_iff_right (not_or.mp hshort).2]
  by_cases hl : (visited last nBlocks pLast).length = nBlocks
  case neg =>
    have hn : 0 < nBlocks := by
      refine Nat.pos_of_ne_zero fun he => hl ?_
      rw [he, visited]
      rfl
    rw [gravity_fault hn hshort hl]
    exact iff_of_false (fun h => h.null rfl) hl
  case pos =>
  refine iff_of_true ?_ hl
  obtain ⟨r, hr⟩ : ∃ r, gravityLoop last nBlocks nBlocks pLast 0 0 = .ok r := gravityLoop_ok hl
  rw [gravity, if_neg hshort, hr]
  change Completes (do
    let bnNew ← div r.1 (nBlocks + 1)
    return getCompact (min (← div _ nTargetTimespan) params.powLimit))
  rw [div]
  split
  · constructor <;> intro h <;> cases h
  · exact completes_div _ _

-- Where retargeting completes. A staked block needs the second fork to be there, and the second average
-- needs as many mined blocks as its window has, the genesis block included, unless the last of them is
-- lower than that.
def Retargetable (params : Params) (pindexLast : CBlockIndex) (fProofOfStake : Bool) : Prop :=
  if fProofOfStake then params.TLRHeight ≤ nHeight pindexLast + 1 else
  params.nNewDiffAdjustmentAlgorithmHeight + params.nPowAveragingWindowv2 ≤ nHeight pindexLast + 1 →
    params.nLyra2ZHeight + params.nPowAveragingWindowv1 ≤ nHeight pindexLast + 1 →
    nHeight (params.getLastBlockIndex false pindexLast) < params.nPowAveragingWindowv2 ∨
    params.nPowAveragingWindowv2 ≤ (minedEntries pindexLast).length

theorem getNextWorkRequired_completes_iff
    (hi : ∀ n, 0 < params.difficultyAdjustmentIntervalPow n) (hne : pindexLast ≠ [])
    (fProofOfStake : Bool) (nTime : Nat) :
    Completes (params.getNextWorkRequired pindexLast fProofOfStake nTime) ↔
      Retargetable params pindexLast fProofOfStake := by
  rw [getNextWorkRequired, if_neg hne, if_pos (params.forkNumber_lt_three _), Retargetable]
  cases fProofOfStake
  case true =>
    rw [if_pos rfl, if_pos rfl, forPos_completes_iff, forkNumber]
    split
    case isTrue h => exact iff_of_true le_rfl h
    case isFalse h =>
    refine iff_of_false ?_ h
    split <;> omega
  case false =>
  rw [if_neg Bool.false_ne_true, if_neg Bool.false_ne_true, getNextWorkRequiredForPow]
  split
  case isTrue h =>
    cases pindexLast
    case nil => exact absurd rfl hne
    case cons b pprev => exact iff_of_true (btc_completes hi nTime) fun _ _ => by omega
  split
  · exact iff_of_true (completes_ok _) fun _ _ => by omega
  split
  case isTrue =>
    -- The window of the first average starts above the genesis block.
    refine iff_of_true ?_ fun _ _ => by omega
    rw [darkGravityWaveOld_eq, gravity_completes_iff, visited_id]
    refine .inr ?_
    rw [length_take, Nat.min_eq_left]
    have hlen : nHeight pindexLast + 1 = pindexLast.length := by
      have := length_pos_iff.mpr hne
      rw [nHeight]
      omega
    omega
  split
  · exact iff_of_true (completes_ok _) fun _ _ => by omega
  rw [darkGravityWave, gravity_completes_iff, visited_mined, length_take, min_eq_left_iff]
  exact ⟨fun h _ _ => h, fun h => h (by omega) (by omega)⟩

end

section

variable {params : Params} {pindex : CBlockIndex}

-- Chains whose staked blocks come after the second fork.
def Mixed (params : Params) : CBlockIndex → Prop
  | [] => True
  | b :: pprev => (b.fProofOfStake → params.TLRHeight ≤ pprev.length) ∧ Mixed params pprev

lemma Mixed.le_length (h : Mixed params pindex) :
    min params.TLRHeight pindex.length ≤ (minedEntries pindex).length := by
  fun_induction minedEntries pindex
  case case1 => exact Nat.min_le_right ..
  case case2 => exact Nat.min_le_right ..
  case case3 b pprev _ hb hi =>
    have hle := hi h.2
    have := h.1 hb
    omega
  case case4 b pprev _ _ hi =>
  have hle := hi h.2
  rw [length_cons, length_cons]
  omega

lemma Mixed.mainNet_retargetable (h : Mixed mainNet pindex) :
    Retargetable mainNet pindex false := by
  intro hn _
  refine .inr ?_
  have hle := h.le_length
  have hlen : nHeight pindex ≤ pindex.length := Nat.sub_le ..
  have h1 : mainNet.nNewDiffAdjustmentAlgorithmHeight = 250000 := rfl
  have h2 : mainNet.nPowAveragingWindowv2 = 120 := rfl
  have h3 : mainNet.TLRHeight = 130000 := rfl
  omega

end

section

local instance instCryptoNonces : Crypto :=
  { Crypto.additive with
    blockHash := fun p => if p.hashPrevBlock = 0 then mainNet.hashGenesisBlock else p.nNonce }

def freshNode : NodeChain :=
  ChainState.init blockProof mainGenesis 1

def mainContext : AcceptContext where
  params := mainNet
  fCheckpointsEnabled := true
  mapCheckpoints := []
  nAdjustedTime := 1600000000
  failedOrder := []
  verdict := fun _ _ => .accept

def stakedHeader : CBlockHeader where
  nVersion := 2
  hashPrevBlock := mainNet.hashGenesisBlock
  hashMerkleRoot := 7
  nTime := 1505338873
  nBits := 0x1e0ffff0
  nNonce := 1
  nFlags := BLOCK_PROOF_OF_STAKE

def thinChain : CBlockIndex :=
  { mainGenesis with nTime := 1600000000 } ::
    (replicate 21099 { mainGenesis with fProofOfStake := true } ++ replicate 20 mainGenesis)

lemma minedEntries_staked (hb : b.fProofOfStake) (hp : pprev ≠ []) (n) :
    minedEntries (replicate n b ++ pprev) = minedEntries pprev := by
  induction n
  case zero => rfl
  case succ n hi =>
  have hne : replicate n b ++ pprev ≠ [] := append_ne_nil_of_right_ne_nil _ hp
  rw [replicate_succ, cons_append, minedEntries, if_pos hb, hi]
  exact hne

lemma Mixed.staked (h : Mixed params pprev) (hl : params.TLRHeight ≤ pprev.length) (n) :
    Mixed params (replicate n b ++ pprev) := by
  induction n
  case zero => exact h
  case succ n hi =>
  refine ⟨fun _ => ?_, hi⟩
  change _ ≤ (replicate n b ++ pprev).length
  rw [length_append]
  omega

lemma Mixed.mined (h : ∀ b ∈ pindex, b.fProofOfStake = false) : Mixed params pindex := by
  induction pindex
  case nil => trivial
  case cons b pprev hi =>
  have ⟨hb, hp⟩ := forall_mem_cons.mp h
  exact ⟨fun hs => absurd (hb.symm.trans hs) Bool.false_ne_true, hi hp⟩

lemma thinChain_height : nHeight thinChain + 1 = 21120 := by
  rw [nHeight, thinChain, length_cons, length_append, length_replicate, length_replicate]

lemma thinChain_mined : (minedEntries thinChain).length = 21 := by
  rw [thinChain, minedEntries, if_neg (by decide), minedEntries_staked rfl (by decide)]
  · decide
  · exact append_ne_nil_of_right_ne_nil _ (by decide)

theorem getNextWorkRequired_completes_iff_genesis :
    Completes (mainNet.getNextWorkRequired [mainGenesis] false 1505338873) :=
  (getNextWorkRequired_completes_iff (Params.WorkSane.of_net (.inl rfl)).interval_pos (by decide) false
    1505338873).mpr (Mixed.mainNet_retargetable ⟨by decide, trivial⟩)

-- A staked header on genesis makes nodes fail, a mined one may make the average run off.
theorem getNextWorkRequired_crashes :
    (mainContext.acceptBlockHeader freshNode stakedHeader).1 = Check.fault .assertion ∧
    Mixed testNet thinChain ∧
    testNet.getNextWorkRequired thinChain false 1600000060 = Check.fault .outOfRange := by
  refine ⟨by decide +kernel, ?_, ?_⟩
  · have hmined : Mixed testNet (replicate 20 mainGenesis) :=
      Mixed.mined fun b hb => eq_of_mem_replicate hb ▸ rfl
    exact ⟨fun h => absurd h (by decide), hmined.staked (by decide) _⟩
  have hheight := thinChain_height
  have hlast : testNet.getLastBlockIndex false thinChain = thinChain := rfl
  have hrule : testNet.getNextWorkRequired thinChain false 1600000060 =
      testNet.darkGravityWave thinChain := by
    rw [getNextWorkRequired, if_neg (show thinChain ≠ [] from cons_ne_nil _ _),
      if_pos (forkNumber_lt_three ..), if_neg Bool.false_ne_true,
      getNextWorkRequiredForPow, hheight, if_neg (by decide), if_neg (by decide),
      if_neg (by decide), if_neg (by decide)]
  rw [hrule, darkGravityWave]
  refine gravity_fault (by decide) ?_ ?_
  · rw [hlast]
    rintro (he | hlt)
    · rw [thinChain] at he
      cases he
    have hw : testNet.nPowAveragingWindowv2 = 120 := rfl
    omega
  rw [visited_mined, length_take, thinChain_mined]
  decide

end

end Taler
