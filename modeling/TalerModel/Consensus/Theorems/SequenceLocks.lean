import TalerModel.Chain.Theorems.Ancestor
import TalerModel.Consensus.TxInputs

namespace Taler

open CBlockIndex

-- A default `CBlockIndex`.
def IndexHeader.null : IndexHeader where
  hash := 0
  nVersion := 0
  hashMerkleRoot := 0
  nTime := 0
  nBits := 0
  nNonce := 0
  fProofOfStake := false

-- What BIP 68 asks of a height and a time for an input, given the height of the coin it spends.
def CTxIn.Allows (block : CBlockIndex) (nHeight nTime : Int) (txin : CTxIn) (nCoinHeight : Nat) :
    Prop :=
  txin.nSequence &&& SEQUENCE_LOCKTIME_DISABLE_FLAG = 0 →
    if txin.nSequence &&& SEQUENCE_LOCKTIME_TYPE_FLAG ≠ 0 then
      getMedianTimePast (getAncestor block (nCoinHeight - 1)) +
        ((txin.nSequence &&& SEQUENCE_LOCKTIME_MASK) * 512 : Nat) ≤ nTime
    else nCoinHeight + (txin.nSequence &&& SEQUENCE_LOCKTIME_MASK : Nat) ≤ nHeight

section

open List

lemma getMedianTimePast_nonneg (p) : 0 ≤ getMedianTimePast p :=
  Int.natCast_nonneg _

end

variable {block : CBlockIndex} {tx : CTransaction}

-- The locks are computed for one block, and may be compared with the height and time of another.
def LockPair.Below (nHeight nTime : Int) (lock : LockPair) : Prop :=
  lock.nMinHeight < nHeight ∧ lock.nMinTime < nTime

lemma LockPair.extend_below (lock : LockPair) (txin) (hb : block ≠ [])
    (h : nCoinHeight ≤ nHeight block) : ∃ lock', lock.extend block txin nCoinHeight = .ok lock' ∧
      ∀ {nHeight' nTime}, lock'.Below nHeight' nTime ↔
        lock.Below nHeight' nTime ∧ txin.Allows block nHeight' nTime nCoinHeight := by
  simp only [extend, CTxIn.Allows]
  split
  case isTrue hd => exact ⟨lock, rfl, by simp [hd]⟩
  rename_i hd
  rw [not_not] at hd
  split
  case isTrue ht =>
    split
    case h_1 hn => exact absurd hn (getAncestor_ne_nil (by omega) hb)
    refine ⟨_, rfl, ?_⟩
    simp only [Below, hd, SEQUENCE_LOCKTIME_GRANULARITY, Nat.shiftLeft_eq, forall_true_left]
    intro nHeight' nTime
    omega
  case isFalse ht =>
    refine ⟨_, rfl, ?_⟩
    simp only [Below, hd, forall_true_left]
    intro nHeight' nTime
    omega

lemma extendAll_below (lock : LockPair) (hb : block ≠ []) (h : ∀ p ∈ l, p.2 ≤ nHeight block) :
    ∃ lock', extendAll block lock l = .ok lock' ∧
      ∀ {nHeight' nTime}, lock'.Below nHeight' nTime ↔
        lock.Below nHeight' nTime ∧ ∀ p ∈ l, p.1.Allows block nHeight' nTime p.2 := by
  induction l generalizing lock
  case nil => exact ⟨lock, rfl, by simp⟩
  case cons p l hi =>
  rw [List.forall_mem_cons] at h
  obtain ⟨lock1, he, h1⟩ := lock.extend_below p.1 hb h.1
  obtain ⟨lock2, ha, h2⟩ := hi lock1 h.2
  refine ⟨lock2, ?_, fun {nHeight' nTime} => ?_⟩
  · rw [extendAll, he]
    exact ha
  rw [h2, h1, and_assoc, List.forall_mem_cons]

lemma calculateSequenceLocks_below (verifySequence)
    (hl : prevHeights.length = tx.vin.length) (hh : ∀ n ∈ prevHeights, n ≤ nHeight block)
    (hb : block ≠ []) :
    ∃ lock, calculateSequenceLocks tx verifySequence prevHeights block = .ok lock ∧
      ∀ {nHeight' nTime}, 0 ≤ nHeight' → 0 ≤ nTime → (lock.Below nHeight' nTime ↔
        (2 ≤ tx.nVersion.toNat ∧ verifySequence →
          ∀ p ∈ tx.vin.zip prevHeights, p.1.Allows block nHeight' nTime p.2)) := by
  rw [calculateSequenceLocks, if_neg (not_not.mpr hl)]
  split
  case isTrue he =>
    refine ⟨{}, rfl, fun {nHeight' nTime} h1 h2 => iff_of_true ?_ fun hv => ?_⟩
    · constructor <;> dsimp only <;> omega
    · simp [hv.1, hv.2] at he
  case isFalse he =>
    obtain ⟨lock, ha, hi⟩ := extendAll_below {} hb
      fun p h => hh _ (List.of_mem_zip h).2
    refine ⟨lock, ha, fun {nHeight' nTime} h1 h2 => ?_⟩
    have h0 : LockPair.Below nHeight' nTime {} := by
      constructor <;> dsimp only <;> omega
    simp at he
    rw [hi]
    exact ⟨fun h _ => h.2, fun h => ⟨h0, h he⟩⟩

lemma evaluateSequenceLocks_below (block lock) (hp : block.tail ≠ []) :
    ∃ fFinal, evaluateSequenceLocks block lock = .ok fFinal ∧
      (fFinal ↔ lock.Below (nHeight block) (getMedianTimePast block.tail)) := by
  rw [evaluateSequenceLocks, LockPair.Below]
  split
  · contradiction
  · exact ⟨_, rfl, by simp⟩

-- For any number of inputs of both types.
theorem sequenceLocks_iff_allows (hv : 2 ≤ tx.nVersion.toNat)
    (hl : prevHeights.length = tx.vin.length) (hh : ∀ n ∈ prevHeights, n ≤ nHeight block)
    (hp : block.tail ≠ []) :
    ∃ fFinal, sequenceLocks tx true prevHeights block = .ok fFinal ∧
      (fFinal ↔ ∀ p ∈ tx.vin.zip prevHeights,
        p.1.Allows block (nHeight block) (getMedianTimePast block.tail) p.2) := by
  have hb : block ≠ [] := by
    rintro rfl
    exact hp rfl
  obtain ⟨lock, hc, hi⟩ := calculateSequenceLocks_below true hl hh hb
  obtain ⟨fFinal, he, hf⟩ := evaluateSequenceLocks_below block lock hp
  have hi := hi (Int.natCast_nonneg (nHeight block)) (getMedianTimePast_nonneg block.tail)
  refine ⟨fFinal, ?_, ?_⟩
  · rw [sequenceLocks, hc]
    exact he
  · rw [hf, hi, forall_prop_of_true ⟨hv, rfl⟩]

-- Spends a coin one block after it was made.
def nextSpend : CTransaction where
  vin := [{ prevout := ⟨0, 0⟩, nSequence := 1 }]
  vout := []
  hash := 0
  witnessHash := 0

theorem sequenceLocks_iff_allows_next :
    ∃ fFinal, sequenceLocks nextSpend true [0] [.null, .null] = .ok fFinal ∧
      (fFinal ↔ ∀ p ∈ nextSpend.vin.zip [0],
        CTxIn.Allows [.null, .null] 1 (getMedianTimePast [.null]) p.1 p.2) :=
  sequenceLocks_iff_allows (by decide) rfl (by decide) (by decide)

end Taler
