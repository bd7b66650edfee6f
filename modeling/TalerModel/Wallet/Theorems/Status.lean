import TalerModel.Wallet.State

namespace Taler

namespace NodeView

variable {node : NodeView} {pindex : CBlockIndex}

lemma contains_iff : node.contains pindex ↔ pindex ≠ [] ∧ pindex <:+ node.chainActive := by
  simp [contains]

lemma confirmations_pos (h : node.contains pindex) : 0 < node.confirmations pindex := by
  have ⟨hne, hs⟩ := contains_iff.mp h
  have hle := hs.length_le
  have hpos := List.length_pos_iff.mpr hne
  simp only [confirmations, height, nHeight]
  omega

end NodeView

namespace CMerkleTx

variable {node : NodeView} {wtx : CMerkleTx}

-- The transaction names a block of the active chain, as one that it is in or that it conflicts with.
def atBlock (node : NodeView) (wtx : CMerkleTx) : Bool :=
  !wtx.hashUnset && node.contains (node.lookupBlockIndex wtx.hashBlock)

lemma depth_of_not_atBlock (h : ¬wtx.atBlock node) : wtx.getDepthInMainChain node = 0 := by
  simp only [atBlock, Bool.and_eq_true, Bool.not_eq_true', not_and, Bool.not_eq_true] at h
  simp only [getDepthInMainChain]
  cases hu : wtx.hashUnset
  case true => rfl
  case false => simp [h hu]

lemma depth_of_atBlock (h : wtx.atBlock node) : wtx.getDepthInMainChain node =
    (if wtx.nIndex = -1 then -1 else 1) *
      node.confirmations (node.lookupBlockIndex wtx.hashBlock) := by
  simp only [atBlock, Bool.and_eq_true, Bool.not_eq_true'] at h
  simp [getDepthInMainChain, h.1, h.2]

lemma depth_pos_iff : 0 < wtx.getDepthInMainChain node ↔ wtx.atBlock node ∧ wtx.nIndex ≠ -1 := by
  by_cases h : wtx.atBlock node
  case neg => simp [depth_of_not_atBlock h, h]
  have hpos := NodeView.confirmations_pos (Bool.and_eq_true .. ▸ h : _ ∧ _).2
  rw [depth_of_atBlock h]
  split
  case isTrue hi => simp [hi]; omega
  case isFalse hi => simp [h, hi, hpos]

lemma depth_neg_iff : wtx.getDepthInMainChain node < 0 ↔ wtx.atBlock node ∧ wtx.nIndex = -1 := by
  by_cases h : wtx.atBlock node
  case neg => simp [depth_of_not_atBlock h, h]
  have hpos := NodeView.confirmations_pos (Bool.and_eq_true .. ▸ h : _ ∧ _).2
  rw [depth_of_atBlock h]
  split
  case isTrue hi => simp [h, hi, hpos]
  case isFalse hi => simp [hi]; omega

lemma isSpender_iff :
    wtx.isSpender node ↔ 0 ≤ wtx.getDepthInMainChain node ∧ ¬wtx.isAbandoned := by
  simp only [isSpender, Bool.or_eq_true, Bool.and_eq_true, decide_eq_true_eq, Bool.not_eq_true',
    Bool.not_eq_true]
  constructor
  · intro h
    cases h
    case inl h =>
      have ⟨hb, _⟩ := depth_pos_iff.mp h
      simp only [atBlock, hashUnset, Bool.and_eq_true, Bool.not_eq_true', Bool.or_eq_false_iff] at hb
      exact ⟨Int.le_of_lt h, hb.1.2⟩
    case inr h => exact ⟨Int.le_of_eq h.1.symm, h.2⟩
  intro ⟨hd, ha⟩
  cases Int.lt_or_eq_of_le hd
  case inl h => exact .inl h
  case inr h => exact .inr ⟨h.symm, ha⟩

end CMerkleTx

end Taler
