import TalerModel.Chain.Skip

namespace Taler

open List

variable {α : Type}

-- The last entry that two chains of the same length have in common.
def lastCommon [DecidableEq α] : List α → List α → List α
  | a :: pa, b :: pb => if a :: pa = b :: pb then a :: pa else lastCommon pa pb
  | _, _ => []

def lastCommonAncestor [DecidableEq α] (pa pb : List α) : List α :=
  if nHeight pa > nHeight pb then lastCommon (getAncestor pa (nHeight pb)) pb
  else if nHeight pb > nHeight pa then lastCommon pa (getAncestor pb (nHeight pa))
  else lastCommon pa pb

section

variable [DecidableEq α] {pa pb c : List α}

lemma lastCommon_suffix (pa pb : List α) : lastCommon pa pb <:+ pa ∧ lastCommon pa pb <:+ pb := by
  induction pa generalizing pb
  case nil => exact ⟨suffix_refl _, nil_suffix⟩
  case cons a pa hi =>
  cases pb
  case nil => exact ⟨nil_suffix, suffix_refl _⟩
  case cons b pb =>
  rw [lastCommon]
  split
  case isTrue he => exact ⟨suffix_refl _, he ▸ suffix_refl _⟩
  have ⟨ha, hb⟩ := hi pb
  exact ⟨ha.trans (suffix_cons a pa), hb.trans (suffix_cons b pb)⟩

lemma suffix_lastCommon (hl : pa.length = pb.length) (ha : c <:+ pa) (hb : c <:+ pb) :
    c <:+ lastCommon pa pb := by
  induction pa generalizing pb
  case nil =>
    rw [suffix_nil.mp ha]
    exact nil_suffix
  case cons a pa hi =>
  cases pb
  case nil => nomatch hl
  case cons b pb =>
  rw [lastCommon]
  split
  · exact ha
  rename_i hne
  cases suffix_cons_iff.mp ha
  case inl he =>
    have hc := hb.eq_of_length (by rw [he]; exact hl)
    exact absurd (he.symm.trans hc) hne
  rename_i ha
  cases suffix_cons_iff.mp hb
  case inl he =>
    have hlen := ha.length_le
    rw [he, length_cons] at hlen
    simp only [length_cons] at hl
    omega
  case inr hb => exact hi (Nat.succ_inj.mp hl) ha hb

omit [DecidableEq α] in
lemma getAncestor_lower (h : nHeight pb < nHeight pa) (hb : pb ≠ []) :
    getAncestor pa (nHeight pb) <:+ pa ∧ (getAncestor pa (nHeight pb)).length = pb.length := by
  have ha : pa ≠ [] := fun ha => Nat.not_lt_zero _ (ha ▸ h)
  refine ⟨getAncestor_isSuffix pa _, ?_⟩
  rw [length_getAncestor h.le ha, nHeight]
  exact Nat.sub_add_cancel (length_pos_iff.mpr hb)

lemma lastCommonAncestor_suffix (ha : pa ≠ []) (hb : pb ≠ []) :
    lastCommonAncestor pa pb <:+ pa ∧ lastCommonAncestor pa pb <:+ pb ∧
      ∀ c, c <:+ pa → c <:+ pb → c <:+ lastCommonAncestor pa pb := by
  have hpa := length_pos_iff.mpr ha
  have hpb := length_pos_iff.mpr hb
  rw [lastCommonAncestor]
  split
  case isTrue hgt =>
    have ⟨hs, hl⟩ := getAncestor_lower hgt hb
    have ⟨hsa, hsb⟩ := lastCommon_suffix (getAncestor pa (nHeight pb)) pb
    refine ⟨hsa.trans hs, hsb, fun c hca hcb => suffix_lastCommon hl ?_ hcb⟩
    exact suffix_of_suffix_length_le hca hs (hl ▸ hcb.length_le)
  rename_i hle
  split
  case isTrue hgt =>
    have ⟨hs, hl⟩ := getAncestor_lower hgt ha
    have ⟨hsa, hsb⟩ := lastCommon_suffix pa (getAncestor pb (nHeight pa))
    refine ⟨hsa, hsb.trans hs, fun c hca hcb => suffix_lastCommon hl.symm hca ?_⟩
    exact suffix_of_suffix_length_le hcb hs (hl ▸ hca.length_le)
  rename_i hge
  have ⟨hsa, hsb⟩ := lastCommon_suffix pa pb
  refine ⟨hsa, hsb, fun c hca hcb => suffix_lastCommon ?_ hca hcb⟩
  simp only [nHeight] at hle hge
  omega

end

end Taler
