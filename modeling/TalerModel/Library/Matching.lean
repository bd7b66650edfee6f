import Mathlib.Data.List.NodupEquivFin

-- Matchings between two lists that keep the order, and what a greedy search for one relies on.

namespace List

variable {R : α → β → Prop} {as : List α} {bs : List β}

-- Every element of the first list has a partner in the second one, in the same order.
def Matches (R : α → β → Prop) (as : List α) (bs : List β) : Prop :=
  ∃ l, l <+ bs ∧ Forall₂ R as l

namespace Matches

lemma nil : Matches R [] bs :=
  ⟨[], nil_sublist bs, .nil⟩

lemma length_le (h : Matches R as bs) : as.length ≤ bs.length := by
  obtain ⟨l, hl, hf⟩ := h
  exact hf.length_eq ▸ hl.length_le

lemma cons_of_pos (h : R a b) : Matches R (a :: as) (b :: bs) ↔ Matches R as bs := by
  constructor
  · rintro ⟨l, hl, hf⟩
    cases hf
    case cons c l _ hf =>
    exact ⟨l, hl.tail, hf⟩
  rintro ⟨l, hl, hf⟩
  exact ⟨b :: l, hl.cons_cons b, .cons h hf⟩

lemma cons_of_neg (h : ¬R a b) : Matches R (a :: as) (b :: bs) ↔ Matches R (a :: as) bs := by
  constructor
  · rintro ⟨l, hl, hf⟩
    cases hl
    case cons hl => exact ⟨l, hl, hf⟩
    case cons_cons hl =>
      cases hf
      contradiction
  rintro ⟨l, hl, hf⟩
  exact ⟨l, hl.cons b, hf⟩

lemma reverse (h : Matches R as bs) : Matches R as.reverse bs.reverse := by
  obtain ⟨l, hl, hf⟩ := h
  exact ⟨l.reverse, hl.reverse, forall₂_reverse_iff.mpr hf⟩

lemma reverse_iff : Matches R as.reverse bs.reverse ↔ Matches R as bs := by
  refine ⟨fun h => ?_, reverse⟩
  simpa using h.reverse

lemma iff_strictMono : Matches R as bs ↔ ∃ f : Fin as.length → Fin bs.length,
    StrictMono f ∧ ∀ i, R (as.get i) (bs.get (f i)) := by
  constructor
  · rintro ⟨l, hl, hf⟩
    obtain ⟨f, he⟩ := sublist_iff_exists_fin_orderEmbedding_get_eq.mp hl
    obtain ⟨hlen, hr⟩ := forall₂_iff_get.mp hf
    refine ⟨fun i => f (i.cast hlen), fun i j hij => f.strictMono hij, fun i => ?_⟩
    rw [← he]
    exact hr i i.2 (hlen ▸ i.2)
  rintro ⟨f, hf, hr⟩
  refine ⟨ofFn fun i => bs.get (f i), ?_, ?_⟩
  · refine sublist_iff_exists_fin_orderEmbedding_get_eq.mpr ⟨(Fin.castOrderIso
      length_ofFn).toOrderEmbedding.trans (OrderEmbedding.ofStrictMono f hf), fun i => ?_⟩
    rw [get_ofFn]
    rfl
  refine forall₂_iff_get.mpr ⟨length_ofFn.symm, fun i hi _ => ?_⟩
  simpa using hr ⟨i, hi⟩

end Matches

end List
