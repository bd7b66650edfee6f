import TalerModel.Chain.BlockIndex
import Mathlib.Data.List.Infix

namespace Taler

variable {α : Type} {p q : List α} {height : Nat}

lemma ancestor_rule {P : List α → Prop} (step : ∀ b p, p ≠ [] → P (b :: p) → P p) (hp : P p)
    (hq : q <:+ p) (hn : q ≠ []) : P q := by
  have ⟨above, he⟩ := hq
  subst he
  induction above
  case nil => exact hp
  case cons b above hi =>
    exact hi (step b _ (List.append_ne_nil_of_right_ne_nil _ hn) hp) (List.suffix_append ..)

lemma getAncestor_isSuffix (p : List α) (height) : getAncestor p height <:+ p := by
  rw [getAncestor]
  split
  · exact List.nil_suffix
  · exact List.drop_suffix _ _

lemma length_getAncestor (h : height ≤ nHeight p) (hn : p ≠ []) :
    (getAncestor p height).length = height + 1 := by
  have := List.length_pos_of_ne_nil hn
  rw [getAncestor, if_neg (by omega), List.length_drop]
  rw [nHeight] at h
  omega

lemma nHeight_getAncestor (h : height ≤ nHeight p) (hn : p ≠ []) :
    nHeight (getAncestor p height) = height := by
  rw [nHeight, length_getAncestor h hn, Nat.add_sub_cancel]

lemma getAncestor_ne_nil (h : height ≤ nHeight p) (hn : p ≠ []) : getAncestor p height ≠ [] :=
  List.ne_nil_of_length_eq_add_one (length_getAncestor h hn)

lemma getAncestor_self (p : List α) : getAncestor p (nHeight p) = p := by
  simp [getAncestor, nHeight]

lemma getAncestor_suffix (h : q <:+ p) (hn : q ≠ []) (hh : height ≤ nHeight q) :
    getAncestor p height = getAncestor q height := by
  have ⟨above, ht⟩ := h
  have hpos := List.length_pos_iff.mpr hn
  have hl : p.length = above.length + q.length := by rw [← ht, List.length_append]
  simp only [nHeight] at hh
  have hd : p.length - 1 - height = above.length + (q.length - 1 - height) := by omega
  have hp : ¬height > nHeight p := by simp only [nHeight]; omega
  rw [getAncestor, getAncestor, if_neg hp, if_neg (by simp only [nHeight]; omega), hd, ← ht,
    List.drop_append]
  simp

lemma getAncestor_eq (h : q <:+ p) (hn : q ≠ []) : getAncestor p (nHeight q) = q :=
  (getAncestor_suffix h hn le_rfl).trans (getAncestor_self q)

lemma getAncestor_getAncestor (hij : i ≤ j) (hj : j ≤ nHeight p) (hn : p ≠ []) :
    getAncestor (getAncestor p j) i = getAncestor p i :=
  (getAncestor_suffix (getAncestor_isSuffix p j) (getAncestor_ne_nil hj hn)
    (by rwa [nHeight_getAncestor hj hn])).symm

lemma getAncestor_tail (h : height < nHeight p) :
    getAncestor p.tail height = getAncestor p height := by
  have hl : p.tail.length = nHeight p := List.length_tail
  refine (getAncestor_suffix (List.tail_suffix p) (List.ne_nil_of_length_pos (by omega)) ?_).symm
  rw [nHeight]
  omega

end Taler
