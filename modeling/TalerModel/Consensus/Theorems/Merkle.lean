import TalerModel.Consensus.Merkle
import Mathlib.Data.Nat.Log
import Mathlib.Data.Nat.Pairing

namespace Taler

open Crypto

variable [Crypto]

def Crypto.PairsBind : Prop :=
  Function.Injective2 sha256d64

namespace Merkle

lemma nextLevel_length (l) : (nextLevel l).length = (l.length + 1) / 2 := by
  fun_induction nextLevel l <;> grind

lemma clog_nextLevel (h : 1 < l.length) :
    Nat.clog 2 l.length = Nat.clog 2 (nextLevel l).length + 1 := by
  rw [nextLevel_length, Nat.clog_of_two_le (by omega) h]
  rfl

lemma nextLevel_inj (hash : PairsBind) (h1 : hasEqualPair l1 = false)
    (h2 : hasEqualPair l2 = false) (h : nextLevel l1 = nextLevel l2) : l1 = l2 := by
  fun_induction nextLevel l1 generalizing l2
  case case1 =>
    cases l2 using nextLevel.fun_cases <;> simp [nextLevel] at h ⊢
  case case2 a =>
    cases l2 using nextLevel.fun_cases
    case case1 => simp [nextLevel] at h
    case case2 b =>
      simp only [nextLevel, List.cons.injEq, and_true] at h
      rw [(hash h).1]
    case case3 b c rest =>
    simp only [nextLevel, List.cons.injEq] at h
    simp [hasEqualPair, (hash h.1).1.symm.trans (hash h.1).2] at h2
  case case3 a b rest hi =>
  simp only [hasEqualPair, Bool.or_eq_false_iff, decide_eq_false_iff_not] at h1
  cases l2 using nextLevel.fun_cases
  case case1 => simp [nextLevel] at h
  case case2 c =>
    simp only [nextLevel, List.cons.injEq] at h
    exact absurd ((hash h.1).1.trans (hash h.1).2.symm) h1.1
  case case3 c d rest' =>
  simp only [nextLevel, List.cons.injEq] at h
  simp only [hasEqualPair, Bool.or_eq_false_iff] at h2
  rw [(hash h.1).1, (hash h.1).2, hi h1.2 h2.2 h.2]

end Merkle

open Merkle computeMerkleRoot

lemma computeMerkleRoot.go_unmutated (h : (go fuel l m).2 = false) : m = false := by
  fun_induction go fuel l m <;> simp_all

-- By induction on the height of the trees: the levels above the leaves are equal, so the leaves are.
lemma computeMerkleRoot.go_binds (hash : PairsBind) (hn1 : 0 < l1.length)
    (hn2 : 0 < l2.length) (hh : Nat.clog 2 l1.length = Nat.clog 2 l2.length) (hf1 : l1.length ≤ f1)
    (hf2 : l2.length ≤ f2) (h1 : (go f1 l1 m1).2 = false) (h2 : (go f2 l2 m2).2 = false)
    (hr : (go f1 l1 m1).1 = (go f2 l2 m2).1) : l1 = l2 := by
  induction f1 generalizing l1 l2 m1 m2 f2
  case zero => omega
  case succ f1 hi =>
  obtain _ | f2 := f2
  · omega
  have hl : l1.length ≤ 1 ↔ l2.length ≤ 1 := by
    have hz n : Nat.clog 2 n ≤ 0 ↔ n ≤ 2 ^ 0 := Nat.clog_le_iff_le_pow (by simp)
    exact (hz _).symm.trans (hh ▸ hz _)
  rw [go] at h1 hr
  rw [go] at h2 hr
  by_cases hl1 : l1.length ≤ 1
  · have hl2 := hl.1 hl1
    obtain ⟨a, rfl⟩ := List.length_eq_one_iff.1 (by omega : l1.length = 1)
    obtain ⟨b, rfl⟩ := List.length_eq_one_iff.1 (by omega : l2.length = 1)
    simpa using hr
  have hl2 := hl.not.1 hl1
  rw [if_neg hl1] at h1 hr
  rw [if_neg hl2] at h2 hr
  have he1 := (Bool.or_eq_false_iff.1 (go_unmutated h1)).2
  have he2 := (Bool.or_eq_false_iff.1 (go_unmutated h2)).2
  rw [clog_nextLevel (by omega), clog_nextLevel (l := l2) (by omega),
    Nat.add_left_inj] at hh
  have hlen1 := nextLevel_length l1
  have hlen2 := nextLevel_length l2
  exact nextLevel_inj hash he1 he2
    (hi (by omega) (by omega) hh (by omega) (by omega) h1 h2 hr)

theorem computeMerkleRoot_binds (hash : PairsBind) {l1 l2 : List Uint256}
    (hn1 : l1 ≠ []) (hn2 : l2 ≠ []) (hh : Nat.clog 2 l1.length = Nat.clog 2 l2.length)
    (h1 : (computeMerkleRoot l1).2 = false) (h2 : (computeMerkleRoot l2).2 = false)
    (hr : (computeMerkleRoot l1).1 = (computeMerkleRoot l2).1) : l1 = l2 :=
  go_binds hash (List.length_pos_iff.mpr hn1) (List.length_pos_iff.mpr hn2) hh le_rfl le_rfl
    h1 h2 hr

@[reducible]
def Crypto.pairing : Crypto :=
  { additive with sha256d64 := Nat.pair }

omit [Crypto] in
theorem computeMerkleRoot_binds_odd :
    @Crypto.PairsBind pairing ∧ (@computeMerkleRoot pairing [5, 6, 7]).2 = false ∧
      [5, 6, 7] = [5, 6, 7] :=
  have hash : @Crypto.PairsBind pairing := fun _ _ _ _ => Nat.pair_eq_pair.1
  have hm : (@computeMerkleRoot pairing [5, 6, 7]).2 = false := by decide
  ⟨hash, hm, @computeMerkleRoot_binds pairing hash _ _ (by simp) (by simp) rfl hm hm rfl⟩

end Taler
