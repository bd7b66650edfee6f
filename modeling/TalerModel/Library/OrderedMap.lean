import Mathlib.Data.Finset.Card

-- Facts about ordered maps and sets: lookups with equality of keys in the place of the comparison, the
-- finite set of the keys whose value has a property, and sizes.
namespace OrderedMap

open Std

variable {κ α : Type} {cmp : κ → κ → Ordering} [TransCmp cmp]
variable {m : TreeMap κ α cmp} {t : TreeSet κ cmp} {k a : κ} {v : α}

lemma mem_iff : k ∈ m ↔ ∃ v, m[k]? = some v := by
  rw [TreeMap.mem_iff_isSome_getElem?, Option.isSome_iff_exists]

lemma mem_of_map {m' : TreeMap κ α cmp} (h : m'[k]? = m[k]?.map f) : k ∈ m' ↔ k ∈ m := by
  rw [TreeMap.mem_iff_isSome_getElem?, TreeMap.mem_iff_isSome_getElem?, h, Option.isSome_map]

variable [LawfulEqCmp cmp]

lemma nodup_toList : t.toList.Nodup :=
  TreeSet.distinct_toList.imp fun h he => h (LawfulEqCmp.compare_eq_iff_eq.mpr he)

lemma nodup_keys : m.keys.Nodup :=
  TreeMap.distinct_keys.imp fun h he => h (LawfulEqCmp.compare_eq_iff_eq.mpr he)

lemma mem_insert : a ∈ m.insert k v ↔ a = k ∨ a ∈ m := by
  rw [TreeMap.mem_insert, LawfulEqCmp.compare_eq_iff_eq, eq_comm]

lemma mem_erase : a ∈ m.erase k ↔ a ≠ k ∧ a ∈ m := by
  rw [TreeMap.mem_erase, ne_eq, LawfulEqCmp.compare_eq_iff_eq, ← ne_eq, ne_comm]

lemma mem_insertIfNew : a ∈ m.insertIfNew k v ↔ a = k ∨ a ∈ m := by
  rw [TreeMap.mem_insertIfNew, LawfulEqCmp.compare_eq_iff_eq, eq_comm]

variable [DecidableEq κ]

lemma getElem?_insert : (m.insert k v)[a]? = if a = k then some v else m[a]? := by
  simp only [TreeMap.getElem?_insert, LawfulEqCmp.compare_eq_iff_eq]
  exact if_congr eq_comm rfl rfl

lemma getElem?_erase : (m.erase k)[a]? = if a = k then none else m[a]? := by
  simp only [TreeMap.getElem?_erase, LawfulEqCmp.compare_eq_iff_eq]
  exact if_congr eq_comm rfl rfl

lemma getElem?_modify : (m.modify k f)[a]? = if a = k then m[a]?.map f else m[a]? := by
  simp only [TreeMap.getElem?_modify, LawfulEqCmp.compare_eq_iff_eq]
  by_cases h : k = a
  · simp [h]
  · simp [h, Ne.symm h]

lemma getElem?_insertIfNew :
    (m.insertIfNew k v)[a]? = if a = k then some (m[a]?.getD v) else m[a]? := by
  simp only [TreeMap.getElem?_insertIfNew, LawfulEqCmp.compare_eq_iff_eq]
  by_cases h : k = a
  · subst h
    cases hk : m[k]?
    case none =>
      have hn : k ∉ m := by simp [mem_iff, hk]
      simp [hn]
    case some w => simp [mem_iff.mpr ⟨w, hk⟩]
  · simp [h, Ne.symm h]

lemma mem_modify : a ∈ m.modify k f ↔ a ∈ m := by
  simp only [TreeMap.mem_iff_isSome_getElem?, getElem?_modify]
  split <;> simp

def keysOf (m : TreeMap κ α cmp) (p : α → Bool) : Finset κ :=
  ((m.toList.filter fun e => p e.2).map Prod.fst).toFinset

lemma mem_keysOf : k ∈ keysOf m p ↔ ∃ v, m[k]? = some v ∧ p v := by
  simp [keysOf, TreeMap.mem_toList_iff_getElem?_eq_some]

lemma length_filter_toList (m : TreeMap κ α cmp) (p) :
    (m.toList.filter fun e => p e.2).length = (keysOf m p).card := by
  have hnd : (m.toList.map Prod.fst).Nodup := TreeMap.map_fst_toList_eq_keys ▸ nodup_keys
  rw [keysOf, List.toFinset_card_of_nodup (hnd.sublist (List.filter_sublist.map _)), List.length_map]

lemma card_keysOf {m' : TreeMap κ α cmp} (p) (k : κ)
    (h : ∀ a, a ≠ k → m'[a]? = m[a]?) : ((keysOf m' p).card : Int) =
      (keysOf m p).card - (if m[k]?.any p then 1 else 0) + if m'[k]?.any p then 1 else 0 := by
  have hcard (m : TreeMap κ α cmp) : ((keysOf m p).card : Int) =
      ((keysOf m p).erase k).card + if m[k]?.any p then 1 else 0 := by
    have hk : k ∈ keysOf m p ↔ m[k]?.any p = true := by
      rw [mem_keysOf, Option.any_eq_true]
    by_cases hm : k ∈ keysOf m p
    · rw [if_pos (hk.mp hm), ← Finset.card_erase_add_one hm]
      simp
    rw [if_neg (hm ∘ hk.mpr), Finset.erase_eq_of_notMem hm]
    simp
  have he : (keysOf m' p).erase k = (keysOf m p).erase k := by
    ext a
    rw [Finset.mem_erase, Finset.mem_erase, mem_keysOf, mem_keysOf]
    exact and_congr_right fun ha => by rw [h a ha]
  rw [hcard m', hcard m, he]
  omega

-- A set or a map has as many elements as the finite set of its keys.

lemma treeSet_size_eq_card {S : Finset κ} (h : ∀ k, k ∈ t ↔ k ∈ S) : t.size = S.card := by
  have hs : t.toList.toFinset = S := by
    ext k
    simp [h]
  rw [← hs, List.toFinset_card_of_nodup nodup_toList, TreeSet.length_toList]

lemma size_eq_card {S : Finset κ} (h : ∀ k, k ∈ m ↔ k ∈ S) : m.size = S.card := by
  have hs : m.keys.toFinset = S := by
    ext k
    simp [h]
  rw [← hs, List.toFinset_card_of_nodup nodup_keys, TreeMap.length_keys]

end OrderedMap
