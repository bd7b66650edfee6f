import Mathlib.Algebra.BigOperators.Group.Finset.Piecewise
import Mathlib.Tactic.Ring

-- Partial maps as functions into `Option`, with bulk updates, what it takes to undo them, and the
-- total of a weight over them.
namespace PartialMap

open Function List Prod

variable {K V : Type*} [DecidableEq K]

def insertAll (m : K → Option V) (kvs : List (K × V)) : K → Option V :=
  kvs.foldl (fun m kv => update m kv.1 (some kv.2)) m

def eraseAll (m : K → Option V) (ks : List K) : K → Option V :=
  ks.foldl (fun m k => update m k none) m

variable {m m' : K → Option V} {kvs : List (K × V)} {ks : List K} {k : K}

lemma insertAll_cons (m : K → Option V) (kv : K × V) (kvs : List (K × V)) :
    insertAll m (kv :: kvs) = insertAll (update m kv.1 (some kv.2)) kvs :=
  rfl

lemma eraseAll_cons (m : K → Option V) (k : K) (ks) :
    eraseAll m (k :: ks) = eraseAll (update m k none) ks :=
  rfl

lemma insertAll_not_mem (h : k ∉ kvs.map fst) : insertAll m kvs k = m k := by
  induction kvs generalizing m
  case nil => rfl
  case cons kv kvs hi =>
  have ⟨hk, h⟩ := ne_and_not_mem_of_not_mem_cons h
  rw [insertAll_cons, hi h, update_of_ne hk]

lemma eraseAll_not_mem (h : k ∉ ks) : eraseAll m ks k = m k := by
  induction ks generalizing m
  case nil => rfl
  case cons k' ks hi =>
  have ⟨hk, h⟩ := ne_and_not_mem_of_not_mem_cons h
  rw [eraseAll_cons, hi h, update_of_ne hk]

lemma eraseAll_mem (h : k ∈ ks) : eraseAll m ks k = none := by
  induction ks generalizing m
  case nil => simp at h
  case cons k' ks hi =>
  rw [eraseAll_cons]
  by_cases hk : k ∈ ks
  · exact hi hk
  have he : k = k' := (mem_cons.mp h).resolve_right hk
  rw [eraseAll_not_mem hk, he, update_self]

lemma exists_of_insertAll (h : k ∈ kvs.map fst) :
    ∃ v, (k, v) ∈ kvs ∧ insertAll m kvs k = some v := by
  induction kvs generalizing m
  case nil => simp at h
  case cons kv kvs hi =>
  rw [insertAll_cons]
  by_cases hk : k ∈ kvs.map fst
  · have ⟨v, hv, he⟩ := @hi (update m kv.1 (some kv.2)) hk
    exact ⟨v, mem_cons_of_mem _ hv, he⟩
  have he : k = kv.1 := (mem_cons.mp h).resolve_right hk
  refine ⟨kv.2, by simp [he], ?_⟩
  rw [insertAll_not_mem hk, he, update_self]

lemma insertAll_of_mem (hn : (kvs.map fst).Nodup) (h : (k, v) ∈ kvs) :
    insertAll m kvs k = some v := by
  have ⟨v', hv, he⟩ := @exists_of_insertAll _ _ _ m _ _ (mem_map_of_mem h)
  have hp := inj_on_of_nodup_map hn h hv rfl
  cases hp
  exact he

lemma insertAll_mem (hm : ∀ kv ∈ kvs, m' kv.1 = some kv.2) (h : k ∈ kvs.map fst) :
    insertAll m kvs k = m' k := by
  induction kvs generalizing m
  case nil => simp at h
  case cons kv kvs hi =>
  have ⟨hkv, hm⟩ := forall_mem_cons.mp hm
  rw [insertAll_cons]
  by_cases hk : k ∈ kvs.map fst
  · exact hi hm hk
  have he : k = kv.1 := (mem_cons.mp h).resolve_right hk
  rw [insertAll_not_mem hk, he, hkv, update_self]

lemma eraseAll_insertAll (h : ∀ kv ∈ kvs, m kv.1 = none) :
    eraseAll (insertAll m kvs) (kvs.map fst) = m := by
  funext k
  by_cases hk : k ∈ kvs.map fst
  · have ⟨kv, hm, he⟩ := mem_map.mp hk
    rw [eraseAll_mem hk, ← he, h kv hm]
  · rw [eraseAll_not_mem hk, insertAll_not_mem hk]

lemma insertAll_eraseAll (hm : ∀ kv ∈ kvs, m kv.1 = some kv.2)
    (hk : ∀ k, k ∈ ks ↔ k ∈ kvs.map fst) : insertAll (eraseAll m ks) kvs = m := by
  funext k
  by_cases h : k ∈ kvs.map fst
  · exact insertAll_mem hm h
  · rw [insertAll_not_mem h, eraseAll_not_mem (h ∘ (hk k).mp)]

section

def updateAll (m : K → Option V) (kvs : List (K × Option V)) : K → Option V :=
  kvs.foldl (fun m kv => update m kv.1 kv.2) m

variable {us us' : List (K × Option V)}

lemma updateAll_cons (m : K → Option V) (kv : K × Option V) (us : List (K × Option V)) :
    updateAll m (kv :: us) = updateAll (update m kv.1 kv.2) us :=
  rfl

lemma updateAll_append (m) (us us' : List (K × Option V)) :
    updateAll m (us ++ us') = updateAll (updateAll m us) us' :=
  foldl_append ..

-- Insertions and erasures are updates.

lemma insertAll_eq_updateAll (m) (kvs : List (K × V)) :
    insertAll m kvs = updateAll m (kvs.map fun kv => (kv.1, some kv.2)) := by
  rw [updateAll, foldl_map]
  rfl

lemma eraseAll_eq_updateAll (m : K → Option V) (ks) :
    eraseAll m ks = updateAll m (ks.map fun k => (k, none)) := by
  rw [updateAll, foldl_map]
  rfl

lemma updateAll_not_mem (h : k ∉ us.map fst) : updateAll m us k = m k := by
  induction us generalizing m
  case nil => rfl
  case cons kv us hi =>
  have ⟨hk, h⟩ := ne_and_not_mem_of_not_mem_cons h
  rw [updateAll_cons, hi h, update_of_ne hk]

lemma updateAll_mem (hm : ∀ kv ∈ us, m' kv.1 = kv.2) (h : k ∈ us.map fst) :
    updateAll m us k = m' k := by
  induction us generalizing m
  case nil => simp at h
  case cons kv us hi =>
  have ⟨hkv, hm⟩ := forall_mem_cons.mp hm
  rw [updateAll_cons]
  by_cases hk : k ∈ us.map fst
  · exact hi hm hk
  have he : k = kv.1 := (mem_cons.mp h).resolve_right hk
  rw [updateAll_not_mem hk, he, hkv, update_self]

lemma updateAll_of_mem (hn : (us.map fst).Nodup) (h : (k, v) ∈ us) :
    updateAll m us k = v := by
  induction us generalizing m
  case nil => simp at h
  case cons kv us hi =>
  have ⟨hk, hn⟩ := nodup_cons.mp hn
  rw [updateAll_cons]
  cases mem_cons.mp h
  case inl h => rw [← h, updateAll_not_mem (by simpa [← h] using hk), update_self]
  case inr h => exact hi hn h

lemma updateAll_updateAll (hm : ∀ kv ∈ us', m kv.1 = kv.2)
    (hk : ∀ k ∈ us.map fst, k ∈ us'.map fst) : updateAll (updateAll m us) us' = m := by
  funext k
  by_cases h : k ∈ us'.map fst
  · exact updateAll_mem hm h
  · rw [updateAll_not_mem h, updateAll_not_mem (h ∘ hk k)]

lemma updateAll_congr_mem (h : k ∈ us.map fst) : updateAll m us k = updateAll m' us k := by
  induction us generalizing m m'
  case nil => nomatch h
  case cons kv us hi =>
  rw [updateAll_cons, updateAll_cons]
  by_cases hk : k ∈ us.map fst
  · exact hi hk
  have he : k = kv.1 := (mem_cons.mp h).resolve_right hk
  rw [updateAll_not_mem hk, updateAll_not_mem hk, he, update_self, update_self]

lemma updateAll_mixed (h1 : updateAll m0 us = m1) (h2 : updateAll m1 us' = m2)
    (hm : ∀ k, m k = m0 k ∨ m k = m2 k) : updateAll (updateAll m us) us' = m2 := by
  funext k
  by_cases hk' : k ∈ us'.map fst
  · rw [← h2]
    exact updateAll_congr_mem hk'
  have he2 : m2 k = m1 k := by rw [← h2, updateAll_not_mem hk']
  rw [updateAll_not_mem hk', he2]
  by_cases hk : k ∈ us.map fst
  · rw [← h1]
    exact updateAll_congr_mem hk
  have he1 : m1 k = m0 k := by rw [← h1, updateAll_not_mem hk]
  rw [updateAll_not_mem hk, he1]
  cases hm k
  case inl h => exact h
  case inr h => rw [h, he2, he1]

end

section

-- The total weight of the values at the keys in a finite set.
def total (f : V → ℤ) (s : Finset K) (m : K → Option V) : ℤ :=
  ∑ k ∈ s, (m k).elim 0 f

variable {f : V → ℤ} {s : Finset K} {v : V}

lemma total_update (h : k ∈ s) (o) :
    total f s (update m k o) = total f s m - (m k).elim 0 f + o.elim 0 f := by
  rw [total, total, ← Finset.add_sum_erase s _ h, ← Finset.add_sum_erase s _ h, update_self]
  have hs : ∑ x ∈ s.erase k, (update m k o x).elim 0 f = ∑ x ∈ s.erase k, (m x).elim 0 f :=
    Finset.sum_congr rfl fun x hx => by rw [update_of_ne (Finset.ne_of_mem_erase hx)]
  rw [hs]
  ring

lemma total_insertAll (hs : ∀ kv ∈ kvs, kv.1 ∈ s) (hn : (kvs.map fst).Nodup)
    (hm : ∀ kv ∈ kvs, m kv.1 = none) :
    total f s (insertAll m kvs) = total f s m + (kvs.map (f ·.2)).sum := by
  induction kvs generalizing m
  case nil => simp [insertAll]
  case cons kv kvs hi =>
  have ⟨hk, hs⟩ := forall_mem_cons.mp hs
  have ⟨hkv, hm⟩ := forall_mem_cons.mp hm
  have ⟨hkn, hn⟩ := nodup_cons.mp hn
  rw [insertAll_cons, hi hs hn, total_update hk, hkv]
  · simp [add_assoc]
  intro kv' hkv'
  have hne : kv'.1 ≠ kv.1 := fun he => hkn (he ▸ mem_map_of_mem hkv')
  rw [update_of_ne hne]
  exact hm kv' hkv'

lemma total_eraseAll (hs : ∀ k ∈ ks, k ∈ s) (hn : ks.Nodup) :
    total f s (eraseAll m ks) = total f s m - (ks.map fun k => (m k).elim 0 f).sum := by
  induction ks generalizing m
  case nil => simp [eraseAll]
  case cons k ks hi =>
  have ⟨hk, hs⟩ := forall_mem_cons.mp hs
  have ⟨hkn, hn⟩ := nodup_cons.mp hn
  have hc : (ks.map fun k' => (update m k none k').elim 0 f) = ks.map fun k' => (m k').elim 0 f :=
    map_congr_left fun k' hk' => by
      have hne : k' ≠ k := fun he => hkn (he ▸ hk')
      rw [update_of_ne hne]
  rw [eraseAll_cons, hi hs hn, hc, total_update hk, map_cons, sum_cons]
  simp only [Option.elim_none]
  ring

omit [DecidableEq K] in
lemma total_eq_of_subset (h : s ⊆ s') (hm : ∀ k, k ∉ s → m k = none) :
    total f s' m = total f s m := by
  refine (Finset.sum_subset h fun k _ hk => ?_).symm
  rw [hm k hk, Option.elim_none]

end

end PartialMap
