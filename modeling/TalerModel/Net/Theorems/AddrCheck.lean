import TalerModel.Net.Theorems.AddrTables

open OrderedMap

namespace Taler

namespace CAddrMan

structure EntryOk (s : CAddrMan) (n : Int) (info : CAddrInfo) : Prop where
  tried : info.fInTried → info.nLastSuccess ≠ 0 ∧ info.nRefCount = 0
  new : info.fInTried = false → 0 < info.nRefCount ∧
    info.nRefCount ≤ ADDRMAN_NEW_BUCKETS_PER_ADDRESS
  addr : s.mapAddr info.toCNetAddr = some n
  pos : s.randomAt info.nRandomPos = some n
  times : 0 ≤ info.nLastTry ∧ 0 ≤ info.nLastSuccess

variable {s : CAddrMan}

lemma checkInfos_ok (hn : (entries.map Prod.fst).Nodup) (he : ∀ e ∈ entries, EntryOk s e.1 e.2)
    (setTried mapNew) : ∃ r, s.checkInfos entries setTried mapNew = .ok r ∧
      (∀ n, n ∈ r.1 ↔ n ∈ setTried ∨ ∃ info, (n, info) ∈ entries ∧ info.fInTried) ∧
      (∀ n c, r.2[n]? = some c ↔
        (∃ info, (n, info) ∈ entries ∧ info.fInTried = false ∧ info.nRefCount = c) ∨
          (mapNew[n]? = some c ∧ ∀ info, (n, info) ∈ entries → info.fInTried)) := by
  induction entries generalizing setTried mapNew
  case nil => exact ⟨_, rfl, by simp, by simp⟩
  case cons e entries hi =>
  have ⟨n, info⟩ := e
  have ⟨hnm, hn⟩ := List.nodup_cons.mp hn
  have ⟨h, he⟩ := List.forall_mem_cons.mp he
  have h : EntryOk s n info := h
  have hrest : ∀ info', (n, info') ∉ entries :=
    fun info' hm => hnm (List.mem_map.mpr ⟨(n, info'), hm, rfl⟩)
  have h5 : ¬(s.mapAddr info.toCNetAddr).getD 0 ≠ n := by simp [h.addr]
  have h14 : ¬s.randomAt info.nRandomPos ≠ some n := by simp [h.pos]
  have h6 : ¬info.nLastTry < 0 := by have := h.times; omega
  have h8 : ¬info.nLastSuccess < 0 := by have := h.times; omega
  by_cases hf : info.fInTried
  · have ⟨hls, hr⟩ := h.tried hf
    have ⟨r, hok, ht, hm⟩ := hi hn he (setTried.insert n) mapNew
    refine ⟨r, ?_, fun k => ?_, fun k c => ?_⟩
    · rw [checkInfos]
      simp only [hf, if_true, if_neg hls, if_neg (not_not.mpr hr), pure_bind, if_neg h5, if_neg h14,
        if_neg h6, if_neg h8]
      exact hok
    · rw [ht, Std.TreeSet.mem_insert, Std.compare_eq_iff_eq]
      constructor
      · rintro ((rfl | hk) | ⟨info', hk, hf'⟩)
        · exact .inr ⟨info, List.mem_cons_self, hf⟩
        · exact .inl hk
        · exact .inr ⟨info', List.mem_cons_of_mem _ hk, hf'⟩
      rintro (hk | ⟨info', hk, hf'⟩)
      · exact .inl (.inr hk)
      rcases List.mem_cons.mp hk with he' | hk
      · cases he'
        exact .inl (.inl rfl)
      · exact .inr ⟨info', hk, hf'⟩
    rw [hm]
    refine or_congr ⟨?_, ?_⟩ (and_congr_right fun _ => ⟨fun ha info' hk => ?_, fun ha info' hk => ?_⟩)
    · exact fun ⟨info', hk, hf'⟩ => ⟨info', List.mem_cons_of_mem _ hk, hf'⟩
    · rintro ⟨info', hk, hf', hc⟩
      rcases List.mem_cons.mp hk with he' | hk
      · cases he'
        simp [hf] at hf'
      · exact ⟨info', hk, hf', hc⟩
    · rcases List.mem_cons.mp hk with he' | hk
      · cases he'
        exact hf
      · exact ha info' hk
    · exact ha info' (List.mem_cons_of_mem _ hk)
  have hf : info.fInTried = false := by simpa using hf
  have ⟨hp, hle⟩ := h.new hf
  have ⟨r, hok, ht, hm⟩ := hi hn he setTried (mapNew.insert n info.nRefCount)
  have h3 : ¬(info.nRefCount < 0 ∨ info.nRefCount > ADDRMAN_NEW_BUCKETS_PER_ADDRESS) := by omega
  refine ⟨r, ?_, fun k => ?_, fun k c => ?_⟩
  · rw [checkInfos]
    simp only [hf, if_neg h3, if_neg (ne_of_gt hp), pure_bind, if_neg h5, if_neg h14,
      if_neg h6, if_neg h8]
    exact hok
  · rw [ht]
    refine or_congr_right ⟨fun ⟨info', hk, hf'⟩ => ⟨info', List.mem_cons_of_mem _ hk, hf'⟩, ?_⟩
    rintro ⟨info', hk, hf'⟩
    rcases List.mem_cons.mp hk with he' | hk
    · cases he'
      simp [hf] at hf'
    · exact ⟨info', hk, hf'⟩
  rw [hm, getElem?_insert]
  by_cases hkn : k = n
  · subst hkn
    simp [hrest, hf]
  · simp [hkn]

variable [AddrOps]

lemma checkTried_ok (h : Inv s owed loose) (hn : slots.Nodup) (setTried)
    (hs : ∀ n, n ∈ setTried ↔ ∃ info, s.mapInfo[n]? = some info ∧ info.fInTried ∧ info.triedSlot s.nKey ∈ slots) :
    ∃ r, s.checkTried slots setTried = .ok r ∧ ∀ n, n ∉ r := by
  induction slots generalizing setTried
  case nil => exact ⟨setTried, rfl, by simp [hs]⟩
  case cons slot slots hi =>
  have ⟨hnot, hn⟩ := List.nodup_cons.mp hn
  rw [checkTried]
  by_cases he : s.vvTried slot = -1
  · simp only [he, if_true]
    refine hi hn _ fun n => (hs n).trans ?_
    refine exists_congr fun info => and_congr_right fun hk => and_congr_right fun hf => ?_
    have hne : info.triedSlot s.nKey ≠ slot := fun hp =>
      h.ne_neg_one hk ((h.tried hk hf).symm.trans (hp ▸ he))
    simp [hne]
  have ⟨info, hk, hf, hp⟩ := h.triedSlot he
  have hm : s.vvTried slot ∈ setTried := (hs _).mpr ⟨info, hk, hf, hp ▸ List.mem_cons_self⟩
  have hp1 : info.getTriedBucket s.nKey = slot.1 := congrArg Prod.fst hp
  have hp2 : info.getBucketPosition s.nKey false slot.1 = slot.2 := by
    rw [← hp1]
    exact congrArg Prod.snd hp
  simp only [if_neg he, hm, not_true, if_false, hk, Option.getD_some, hp1, hp2, ne_eq]
  refine hi hn _ fun n => ?_
  rw [Std.TreeSet.mem_erase, ne_eq, Std.compare_eq_iff_eq, hs]
  constructor
  · rintro ⟨hne, info', hk', hf', hp'⟩
    refine ⟨info', hk', hf', (List.mem_cons.mp hp').resolve_left fun hp' => hne ?_⟩
    rw [← hp', h.tried hk' hf']
  rintro ⟨info', hk', hf', hp'⟩
  refine ⟨?_, info', hk', hf', List.mem_cons_of_mem _ hp'⟩
  rintro rfl
  cases hk.symm.trans hk'
  exact hnot (hp ▸ hp')

lemma checkNew_ok (h : Inv s owed loose) (slots mapNew)
    (hs : ∀ (n c : Int), mapNew[n]? = some c ↔ (∃ info, s.mapInfo[n]? = some info ∧ info.fInTried = false) ∧
      c = slots.countP (s.vvNew · = n) ∧ c ≠ 0) :
    ∃ r, s.checkNew slots mapNew = .ok r ∧ ∀ n, n ∉ r := by
  induction slots generalizing mapNew
  case nil => exact ⟨mapNew, rfl, by simp [mem_iff, hs]⟩
  case cons slot slots hi =>
  rw [checkNew]
  by_cases he : s.vvNew slot = -1
  · simp only [he, if_true]
    refine hi _ fun n c => (hs n c).trans (and_congr_right fun ⟨info, hk, _⟩ => ?_)
    have hne : s.vvNew slot ≠ n := by
      rw [he]
      exact (h.ne_neg_one hk).symm
    rw [List.countP_cons_of_neg (by simpa using hne)]
  have ⟨info, hk, hf, hp⟩ := h.newSlot he
  have hc : slots.countP (s.vvNew · = s.vvNew slot) + 1 =
      (slot :: slots).countP (s.vvNew · = s.vvNew slot) := by
    rw [List.countP_cons_of_pos (by simp)]
  have hm : mapNew[s.vvNew slot]? =
      some ((slots.countP (s.vvNew · = s.vvNew slot) + 1 : Nat) : Int) :=
    (hs _ _).mpr ⟨⟨info, hk, hf⟩, by rw [hc], by omega⟩
  have hp2 : info.getBucketPosition s.nKey true slot.1 = slot.2 := congrArg Prod.snd hp
  simp only [if_neg he, hm, hk, Option.getD_some, hp2, ne_eq, not_true, if_false]
  -- The reference that is met is counted off.
  have hother {n : Int} {c : Int} (hne : n ≠ s.vvNew slot) : mapNew[n]? = some c ↔
      (∃ info, s.mapInfo[n]? = some info ∧ info.fInTried = false) ∧
        c = slots.countP (s.vvNew · = n) ∧ c ≠ 0 := by
    rw [hs, List.countP_cons_of_neg (by simpa using Ne.symm hne)]
  split
  case isTrue hz =>
    refine hi _ fun n c => ?_
    rw [getElem?_erase]
    by_cases hne : n = s.vvNew slot
    · subst hne
      simp only [if_true]
      refine ⟨nofun, fun ⟨_, hc, hc0⟩ => ?_⟩
      omega
    rw [if_neg hne]
    exact hother hne
  case isFalse hz =>
  refine hi _ fun n c => ?_
  rw [getElem?_insert]
  by_cases hne : n = s.vvNew slot
  · subst hne
    simp only [if_true, Option.some.injEq]
    constructor
    · intro hc'
      exact ⟨⟨info, hk, hf⟩, by omega, by omega⟩
    rintro ⟨-, hc', -⟩
    omega
  rw [if_neg hne]
  exact hother hne

lemma Inv.entryOk (h : Inv s owed fun _ => False) (hn : s.mapInfo[n]? = some info) :
    EntryOk s n info where
  tried := fun hf => ⟨(h.times hn).2.2 hf, h.refCount_tried hn hf⟩
  new := by
    intro hf
    have hc := h.refCount hn
    have hz := h.settled hn hf id
    exact ⟨by omega, h.refLimit hn⟩
  addr := h.mapAddr_of_some hn
  pos := h.pos hn
  times := ⟨(h.times hn).1, (h.times hn).2.1⟩

lemma Inv.length_vRandom (h : Inv s 0 loose) : (s.vRandom.length : Int) = s.nTried + s.nNew := by
  have hkeys : s.vRandom.toFinset =
      keysOf s.mapInfo (·.fInTried) ∪ keysOf s.mapInfo (!·.fInTried) := by
    ext n
    rw [List.mem_toFinset, Finset.mem_union, mem_keysOf, mem_keysOf]
    constructor
    · intro hn
      have ⟨info, hi⟩ := mem_iff.mp (h.mem hn)
      cases hf : info.fInTried
      case true => exact .inl ⟨info, hi, hf⟩
      case false => exact .inr ⟨info, hi, by simp [hf]⟩
    rintro (⟨info, hi, -⟩ | ⟨info, hi, -⟩)
    all_goals
      have ⟨i, _, hin⟩ := randomAt_eq_some.mp (h.pos hi)
      exact List.mem_of_getElem? hin
  have hdisj : Disjoint (keysOf s.mapInfo (·.fInTried)) (keysOf s.mapInfo (!·.fInTried)) := by
    refine Finset.disjoint_left.mpr fun n hn hn' => ?_
    have ⟨info, hi, hf⟩ := mem_keysOf.mp hn
    have ⟨info', hi', hf'⟩ := mem_keysOf.mp hn'
    cases hi.symm.trans hi'
    simp [hf] at hf'
  have hN := h.nNew
  have hT := h.nTried
  rw [← List.toFinset_card_of_nodup h.nodup, hkeys, Finset.card_union_of_disjoint hdisj]
  omega

lemma Inv.check (h : Inv s 0 fun _ => False) (hk : s.nKey ≠ 0) : s.check = 0 := by
  have hnd : (s.mapInfo.toList.map Prod.fst).Nodup := by
    rw [Std.TreeMap.map_fst_toList_eq_keys]
    exact nodup_keys
  have hmem {n : Int} {info : CAddrInfo} : (n, info) ∈ s.mapInfo.toList ↔ s.mapInfo[n]? = some info :=
    Std.TreeMap.mem_toList_iff_getElem?_eq_some
  have ⟨⟨setTried, mapNew⟩, hok, hset, hmap⟩ :=
    checkInfos_ok hnd (fun e he => h.entryOk (hmem.mp he)) ∅ ∅
  simp only [hmem, Std.TreeSet.not_mem_emptyc, Std.TreeMap.getElem?_emptyc, false_or, reduceCtorEq,
    false_and, or_false] at hset hmap
  have hT : (setTried.size : Int) = s.nTried := by
    rw [treeSet_size_eq_card fun n => (hset n).trans mem_keysOf.symm, h.nTried]
  have hN : (mapNew.size : Int) = s.nNew := by
    have hsz : mapNew.size = (keysOf s.mapInfo (!·.fInTried)).card := by
      refine size_eq_card fun n => ?_
      simp [mem_iff, mem_keysOf, hmap]
    have := h.nNew
    omega
  have hall {m k : Nat} (slot : Fin m × Fin k) : slot ∈ List.finRange m ×ˢ List.finRange k :=
    List.pair_mem_product.mpr ⟨List.mem_finRange _, List.mem_finRange _⟩
  have hnodup m k : (List.finRange m ×ˢ List.finRange k).Nodup :=
    (List.nodup_finRange m).product (List.nodup_finRange k)
  have ⟨rT, hokT, hrT⟩ := checkTried_ok h (hnodup _ _) setTried fun n => by
    rw [hset]
    refine exists_congr fun info => and_congr_right fun _ => ?_
    exact ⟨fun hf => ⟨hf, hall _⟩, And.left⟩
  have hcount n : (List.finRange ADDRMAN_NEW_BUCKET_COUNT ×ˢ
      List.finRange ADDRMAN_BUCKET_SIZE).countP (s.vvNew · = n) = (refs s.vvNew n).card := by
    rw [List.countP_eq_length_filter, ← List.toFinset_card_of_nodup ((hnodup _ _).filter _)]
    congr 1
    ext slot
    rw [List.mem_toFinset, List.mem_filter, mem_refs, and_iff_right (hall slot), decide_eq_true_eq]
  have ⟨rN, hokN, hrN⟩ := checkNew_ok h
      (List.finRange ADDRMAN_NEW_BUCKET_COUNT ×ˢ List.finRange ADDRMAN_BUCKET_SIZE) mapNew fun n c => by
    rw [hmap, hcount]
    constructor
    · rintro ⟨info, hn, hf, rfl⟩
      exact ⟨⟨info, hn, hf⟩, h.refCount hn, h.settled hn hf id⟩
    rintro ⟨⟨info, hn, hf⟩, hc, -⟩
    exact ⟨info, hn, hf, (h.refCount hn).trans hc.symm⟩
  have hzT : rT.size = 0 := by
    rw [treeSet_size_eq_card (S := ∅) (by simpa using hrT), Finset.card_empty]
  have hzN : rN.size = 0 := by
    rw [size_eq_card (S := ∅) (by simpa using hrN), Finset.card_empty]
  have hall : s.checkAll = .ok () := by
    rw [checkAll, if_neg (not_not.mpr h.length_vRandom)]
    simp only [hok, bind, Except.bind, hT, hN, hokT, hokN, hzT, hzN, hk, ne_eq, not_true, if_false]
    rfl
  rw [CAddrMan.check, hall]

end CAddrMan

end Taler
