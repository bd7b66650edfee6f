import TalerModel.Net.Theorems.AddrStored

open OrderedMap

namespace Taler

open List Fintype

namespace CAddrMan

variable [AddrOps] {s t : CAddrMan} {owed : Int} {ids : Std.TreeSet Int}

section

lemma Inv.empty (hm : s.mapInfo = ∅) (ha : s.mapAddr = fun _ => none) (hv : s.vRandom = [])
    (hid : s.nIdCount = 0) (ht : s.vvTried = fun _ => -1) (hn : s.vvNew = fun _ => -1)
    (hc : s.nTried = 0) (loose) : Inv s (-s.nNew) loose := by
  have hget {n : Int} : s.mapInfo[n]? = none := by rw [hm]; exact Std.TreeMap.getElem?_emptyc
  have hkeys f : keysOf s.mapInfo f = ∅ := by
    ext n
    simp [mem_keysOf, hget]
  constructor
  case toListed =>
    constructor
    case bound => intro _ _ h; rw [hget] at h; cases h
    case addr => intro a n; rw [ha, hget]; simp
    case pos => intro _ _ h; rw [hget] at h; cases h
    case mem => intro n h; rw [hv] at h; cases h
    case nodup => rw [hv]; exact nodup_nil
    case nonneg => exact hid ▸ le_refl _
  case toTables =>
    constructor
    case newSlot => intro _ h; rw [hn] at h; exact absurd rfl h
    case refCount => intro _ _ h; rw [hget] at h; cases h
    case refLimit => intro _ _ h; rw [hget] at h; cases h
    case triedSlot => intro _ h; rw [ht] at h; exact absurd rfl h
    case tried => intro _ _ h; rw [hget] at h; cases h
    case times => intro _ _ h; rw [hget] at h; cases h
  case nNew => rw [hkeys]; simp
  case nTried => rw [hkeys, hc]; rfl
  case settled => intro _ _ h; rw [hget] at h; cases h

lemma Inv.clear (s : CAddrMan) (nKey) : Inv (s.clear nKey) 0 fun _ => False :=
  Inv.empty rfl rfl rfl rfl rfl rfl rfl _

lemma Inv.start (nKey) : Inv (start nKey) 0 fun _ => False :=
  Inv.empty rfl rfl rfl rfl rfl rfl rfl _

end

section

section

omit [AddrOps]

lemma mem_triedEntries :
    (n, info) ∈ triedEntries s.mapInfo.toList ↔ s.mapInfo[n]? = some info ∧ info.fInTried := by
  rw [triedEntries, mem_filter, mem_entries]

lemma nodup_triedEntries (s : CAddrMan) : (triedEntries s.mapInfo.toList).Nodup :=
  ((nodup_entries s).of_map _).filter _

lemma nodup_newEntries (s : CAddrMan) : (newEntries s.mapInfo.toList).Nodup :=
  ((nodup_entries s).of_map _).filter _

end

lemma Inv.length_triedEntries (h : Inv s owed fun _ => False) :
    ((triedEntries s.mapInfo.toList).length : Int) = s.nTried := by
  have := h.nTried
  rw [triedEntries, length_filter_toList s.mapInfo (·.fInTried)]
  omega

omit [AddrOps] in
lemma Listed.eq_of_addr (h : Listed s) {n k : Int} (hn : s.mapInfo[n]? = some info)
    (hk : s.mapInfo[k]? = some info') (ha : info.toCNetAddr = info'.toCNetAddr) :
    (n, info) = (k, info') := by
  have hid :=
    Option.some.inj <| (h.addr.mpr ⟨info, hn, ha⟩).symm.trans (h.addr.mpr ⟨info', hk, rfl⟩)
  subst hid
  rw [hn] at hk
  cases hk
  rfl

section

variable (h : Inv s owed fun _ => False)
include h

lemma Inv.nodup_addrs :
    ((storedInfos (newEntries s.mapInfo.toList) ++ storedInfos (triedEntries s.mapInfo.toList)).map
      (·.toCNetAddr)).Nodup := by
  have hdisj : (newEntries s.mapInfo.toList ++ triedEntries s.mapInfo.toList).Nodup := by
    refine (nodup_newEntries s).append (nodup_triedEntries s) fun ⟨n, info⟩ hn ht => ?_
    have hf := (h.mem_newEntries.mp hn).2
    rw [(mem_triedEntries.mp ht).2] at hf
    cases hf
  have hget e
      (he : e ∈ newEntries s.mapInfo.toList ++ triedEntries s.mapInfo.toList) :
      s.mapInfo[e.1]? = some e.2 := by
    rcases mem_append.mp he with he | he
    · exact (h.mem_newEntries.mp he).1
    · exact (mem_triedEntries.mp he).1
  rw [storedInfos, storedInfos, ← map_append, map_map]
  refine List.Nodup.map_on (fun e he e' he' ha => ?_) hdisj
  exact h.eq_of_addr (hget e he) (hget e' he') ha

lemma Inv.nodup_triedSlots :
    ((storedInfos (triedEntries s.mapInfo.toList)).map (·.triedSlot s.nKey)).Nodup := by
  rw [storedInfos, map_map]
  refine List.Nodup.map_on (fun e he e' he' hs => ?_) (nodup_triedEntries s)
  obtain ⟨n, info⟩ := e
  obtain ⟨k, info'⟩ := e'
  obtain ⟨hn, hf⟩ := mem_triedEntries.mp he
  obtain ⟨hk, hf'⟩ := mem_triedEntries.mp he'
  have hid : n = k := by
    rw [← h.tried hn hf, ← h.tried hk hf']
    exact congrArg s.vvTried hs
  subst hid
  rw [hn] at hk
  cases hk
  rfl

lemma Inv.times_new : ∀ x ∈ storedInfos (newEntries s.mapInfo.toList), 0 ≤ x.nLastSuccess := by
  intro x hx
  have ⟨⟨n, info⟩, he, hx⟩ := mem_map.mp hx
  exact hx ▸ (h.times (h.mem_newEntries.mp he).1).2.1

lemma Inv.times_tried :
    ∀ x ∈ storedInfos (triedEntries s.mapInfo.toList), 0 ≤ x.nLastSuccess ∧ x.nLastSuccess ≠ 0 := by
  intro x hx
  have ⟨⟨n, info⟩, he, hx⟩ := mem_map.mp hx
  have ⟨hn, hf⟩ := mem_triedEntries.mp he
  have ⟨_, hs, hz⟩ := h.times hn
  exact hx ▸ ⟨hs, hz hf⟩

end

end

section

section

variable (h : Inv s 0 fun _ => False)
include h

lemma Inv.serialize : s.serialize = some
    (.uchar 1 :: .uchar 32 :: .uint256 s.nKey :: .int s.nNew :: .int s.nTried ::
      .int (BitVec.ofNat 32 ADDRMAN_NEW_BUCKET_COUNT ^^^ BitVec.ofNat 32 (2 ^ 30)).toInt ::
      ((storedInfos (newEntries s.mapInfo.toList)).map .info ++
        ((storedInfos (triedEntries s.mapInfo.toList)).map .info ++
          (finRange ADDRMAN_NEW_BUCKET_COUNT).flatMap
            (s.serializeBucket (unkIds s.mapInfo.toList 0 ∅))))) := by
  have hn := h.length_newEntries
  have ht := h.length_triedEntries
  rw [CAddrMan.serialize, serializeNew_eq (by omega), serializeTried_eq (by omega)]
  simp only [Option.bind_eq_bind, Option.bind_some, Option.pure_def, append_assoc,
    cons_append, nil_append]

lemma Inv.readNewEntries (nRnd rest) : ∃ t', (range s.nNew.toNat).foldlM (readNewEntry true)
        { t.clear nRnd with nKey := s.nKey, nNew := s.nNew, nTried := s.nTried }
        ((storedInfos (newEntries s.mapInfo.toList)).map .info ++ rest) = .ok (t', rest) ∧
      LoadingTried s.nKey s.nNew s.nTried t.m_tried_collisions
        (storedInfos (newEntries s.mapInfo.toList)) (storedInfos (triedEntries s.mapInfo.toList)) 0
        ({ t' with nIdCount := s.nNew }, 0) := by
  let Ns := storedInfos (newEntries s.mapInfo.toList)
  have hlen : (Ns.length : Int) = s.nNew := by
    rw [← h.length_newEntries]
    simp [Ns, storedInfos]
  obtain ⟨t', he, h'⟩ := StateT.foldlM_range
    (LoadingNew s.nKey s.nNew s.nTried t.m_tried_collisions Ns)
    (fun i => (Ns.drop i).map Datum.info ++ rest)
    (fun i t hi h' => h'.readNewEntry (map_append ▸ h.nodup_addrs |>.of_append_left)
      h.times_new rest hi)
    (t := { t.clear nRnd with nKey := s.nKey, nNew := s.nNew, nTried := s.nTried })
    { inv := by
        rw [Nat.cast_zero, zero_sub]
        exact Inv.empty rfl rfl rfl rfl rfl rfl rfl _
      holds := ⟨rfl, fun i => by
        change (∅ : Std.TreeMap Int CAddrInfo)[(i : Int)]?.map _ = _
        rfl⟩
      nKey := rfl
      nNew := rfl
      nTried := rfl
      vvNew := rfl
      vvTried := rfl
      collisions := rfl }
  refine ⟨t', ?_, ?_⟩
  · rw [drop_zero, drop_length] at he
    rw [show s.nNew.toNat = Ns.length by omega]
    exact he
  have hi := h'.inv
  have hh := h'.holds
  rw [hlen, sub_self] at hi
  rw [hlen, take_length] at hh
  refine { inv := hi, holds := ?_, nKey := h'.nKey, nNew := h'.nNew, nTried := h'.nTried,
           vvNew := h'.vvNew, collisions := h'.collisions, nLost := rfl }
  rw [take_zero, map_nil, append_nil]
  exact ⟨hh.count, hh.get⟩

lemma Inv.readTriedEntries {t : CAddrMan × Int} (rest)
    (h0 : LoadingTried s.nKey s.nNew s.nTried ids (storedInfos (newEntries s.mapInfo.toList))
      (storedInfos (triedEntries s.mapInfo.toList)) 0 t) :
    ∃ t', (range s.nTried.toNat).foldlM (fun s _ => readTriedEntry s) t
        ((storedInfos (triedEntries s.mapInfo.toList)).map .info ++ rest) = .ok (t', rest) ∧
      t'.2 = 0 ∧
      LoadingRefs s ids (fun slot => slot.1.val < 0) { t'.1 with nTried := s.nTried - t'.2 } := by
  let Ts := storedInfos (triedEntries s.mapInfo.toList)
  have hlen : (Ts.length : Int) = s.nTried := by
    rw [← h.length_triedEntries]
    simp [Ts, storedInfos]
  obtain ⟨t', he, h'⟩ := StateT.foldlM_range
    (LoadingTried s.nKey s.nNew s.nTried ids (storedInfos (newEntries s.mapInfo.toList)) Ts)
    (fun j => (Ts.drop j).map Datum.info ++ rest)
    (fun j t hj h' => h'.readTriedEntry h.nodup_addrs h.nodup_triedSlots h.times_tried rest hj) h0
  refine ⟨t', ?_, h'.nLost, ?_⟩
  · rw [drop_zero, drop_length] at he
    rw [show s.nTried.toNat = Ts.length by omega]
    exact he
  have hi := h'.inv
  have hh := h'.holds
  rw [hlen] at hi
  rw [take_length] at hh
  rw [h'.nLost, sub_zero]
  exact { inv := hi, holds := ⟨hh.count, hh.get⟩, nKey := h'.nKey, nNew := h'.nNew,
          collisions := h'.collisions, vvNew := fun hlt => absurd hlt (Nat.not_lt_zero _),
          empty := fun _ => congrFun h'.vvNew _ }

lemma Inv.readBuckets (h0 : LoadingRefs s ids (fun slot => slot.1.val < 0) t) :
    ∃ t', (range ADDRMAN_NEW_BUCKET_COUNT).foldlM (readBucket true) t
        ((finRange ADDRMAN_NEW_BUCKET_COUNT).flatMap
          (s.serializeBucket (unkIds s.mapInfo.toList 0 ∅))) = .ok (t', []) ∧
      LoadingRefs s ids (fun _ => True) t' := by
  have ⟨t', he, h'⟩ := StateT.foldlM_range (n := ADDRMAN_NEW_BUCKET_COUNT) (f := readBucket true)
    (fun b => LoadingRefs s ids fun slot => slot.1.val < b)
    (fun b => ((finRange ADDRMAN_NEW_BUCKET_COUNT).drop b).flatMap
      (s.serializeBucket (unkIds s.mapInfo.toList 0 ∅)))
    (fun b t hb h' => by
      have hb' : b < (finRange ADDRMAN_NEW_BUCKET_COUNT).length := by
        rw [length_finRange]; exact hb
      rw [drop_eq_getElem_cons hb', flatMap_cons, getElem_finRange]
      exact h'.readBucket h hb _) h0
  refine ⟨t', ?_, h'.congr fun slot => iff_true_intro slot.1.isLt⟩
  rw [drop_zero, drop_of_length_le (by rw [length_finRange])] at he
  exact he

lemma LoadingRefs.settle (h' : LoadingRefs s ids (fun _ => True) t) : Inv t 0 fun _ => False := by
  refine { h'.inv with settled := fun {n info'} hn hf _ => ?_ }
  obtain ⟨j, hj, hw⟩ := h'.holds.exists_index h'.inv.toListed hn
  rw [hf] at hw
  have hlt : j < (newEntries s.mapInfo.toList).length := by
    by_contra hge
    rw [written, getElem?_append_right (by simpa [storedInfos] using hge), getElem?_map] at hw
    obtain ⟨x, _, hx⟩ := Option.map_eq_some_iff.mp hw
    cases hx
  obtain ⟨⟨m, info⟩, hnew⟩ : ∃ e, (newEntries s.mapInfo.toList)[j]? = some e :=
    ⟨_, getElem?_eq_getElem hlt⟩
  obtain ⟨hm, hfm⟩ := h.mem_newEntries.mp (mem_of_getElem? hnew)
  obtain ⟨i, hi, hin⟩ := h.index_new hm hfm
  have hij : j = i := (getElem?_inj hlt (nodup_newEntries s)).mp (hnew.trans hin.symm)
  have hpos : (refs s.vvNew m).card ≠ 0 := by
    have := h.refCount hm
    have := h.settled hm hfm id
    omega
  obtain ⟨slot, hslot⟩ := Finset.card_ne_zero.mp hpos
  have hslot := mem_refs.mp hslot
  have hmem : slot ∈ refs t.vvNew n := by
    rw [mem_refs, h'.vvNew trivial, hslot, hi, hj, hij]
  rw [h'.inv.refCount hn]
  exact_mod_cast Finset.card_ne_zero_of_mem hmem

end

lemma Inv.prune (h : Inv t owed fun _ => False) : t.prune = some t := by
  have hstays (entries : List (Int × CAddrInfo)) (he : ∀ e ∈ entries, t.mapInfo[e.1]? = some e.2) :
      entries.foldlM (fun s e =>
        if e.2.fInTried = false ∧ e.2.nRefCount = 0 then s.delete e.1 else some s) t = some t := by
    induction entries
    case nil => rfl
    case cons e entries hi =>
    obtain ⟨he, hes⟩ := forall_mem_cons.mp he
    have hc : ¬(e.2.fInTried = false ∧ e.2.nRefCount = 0) := fun hc => h.settled he hc.1 id hc.2
    simp only [foldlM_cons, if_neg hc]
    exact hi hes
  exact hstays _ fun e he => mem_entries.mp he

omit [AddrOps] in
lemma card_le_of_surj [Fintype α] {S : Finset β} {f : α → β} (h : ∀ y ∈ S, ∃ x, f x = y) :
    S.card ≤ card α := by
  refine Finset.card_le_card_of_surjOn f fun y hy => ?_
  have ⟨x, hx⟩ := h y hy
  exact ⟨x, Finset.mem_coe.mpr (Finset.mem_univ x), hx⟩

-- No table has more entries than slots.

lemma Inv.nNew_le (h : Inv s 0 fun _ => False) :
    s.nNew ≤ (ADDRMAN_NEW_BUCKET_COUNT * ADDRMAN_BUCKET_SIZE : Nat) := by
  have hsub : ∀ n ∈ keysOf s.mapInfo (!·.fInTried), ∃ slot, s.vvNew slot = n := by
    intro n hn
    have ⟨info, hn, hf⟩ := mem_keysOf.mp hn
    have hr := h.settled hn (by simpa using hf) id
    rw [h.refCount hn] at hr
    have ⟨slot, hslot⟩ := Finset.card_ne_zero.mp (Nat.cast_ne_zero.mp hr)
    exact ⟨slot, mem_refs.mp hslot⟩
  have hc := card_le_of_surj hsub
  rw [card_prod, card_fin, card_fin] at hc
  have := h.nNew
  omega

lemma Inv.nTried_le (h : Inv s owed fun _ => False) :
    s.nTried ≤ (ADDRMAN_TRIED_BUCKET_COUNT * ADDRMAN_BUCKET_SIZE : Nat) := by
  have hsub : ∀ n ∈ keysOf s.mapInfo (·.fInTried), ∃ slot, s.vvTried slot = n := by
    intro n hn
    have ⟨info, hn, hf⟩ := mem_keysOf.mp hn
    exact ⟨_, h.tried hn hf⟩
  have hc := card_le_of_surj hsub
  rw [card_prod, card_fin, card_fin] at hc
  have := h.nTried
  omega

lemma Inv.loadFrom (h : Inv s 0 fun _ => False) (t : CAddrMan) (nRnd) :
    ∃ t', t.loadFrom s nRnd = some t' ∧ Inv t' 0 (fun _ => False) ∧
      LoadingRefs s t.m_tried_collisions (fun _ => True) t' := by
  have ⟨t1, he1, h1⟩ := h.readNewEntries (t := t) nRnd
    ((storedInfos (triedEntries s.mapInfo.toList)).map .info ++
      (finRange ADDRMAN_NEW_BUCKET_COUNT).flatMap
        (s.serializeBucket (unkIds s.mapInfo.toList 0 ∅)))
  have ⟨t2, he2, hl, h2⟩ := h.readTriedEntries ((finRange ADDRMAN_NEW_BUCKET_COUNT).flatMap
    (s.serializeBucket (unkIds s.mapInfo.toList 0 ∅))) h1
  have ⟨t3, he3, h3⟩ := h.readBuckets h2
  have hi := h3.settle h
  refine ⟨t3, ?_, hi, h3⟩
  have hnew := not_lt.mpr h.nNew_le
  have htried := not_lt.mpr h.nTried_le
  have husable : (BitVec.ofInt 32 (BitVec.ofNat 32 ADDRMAN_NEW_BUCKET_COUNT ^^^
      BitVec.ofNat 32 (2 ^ 30)).toInt ^^^ BitVec.ofNat 32 (2 ^ 30)).toInt =
      ADDRMAN_NEW_BUCKET_COUNT := by decide
  rw [CAddrMan.loadFrom, h.serialize, Option.bind_eq_bind, Option.bind_some, CAddrMan.unserialize]
  simp only [bind, StateT.bind, Except.bind, readUChar, readUint256, readInt, ne_eq, not_true,
    if_false, if_neg hnew, if_neg htried, one_ne_zero, not_false_eq_true, if_true, husable, true_and,
    decide_true]
  rw [he1]
  simp only [he2, Int.toNat_natCast]
  rw [he3]
  simp only [hi.prune]
  rfl

end

section

-- What is stored of the entries the slots refer to.

end

end CAddrMan

end Taler
