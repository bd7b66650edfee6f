import TalerModel.Net.Theorems.AddrRun

open OrderedMap

namespace Taler

namespace CAddrMan

section

-- The entries that are written: those in the new table, then those in the tried table.

variable (entries : List (Int × CAddrInfo))

def newEntries : List (Int × CAddrInfo) :=
  entries.filter fun e => e.2.nRefCount ≠ 0

def triedEntries : List (Int × CAddrInfo) :=
  entries.filter fun e => e.2.fInTried

def storedInfos : List StoredInfo :=
  entries.map fun e => e.2.toStoredInfo

variable {entries : List (Int × CAddrInfo)}

lemma serializeNew_eq {nNew nIds : Int} (h : nIds + (newEntries entries).length ≤ nNew) :
    serializeNew nNew entries nIds = some ((storedInfos (newEntries entries)).map .info) := by
  induction entries generalizing nIds
  case nil => rfl
  case cons e entries hi =>
  have ⟨n, info⟩ := e
  rw [serializeNew]
  by_cases hr : info.nRefCount = 0
  · have he : newEntries ((n, info) :: entries) = newEntries entries := by simp [newEntries, hr]
    rw [he] at h ⊢
    rw [if_neg (not_not.mpr hr), hi h]
  have he : newEntries ((n, info) :: entries) = (n, info) :: newEntries entries := by
    simp [newEntries, hr]
  rw [he, List.length_cons] at h
  have hne : nIds ≠ nNew := by omega
  rw [if_pos hr, hi (by omega), he]
  simp [guard, hne, storedInfos]

lemma serializeTried_eq {nTried nIds : Int} (h : nIds + (triedEntries entries).length ≤ nTried) :
    serializeTried nTried entries nIds = some ((storedInfos (triedEntries entries)).map .info) := by
  induction entries generalizing nIds
  case nil => rfl
  case cons e entries hi =>
  have ⟨n, info⟩ := e
  rw [serializeTried]
  by_cases hf : info.fInTried
  case neg =>
    have he : triedEntries ((n, info) :: entries) = triedEntries entries := by
      simp [triedEntries, hf]
    rw [he] at h ⊢
    rw [if_neg hf, hi h]
  have he : triedEntries ((n, info) :: entries) = (n, info) :: triedEntries entries := by
    simp [triedEntries, hf]
  rw [he, List.length_cons] at h
  have hne : nIds ≠ nTried := by omega
  rw [if_pos hf, hi (by omega), he]
  simp [guard, hne, storedInfos]

lemma unkIds_of_not_mem (h : n ∉ entries.map Prod.fst) : (unkIds entries nIds m)[n]? = m[n]? := by
  induction entries generalizing nIds m
  case nil => rfl
  case cons e entries hi =>
  have ⟨hn, h⟩ := List.ne_and_not_mem_of_not_mem_cons h
  rw [unkIds, hi h, getElem?_insert, if_neg hn]

lemma unkIds_eq (hnd : (entries.map Prod.fst).Nodup) {j : Nat}
    (h : (newEntries entries)[j]? = some (n, info)) :
    (unkIds entries nIds m)[n]? = some (nIds + j) := by
  induction entries generalizing nIds m j
  case nil => simp [newEntries] at h
  case cons e entries hi =>
  have ⟨k, info'⟩ := e
  have ⟨hk, hnd⟩ := List.nodup_cons.mp hnd
  rw [unkIds]
  by_cases hr : info'.nRefCount = 0
  · have he : newEntries ((k, info') :: entries) = newEntries entries := by simp [newEntries, hr]
    rw [he] at h
    rw [if_neg (not_not.mpr hr), hi hnd h]
  have he : newEntries ((k, info') :: entries) = (k, info') :: newEntries entries := by
    simp [newEntries, hr]
  rw [he] at h
  cases j
  case zero =>
    cases h
    rw [unkIds_of_not_mem hk, getElem?_insert, if_pos rfl]
    simp
  case succ j =>
  rw [hi hnd h]
  congr 1
  omega

end

section

variable {t : CAddrMan} {L : List (StoredInfo × Bool)}

-- The entries with the ids from zero on, and which of them are tried.
structure Holds (t : CAddrMan) (L : List (StoredInfo × Bool)) : Prop where
  count : t.nIdCount = L.length
  get (i : Nat) : t.mapInfo[(i : Int)]?.map (fun info => (info.toStoredInfo, info.fInTried)) = L[i]?

lemma Holds.exists_get (h : Holds t L) {i : Nat} (hi : L[i]? = some (x, b)) :
    ∃ info, t.mapInfo[(i : Int)]? = some info ∧ info.toStoredInfo = x ∧ info.fInTried = b := by
  have hg := h.get i
  rw [hi] at hg
  have ⟨info, hinfo, he⟩ := Option.map_eq_some_iff.mp hg
  cases he
  exact ⟨info, hinfo, rfl, rfl⟩

lemma Holds.exists_index (h : Holds t L) (hl : Listed t) {n : Int}
    (hn : t.mapInfo[n]? = some info) :
    ∃ i : Nat, n = i ∧ L[i]? = some (info.toStoredInfo, info.fInTried) := by
  have hb := hl.bound hn
  refine ⟨n.toNat, by omega, ?_⟩
  rw [← h.get, show ((n.toNat : Nat) : Int) = n by omega, hn, Option.map_some]

lemma Holds.insertEntry (h : Holds t L) (info) :
    Holds (t.insertEntry info) (L ++ [(info.toStoredInfo, info.fInTried)]) where
  count := by
    rw [List.length_append, List.length_singleton, Nat.cast_add, ← h.count]
    rfl
  get := by
    intro i
    change (t.mapInfo.insert t.nIdCount info)[(i : Int)]?.map _ = _
    rw [getElem?_insert, h.count]
    by_cases hi : (i : Int) = L.length
    · have hi : i = L.length := by omega
      rw [if_pos (by omega), hi, List.getElem?_concat_length, Option.map_some]
    rw [if_neg hi, h.get]
    by_cases hlt : i < L.length
    · rw [List.getElem?_append_left hlt]
    rw [List.getElem?_eq_none (by omega), List.getElem?_eq_none]
    simp only [List.length_append, List.length_singleton]
    omega

lemma Holds.mapAddr_none (h : Holds t L) (hl : Listed t) {a : CNetAddr}
    (ha : ∀ x ∈ L, x.1.toCNetAddr ≠ a) : t.mapAddr a = none := by
  cases hk : t.mapAddr a
  case none => rfl
  have ⟨info, hn, he⟩ := hl.addr.mp hk
  have ⟨i, _, hi⟩ := h.exists_index hl hn
  exact absurd he (ha _ (List.mem_of_getElem? hi))

end

variable [AddrOps] {s t : CAddrMan} {owed : Int} {loose : Int → Prop}

lemma Inv.congr_get (h : Inv s owed loose) (hr : Reordered s t)
    (hg : ∀ k : Int, t.mapInfo[k]? = s.mapInfo[k]?) (hv : t.vRandom = s.vRandom) :
    Inv t owed loose := by
  refine hr.inv (h.toListed.reorder hr (hv ▸ .refl _) fun k info hk => ?_) h
  rw [hg] at hk
  have hp := h.pos hk
  rw [randomAt, hv]
  exact hp

lemma Inv.insertTried (h : Inv s owed loose) {info : CAddrInfo}
    (ha : s.mapAddr info.toCNetAddr = none) (hp : info.nRandomPos = s.vRandom.length)
    (hr : info.nRefCount = 0) (hf : info.fInTried)
    (ht : 0 ≤ info.nLastTry ∧ 0 ≤ info.nLastSuccess ∧ info.nLastSuccess ≠ 0)
    (hs : s.vvTried (info.triedSlot s.nKey) = -1) :
    Inv { s.insertEntry info with
      vvTried := Function.update s.vvTried (info.triedSlot s.nKey) s.nIdCount
      nTried := s.nTried + 1 } owed loose := by
  let info0 : CAddrInfo := { info with fInTried := false }
  have h1 : Inv (s.insertEntry info0) (owed + 1) fun k => loose k ∨ k = s.nIdCount :=
    h.insertEntry ha hp hr rfl ⟨ht.1, ht.2.1⟩
  have hn1 : (s.insertEntry info0).mapInfo[s.nIdCount]? = some info0 :=
    getElem?_insert.trans (if_pos rfl)
  have h2 := h1.enterTried hn1 hr rfl ht.2.2 hs
  rw [show owed + 1 - 1 = owed by omega] at h2
  have hg (k : Int) : (s.insertEntry info).mapInfo[k]? =
      ((s.insertEntry info0).modifyInfo s.nIdCount ({ · with fInTried := true })).mapInfo[k]? := by
    rw [modifyInfo_get]
    change (s.mapInfo.insert _ _)[k]? = if _ then (s.mapInfo.insert _ _)[k]?.map _ else
      (s.mapInfo.insert _ _)[k]?
    rw [getElem?_insert, getElem?_insert]
    by_cases hk : k = s.nIdCount
    · simp only [if_pos hk, Option.map_some, info0]
      rw [← hf]
    · simp only [if_neg hk]
  exact h2.congr_get { Reordered.refl _ with entry := fun k => by rw [hg] } hg rfl

section

omit [AddrOps] in
lemma ne_of_mem_take {f : α → β} {L : List α} (hL : (L.map f).Nodup) (hj : j < L.length) {x : α}
    (hx : x ∈ L.take j) : f x ≠ f L[j] := by
  intro he
  have ⟨k, hk, hxk⟩ := List.mem_take_iff_getElem.mp hx
  have hkl : k < L.length := by omega
  have hsame : (L.map f)[k]? = (L.map f)[j]? := by
    rw [List.getElem?_map, List.getElem?_map, List.getElem?_eq_getElem hkl,
      List.getElem?_eq_getElem hj, hxk]
    exact congrArg some he
  have := (List.getElem?_inj (by simpa using hkl) hL).mp hsame
  omega

variable {K : Uint256} {a c n : Int} {ids : Std.TreeSet Int} {Ns Ts : List StoredInfo}
  {info : CAddrInfo}

-- After `i` new entries. The counters already have their final values.
structure LoadingNew (K : Uint256) (a c : Int) (ids : Std.TreeSet Int) (Ns : List StoredInfo) (i : Nat)
    (t : CAddrMan) : Prop where
  inv : Inv { t with nIdCount := i, nTried := 0 } (i - a) fun _ => True
  holds : Holds { t with nIdCount := i, nTried := 0 } ((Ns.take i).map (·, false))
  nKey : t.nKey = K
  nNew : t.nNew = a
  nTried : t.nTried = c
  vvNew : t.vvNew = fun _ => -1
  vvTried : t.vvTried = fun _ => -1
  collisions : t.m_tried_collisions = ids

lemma LoadingNew.readNewEntry (hip : (Ns.map (·.toCNetAddr)).Nodup)
    (ht : ∀ x ∈ Ns, 0 ≤ x.nLastSuccess) (rest) {i : Nat} (hi : i < Ns.length)
    (h : LoadingNew K a c ids Ns i t) :
    ∃ t', CAddrMan.readNewEntry true t i ((Ns.drop i).map Datum.info ++ rest) =
      .ok (t', (Ns.drop (i + 1)).map Datum.info ++ rest) ∧ LoadingNew K a c ids Ns (i + 1) t' := by
  let info : CAddrInfo := { toStoredInfo := Ns[i], nRandomPos := t.vRandom.length }
  let t' := { t with
    mapInfo := t.mapInfo.insert i info
    mapAddr := Function.update t.mapAddr info.toCNetAddr (some (i : Int))
    vRandom := t.vRandom ++ [(i : Int)] }
  have he : CAddrMan.readNewEntry true t i ((Ns.drop i).map Datum.info ++ rest) =
      .ok (t', (Ns.drop (i + 1)).map Datum.info ++ rest) := by
    rw [List.drop_eq_getElem_cons hi]
    rfl
  have ha : ({ t with nIdCount := (i : Int), nTried := 0 } : CAddrMan).mapAddr info.toCNetAddr =
      none := by
    refine h.holds.mapAddr_none h.inv.toListed fun x hx he => ?_
    have ⟨y, hy, hxy⟩ := List.mem_map.mp hx
    subst hxy
    exact ne_of_mem_take hip hi hy he
  have h' := h.inv.insertEntry ha rfl rfl rfl ⟨le_refl _, ht _ (List.getElem_mem hi)⟩
  have hh' := h.holds.insertEntry info
  refine ⟨t', he, { h with inv := ?_, holds := ?_ }⟩
  · have ho : ((i + 1 : Nat) : Int) - a = i - a + 1 := by omega
    rw [ho]
    exact h'.loosen fun _ _ => trivial
  rw [← List.take_append_getElem hi, List.map_append]
  exact hh'

-- After `j` tried entries: none is lost.
structure LoadingTried (K : Uint256) (a c : Int) (ids : Std.TreeSet Int) (Ns Ts : List StoredInfo)
    (j : Nat) (t : CAddrMan × Int) : Prop where
  inv : Inv { t.1 with nTried := j } 0 fun _ => True
  holds : Holds t.1 (Ns.map (·, false) ++ (Ts.take j).map (·, true))
  nKey : t.1.nKey = K
  nNew : t.1.nNew = a
  nTried : t.1.nTried = c
  vvNew : t.1.vvNew = fun _ => -1
  collisions : t.1.m_tried_collisions = ids
  nLost : t.2 = 0

lemma LoadingTried.readTriedEntry (hip : ((Ns ++ Ts).map (·.toCNetAddr)).Nodup)
    (hslots : (Ts.map (·.triedSlot K)).Nodup)
    (ht : ∀ x ∈ Ts, 0 ≤ x.nLastSuccess ∧ x.nLastSuccess ≠ 0) (rest) {j : Nat}
    (hj : j < Ts.length) {t : CAddrMan × Int} (h : LoadingTried K a c ids Ns Ts j t) :
    ∃ t', CAddrMan.readTriedEntry t ((Ts.drop j).map Datum.info ++ rest) =
      .ok (t', (Ts.drop (j + 1)).map Datum.info ++ rest) ∧
      LoadingTried K a c ids Ns Ts (j + 1) t' := by
  have ⟨t, nLost⟩ := t
  have hnL := h.nLost
  subst hnL
  have hi := h.inv
  have hh : Holds { t with nTried := (j : Int) } (Ns.map (·, false) ++ (Ts.take j).map (·, true)) :=
    ⟨h.holds.count, h.holds.get⟩
  let info : CAddrInfo :=
    { toStoredInfo := Ts[j], nRandomPos := t.vRandom.length, fInTried := true }
  have hs : t.vvTried (info.triedSlot t.nKey) = -1 := by
    by_contra hs
    have ⟨info', hn, hf, hp⟩ := hi.triedSlot hs
    have ⟨k, _, hk⟩ := hh.exists_index hi.toListed hn
    rw [hf] at hk
    have hm : info'.toStoredInfo ∈ Ts.take j := by
      rcases List.mem_append.mp (List.mem_of_getElem? hk) with hm | hm
      · have ⟨y, _, he⟩ := List.mem_map.mp hm
        simp at he
      have ⟨y, hy, he⟩ := List.mem_map.mp hm
      cases he
      exact hy
    have hK := h.nKey
    refine ne_of_mem_take hslots hj hm ?_
    rw [← hK]
    exact hp
  have ha : ({ t with nTried := (j : Int) } : CAddrMan).mapAddr info.toCNetAddr = none := by
    refine hh.mapAddr_none hi.toListed fun x hx he => ?_
    rw [List.map_append] at hip
    have ⟨_, hT, hNT⟩ := List.nodup_append.mp hip
    rcases List.mem_append.mp hx with hx | hx
    · have ⟨y, hy, hxy⟩ := List.mem_map.mp hx
      subst hxy
      exact hNT _ (List.mem_map_of_mem hy) _ (List.mem_map_of_mem (List.getElem_mem hj)) he
    have ⟨y, hy, hxy⟩ := List.mem_map.mp hx
    subst hxy
    exact ne_of_mem_take hT hj hy he
  let t' := { t.insertEntry info with
    vvTried := Function.update t.vvTried (info.triedSlot t.nKey) t.nIdCount }
  have he : CAddrMan.readTriedEntry (t, 0) ((Ts.drop j).map Datum.info ++ rest) =
      .ok ((t', 0), (Ts.drop (j + 1)).map Datum.info ++ rest) := by
    rw [List.drop_eq_getElem_cons hj]
    have hs' : t.vvTried (Ts[j].triedSlot t.nKey) = -1 := hs
    simp only [List.map_cons, List.cons_append, CAddrMan.readTriedEntry, bind, StateT.bind, readInfo,
      Except.bind, hs', if_true]
    rfl
  have htimes := ht _ (List.getElem_mem hj)
  have h' := hi.insertTried ha rfl rfl rfl ⟨le_refl _, htimes⟩ hs
  have hh' := h.holds.insertEntry info
  refine ⟨(t', 0), he, { h with inv := ?_, holds := ?_ }⟩
  · exact h'
  rw [← List.take_append_getElem hj, List.map_append, ← List.append_assoc]
  exact ⟨hh'.count, hh'.get⟩

def index (s : CAddrMan) (n : Int) : Int :=
  if n = -1 then -1 else (unkIds s.mapInfo.toList 0 ∅).getD n 0

def written (s : CAddrMan) : List (StoredInfo × Bool) :=
  (storedInfos (newEntries s.mapInfo.toList)).map (·, false) ++
    (storedInfos (triedEntries s.mapInfo.toList)).map (·, true)

omit [AddrOps] in
lemma nodup_entries (s : CAddrMan) : (s.mapInfo.toList.map Prod.fst).Nodup := by
  rw [Std.TreeMap.map_fst_toList_eq_keys]
  exact nodup_keys

omit [AddrOps] in
lemma mem_entries : (n, info) ∈ s.mapInfo.toList ↔ s.mapInfo[n]? = some info :=
  Std.TreeMap.mem_toList_iff_getElem?_eq_some

lemma Inv.mem_newEntries (h : Inv s owed fun _ => False) :
    (n, info) ∈ newEntries s.mapInfo.toList ↔ s.mapInfo[n]? = some info ∧ info.fInTried = false := by
  rw [newEntries, List.mem_filter, mem_entries, decide_eq_true_eq]
  refine and_congr_right fun hn => ⟨fun hr => ?_, fun hf => h.settled hn hf id⟩
  by_contra hf
  exact hr (h.refCount_tried hn (by simpa using hf))

lemma Inv.length_newEntries (h : Inv s 0 fun _ => False) :
    ((newEntries s.mapInfo.toList).length : Int) = s.nNew := by
  have hkeys : keysOf s.mapInfo (·.nRefCount ≠ 0) = keysOf s.mapInfo (!·.fInTried) := by
    ext n
    rw [mem_keysOf, mem_keysOf]
    exact exists_congr fun info => by simpa [newEntries, mem_entries] using h.mem_newEntries
  have := h.nNew
  rw [newEntries, length_filter_toList s.mapInfo (·.nRefCount ≠ 0), hkeys]
  omega

lemma Inv.index_new (h : Inv s owed fun _ => False) (hn : s.mapInfo[n]? = some info)
    (hf : info.fInTried = false) :
    ∃ j : Nat, s.index n = j ∧ (newEntries s.mapInfo.toList)[j]? = some (n, info) := by
  have ⟨j, hj⟩ := List.mem_iff_getElem?.mp (h.mem_newEntries.mpr ⟨hn, hf⟩)
  refine ⟨j, ?_, hj⟩
  rw [index, if_neg (h.ne_neg_one hn), Std.TreeMap.getD_eq_getD_getElem?,
    unkIds_eq (nodup_entries s) hj]
  simp

omit [AddrOps] in
lemma written_new {j : Nat} (hj : (newEntries s.mapInfo.toList)[j]? = some (n, info)) :
    s.written[j]? = some (info.toStoredInfo, false) := by
  have hlt := (List.getElem?_eq_some_iff.mp hj).1
  rw [written, List.getElem?_append_left (by simpa [storedInfos] using hlt), List.getElem?_map,
    storedInfos, List.getElem?_map, hj]
  rfl

-- The references of the slots in `done` are read.
structure LoadingRefs (s : CAddrMan) (ids : Std.TreeSet Int) (done : NewSlot → Prop) (t : CAddrMan) :
    Prop where
  inv : Inv t 0 fun _ => True
  holds : Holds t s.written
  nKey : t.nKey = s.nKey
  nNew : t.nNew = s.nNew
  collisions : t.m_tried_collisions = ids
  vvNew {slot : NewSlot} : done slot → t.vvNew slot = s.index (s.vvNew slot)
  empty {slot : NewSlot} : ¬done slot → t.vvNew slot = -1

lemma LoadingRefs.congr (h : LoadingRefs s ids done t) (hd : ∀ slot, done slot ↔ done' slot) :
    LoadingRefs s ids done' t :=
  (funext fun slot => propext (hd slot) : done = done') ▸ h

lemma LoadingRefs.skip (h : LoadingRefs s ids done t) (hd : ∀ slot, done slot → done' slot)
    (he : ∀ slot, done' slot → ¬done slot → s.vvNew slot = -1) : LoadingRefs s ids done' t := by
  refine { h with vvNew := fun {slot} hx => ?_, empty := fun hx => h.empty (hx <| hd _ ·) }
  by_cases hx' : done slot
  · exact h.vvNew hx'
  · rw [h.empty hx', he slot hx hx', index, if_pos rfl]

lemma LoadingRefs.readReference (hs : Inv s 0 fun _ => False) {done : NewSlot → Prop}
    (h : LoadingRefs s ids done t) (hne : s.vvNew slot ≠ -1) (hd : ¬done slot) (rest) :
    ∃ t', CAddrMan.readReference true slot.1 t (.int (s.index (s.vvNew slot)) :: rest) =
      .ok (t', rest) ∧ LoadingRefs s ids (fun x => done x ∨ x = slot) t' := by
  have ⟨info, hn, hf, hp⟩ := hs.newSlot hne
  have ⟨j, hj, hjn⟩ := hs.index_new hn hf
  have ⟨info', hn', hst, hf'⟩ := h.holds.exists_get (written_new hjn)
  have hlt : (j : Int) < t.nNew := by
    rw [h.nNew, ← hs.length_newEntries]
    exact_mod_cast (List.getElem?_eq_some_iff.mp hjn).1
  have hplace : info'.newPlace t.nKey slot.1 = slot := by
    rw [h.nKey, hst]
    exact hp
  -- Fewer references are read than there were.
  have hlimit : info'.nRefCount < ADDRMAN_NEW_BUCKETS_PER_ADDRESS := by
    have hsub : refs t.vvNew j ⊆ (refs s.vvNew (s.vvNew slot)).erase slot := by
      intro x hx
      have hx := mem_refs.mp hx
      have hdx : done x := by
        by_contra hdx
        rw [h.empty hdx] at hx
        omega
      refine Finset.mem_erase.mpr ⟨fun he => hd (he ▸ hdx), mem_refs.mpr ?_⟩
      rw [h.vvNew hdx] at hx
      have hxne : s.vvNew x ≠ -1 := by
        intro he
        rw [he, index, if_pos rfl] at hx
        omega
      have ⟨infoX, hnX, hfX, _⟩ := hs.newSlot hxne
      have ⟨k, hk, hkn⟩ := hs.index_new hnX hfX
      have hkj : k = j := by omega
      rw [hkj, hjn] at hkn
      exact (congrArg Prod.fst (Option.some.inj hkn)).symm
    have hcard := Finset.card_le_card hsub
    have herase := Finset.card_erase_add_one (mem_refs.mpr (rfl : s.vvNew slot = s.vvNew slot))
    have hc := h.inv.refCount hn'
    have hc' := hs.refCount hn
    have hle := hs.refLimit hn
    omega
  have ⟨h1, hr1⟩ := h.inv.access hn'
  have hn1 : (t.access j).mapInfo[(j : Int)]? = some info' := (access_get hn').trans hn'
  have hl : Inv (t.access j) 0 fun k => True ∨ k = (j : Int) := h1.loosen fun _ _ => .inl trivial
  have h2 := hl.addRef (h.empty hd) hn1 hf' hplace (g := (· + 1)) rfl hlimit
  let t' := { (t.access j).modifyInfo j fun info => { info with nRefCount := info.nRefCount + 1 } with
    vvNew := Function.update t.vvNew slot j }
  have he : CAddrMan.readReference true slot.1 t (.int (s.index (s.vvNew slot)) :: rest) =
      .ok (t', rest) := by
    have hin : (0 : Int) ≤ j ∧ (j : Int) < t.nNew := ⟨by omega, hlt⟩
    have hslot : info'.newPlace (t.access j).nKey (Fin.ofNat _ slot.1) = slot := by
      rw [Fin.ofNat_val_eq_self]
      exact hplace
    rw [hj, CAddrMan.readReference,
      StateT.bind_of_ok (show readInt (.int j :: rest) = .ok ((j : Int), rest) from rfl),
      if_pos hin, hn', Option.getD_some]
    simp only [hslot]
    rw [if_pos ⟨trivial, h.empty hd, hlimit⟩]
    rfl
  refine ⟨t', he, h2, ⟨h.holds.count, fun i => ?_⟩, h.nKey, h.nNew, h.collisions, ?_, ?_⟩
  · change ((t.access j).modifyInfo j _).mapInfo[(i : Int)]?.map _ = _
    rw [modifyInfo_get, access_get hn', ← h.holds.get]
    by_cases hi : (i : Int) = j
    · rw [if_pos hi, Option.map_map]; rfl
    · rw [if_neg hi]
  · rintro x (hx | rfl)
    · change Function.update t.vvNew slot j x = _
      rw [Function.update_of_ne (fun he : x = slot => hd (he ▸ hx)), h.vvNew hx]
    change Function.update t.vvNew x j x = _
    rw [Function.update_self, hj]
  intro x hx
  have ⟨hx, hxs⟩ := not_or.mp hx
  change Function.update t.vvNew slot j x = _
  rw [Function.update_of_ne hxs, h.empty hx]

def filled (s : CAddrMan) (bucket : Fin ADDRMAN_NEW_BUCKET_COUNT) : List (Fin ADDRMAN_BUCKET_SIZE) :=
  (List.finRange ADDRMAN_BUCKET_SIZE).filter fun i => s.vvNew (bucket, i) ≠ -1

omit [AddrOps] in
lemma serializeBucket_eq (s : CAddrMan) (bucket) :
    s.serializeBucket (unkIds s.mapInfo.toList 0 ∅) bucket = .int (s.filled bucket).length ::
      (s.filled bucket).map fun i => .int (s.index (s.vvNew (bucket, i))) := by
  rw [serializeBucket]
  simp only [List.filter_map, List.length_map, List.map_map]
  refine List.cons_eq_cons.mpr ⟨rfl, List.map_congr_left fun i hi => ?_⟩
  have hne : s.vvNew (bucket, i) ≠ -1 := by
    have := (List.mem_filter.mp hi).2
    simpa using this
  simp only [Function.comp_apply, index, if_neg hne]

lemma LoadingRefs.readBucket (hs : Inv s 0 fun _ => False) {b : Nat}
    (hb : b < ADDRMAN_NEW_BUCKET_COUNT) (h : LoadingRefs s ids (fun slot => slot.1.val < b) t)
    (rest : List Datum) :
    ∃ t', CAddrMan.readBucket true t b
        (s.serializeBucket (unkIds s.mapInfo.toList 0 ∅) ⟨b, hb⟩ ++ rest) = .ok (t', rest) ∧
      LoadingRefs s ids (fun slot => slot.1.val < b + 1) t' := by
  let bucket : Fin ADDRMAN_NEW_BUCKET_COUNT := ⟨b, hb⟩
  let done (k : Nat) (slot : NewSlot) : Prop :=
    slot.1.val < b ∨ (slot.1 = bucket ∧ slot.2 ∈ (s.filled bucket).take k)
  have hnd : (s.filled bucket).Nodup := (List.nodup_finRange _).filter _
  have hmem {i : Fin ADDRMAN_BUCKET_SIZE} : i ∈ s.filled bucket ↔ s.vvNew (bucket, i) ≠ -1 := by
    simp [filled]
  have ⟨t', he, h'⟩ := StateT.foldlM_range (n := (s.filled bucket).length)
    (f := fun t (_ : Nat) => CAddrMan.readReference true b t)
    (fun k t => LoadingRefs s ids (done k) t)
    (fun k => ((s.filled bucket).drop k).map
      (fun i => Datum.int (s.index (s.vvNew (bucket, i)))) ++ rest)
    (fun k t hk h => by
      have hd : ¬done k (bucket, (s.filled bucket)[k]) := by
        rintro (hlt | ⟨-, hm⟩)
        · exact Nat.lt_irrefl _ hlt
        · refine ne_of_mem_take (f := id) (by simpa using hnd) hk hm rfl
      have ⟨t', he, h'⟩ := h.readReference hs (hmem.mp (List.getElem_mem hk)) hd
        (((s.filled bucket).drop (k + 1)).map
          (fun i => Datum.int (s.index (s.vvNew (bucket, i)))) ++ rest)
      refine ⟨t', ?_, h'.congr fun slot => ?_⟩
      · rw [List.drop_eq_getElem_cons hk]
        exact he
      simp only [done, ← List.take_append_getElem hk, List.mem_append, List.mem_singleton,
        Prod.ext_iff]
      tauto)
    (h.congr fun slot => by simp [done])
  refine ⟨t', ?_, h'.skip (fun slot hx => ?_) fun slot hx hx' => ?_⟩
  · rw [serializeBucket_eq, List.cons_append, CAddrMan.readBucket, StateT.bind_of_ok
      (show readInt (.int (s.filled bucket).length :: _) = .ok (((s.filled bucket).length : Int), _)
        from rfl), Int.toNat_natCast]
    simpa using he
  · rcases hx with hx | ⟨hx, -⟩
    · omega
    rw [hx]
    exact Nat.lt_succ_self b
  by_contra hne
  refine hx' ?_
  by_cases hb' : slot.1.val < b
  · exact .inl hb'
  have he : slot.1 = bucket := Fin.ext (by omega : slot.1.val = b)
  refine .inr ⟨he, ?_⟩
  rw [List.take_length, hmem, ← he]
  exact hne

end

end CAddrMan

end Taler
