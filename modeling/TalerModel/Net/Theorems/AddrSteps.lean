import TalerModel.Net.Theorems.AddrTables

open OrderedMap

namespace Taler

namespace CAddrMan

variable [AddrOps] {s s' : CAddrMan} {n : Int} {info : CAddrInfo} {owed : Int} {loose : Int → Prop}

lemma Inv.counter (h : Inv s owed loose) (hc : c + owed' = s.nNew + owed) :
    Inv { s with nNew := c, nLastGood := t, m_tried_collisions := ids } owed' loose where
  toListed := ⟨h.bound, h.addr, h.pos, h.mem, h.nodup, h.nonneg⟩
  toTables := ⟨h.newSlot, h.refCount, h.refLimit, h.triedSlot, h.tried, h.times⟩
  nNew := hc.trans h.nNew
  nTried := h.nTried
  settled := h.settled

lemma Inv.loosen (h : Inv s owed loose) (hl : ∀ n, loose n → loose' n) : Inv s owed loose' :=
  { h with settled := fun hn hf hl' => h.settled hn hf fun h => hl' (hl _ h) }

section

-- While an entry leaves the new table: it is out of the buckets that are done.
structure Leaving (s : CAddrMan) (n : Int) (info : CAddrInfo) (owed : Int) (loose : Int → Prop)
    (done : List (Fin ADDRMAN_NEW_BUCKET_COUNT)) (t : CAddrMan) : Prop where
  inv : Inv t owed fun k => loose k ∨ k = n
  entry : ∃ c, t.mapInfo[n]? = some { info with nRefCount := c }
  spares : Spares s t (· = n)
  vvTried : t.vvTried = s.vvTried
  left {slot : NewSlot} : slot.1 ∈ done → t.vvNew slot ≠ n

lemma Leaving.leaveBucket (h : Leaving s n info owed loose done t) (b) :
    Leaving s n info owed loose (b :: done) (leaveBucket n info.toCService t b) := by
  have ⟨c, hn⟩ := h.entry
  have hne := h.inv.ne_neg_one hn
  have hslot {slot : NewSlot} (hs : t.vvNew slot = n) (hb : slot.1 = b) :
      slot = info.newPlace t.nKey b := by
    have hp := (h.inv.vvNew_place hn hs).2
    rw [hb] at hp
    exact hp.symm
  by_cases hs : t.vvNew (info.newPlace t.nKey b) = n
  · let t' := { t.modifyInfo n fun info => { info with nRefCount := info.nRefCount - 1 } with
      vvNew := Function.update t.vvNew (info.newPlace t.nKey b) (-1) }
    have ht : CAddrMan.leaveBucket n info.toCService t b = t' := by
      simp only [CAddrMan.leaveBucket, hs, if_true]
      rfl
    rw [ht]
    refine ⟨(h.inv.dropRef hs hn).2.loosen fun k hk => ?_, ⟨c - 1, modifyInfo_self hn⟩, ?_, h.vvTried, ?_⟩
    · exact hk.elim id .inr
    · exact h.spares.trans (modifyInfo_spares rfl (fun _ => rfl) rfl rfl rfl) fun _ => id
    intro slot hb hs'
    by_cases he : slot = info.newPlace t.nKey b
    · subst he
      change Function.update t.vvNew _ (-1) _ = n at hs'
      rw [Function.update_self] at hs'
      exact hne hs'.symm
    change Function.update t.vvNew _ (-1) slot = n at hs'
    rw [Function.update_of_ne he] at hs'
    rcases List.mem_cons.mp hb with hb | hb
    · exact he (hslot hs' hb)
    · exact h.left hb hs'
  have ht : CAddrMan.leaveBucket n info.toCService t b = t := by
    simp [CAddrMan.leaveBucket, hs]
  rw [ht]
  refine { h with left := fun {slot} hb hs' => ?_ }
  rcases List.mem_cons.mp hb with hb | hb
  · exact hs (hslot hs' hb ▸ hs')
  · exact h.left hb hs'

lemma Leaving.leaveBuckets (h : Leaving s n info owed loose done t)
    (bs : List (Fin ADDRMAN_NEW_BUCKET_COUNT)) :
    Leaving s n info owed loose (bs.reverse ++ done)
      (bs.foldl (CAddrMan.leaveBucket n info.toCService) t) := by
  induction bs generalizing done t
  case nil => exact h
  case cons b bs hi =>
  rw [List.reverse_cons, List.append_assoc]
  exact hi (h.leaveBucket b)

lemma Inv.leaveNew (h : Inv s owed loose) (hn : s.mapInfo[n]? = some info) :
    Inv (s.leaveNew n info.toCService) owed (fun k => loose k ∨ k = n) ∧
      (s.leaveNew n info.toCService).mapInfo[n]? = some { info with nRefCount := 0 } ∧
      Spares s (s.leaveNew n info.toCService) (· = n) ∧
      (s.leaveNew n info.toCService).vvTried = s.vvTried := by
  have hl : Leaving s n info owed loose [] s :=
    ⟨h.loosen fun _ => .inl, ⟨info.nRefCount, hn⟩, (Reordered.refl s).spares.mono nofun, rfl, nofun⟩
  have h' := hl.leaveBuckets (List.finRange ADDRMAN_NEW_BUCKET_COUNT)
  rw [← CAddrMan.leaveNew] at h'
  have ⟨c, hc⟩ := h'.entry
  have hz : c = 0 := by
    have hr := h'.inv.refCount hc
    have he : refs (s.leaveNew n info.toCService).vvNew n = ∅ :=
      refs_eq_empty fun slot => h'.left (by simp)
    simpa [he] using hr
  exact ⟨h'.inv, hz ▸ hc, h'.spares, h'.vvTried⟩

lemma Inv.evict (h : Inv s owed loose) (slot) : ∃ s', s.evict slot = some s' ∧ Inv s' owed loose ∧
      Spares s s' (fun k => s.vvTried slot = k ∨ ∃ u, s.vvNew u = k) ∧
      s'.vvTried = Function.update s.vvTried slot (-1) := by
  by_cases hs : s.vvTried slot = -1
  · refine ⟨s, if_pos hs, h, (Reordered.refl s).spares.mono nofun, ?_⟩
    rw [← hs, Function.update_eq_self]
  have ⟨info, hn, hf, hp⟩ := h.triedSlot hs
  generalize hid : s.vvTried slot = n at *
  have hr := h.refCount_tried hn hf
  have h1 := h.leaveTried hn hf
  rw [hp] at h1
  let s1 := { s.modifyInfo n fun info => { info with fInTried := false } with
    vvTried := Function.update s.vvTried slot (-1)
    nTried := s.nTried - 1 }
  have hn1 : s1.mapInfo[n]? = some { info with fInTried := false } := modifyInfo_self hn
  let u := info.newSlot s.nKey info.source
  have ⟨s2, hc, h2, hsp2, hvv, hvt⟩ := h1.clearNew u
  have hnu : n ≠ s1.vvNew u := (h1.vvNew_ne hn1 hr u).symm
  have ⟨q, hn2⟩ := hsp2.exists_some hnu hn1
  have hu : s2.vvNew u = -1 := by rw [hvv, Function.update_self]
  have h3 := h2.addRef hu hn2 rfl (g := fun _ => 1) (by rw [hsp2.nKey]; rfl) (by simp [hr])
    (by simp [hr, ADDRMAN_NEW_BUCKETS_PER_ADDRESS])
  let s3 := { s2.modifyInfo n fun info => { info with nRefCount := 1 } with
    vvNew := Function.update s2.vvNew u n, nNew := s2.nNew + 1 }
  have h4 : Inv s3 owed loose :=
    h3.counter (by change s2.nNew + 1 + owed = s2.nNew + (owed + 1); omega)
  have he : s.evict slot = some s3 := by
    rw [CAddrMan.evict, if_neg (hid.trans_ne hs), hid]
    change s.mapInfo[n]?.bind _ = _
    rw [hn, Option.bind_some]
    change (s1.clearNew u).bind _ = _
    rw [hc, Option.bind_some]
    change (guard (s2.vvNew u = -1) : Option Unit).bind (fun _ => some s3) = _
    rw [guard, if_pos hu]
    rfl
  have hsp : Spares s s1 (· = n) := modifyInfo_spares rfl (fun _ => rfl) rfl rfl rfl
  have hsp3 : Spares s2 s3 (· = n) := modifyInfo_spares rfl (fun _ => rfl) rfl rfl rfl
  refine ⟨s3, he, h4, ?_, hvt⟩
  refine ((hsp.mono ?_).trans hsp2 ?_).trans hsp3 ?_
  · exact fun k hk => .inl hk.symm
  · exact fun k hk => .inr ⟨u, hk.symm⟩
  · exact fun k hk => .inl hk.symm

lemma Inv.makeTried (h : Inv s owed loose) (hn : s.mapInfo[n]? = some info)
    (hf : info.fInTried = false) (ht : info.nLastSuccess ≠ 0) :
    ∃ s', s.makeTried n info.toCService = some s' ∧ Inv s' owed loose ∧
      Spares s s' (fun _ => True) ∧ ∀ slot, s.vvTried slot ≠ -1 → s'.vvTried slot ≠ -1 := by
  have ⟨h1, hn1, hsp1, hvt1⟩ := h.leaveNew hn
  generalize hs1 : s.leaveNew n info.toCService = s1 at *
  let s2 := { s1 with nNew := s1.nNew - 1 }
  have h2 : Inv s2 (owed + 1) fun k => loose k ∨ k = n := h1.counter (by omega)
  have ⟨s3, hev, h3, hsp3, hvt3⟩ := h2.evict (info.triedSlot s2.nKey)
  have hun : ¬(s2.vvTried (info.triedSlot s2.nKey) = n ∨ ∃ u, s2.vvNew u = n) := by
    rintro (hs | ⟨u, hu⟩)
    · exact h2.vvTried_ne hn1 hf _ hs
    · exact h2.vvNew_ne hn1 rfl u hu
  have ⟨q, hn3⟩ := hsp3.exists_some hun hn1
  have hslot : s3.vvTried (info.triedSlot s3.nKey) = -1 := by
    rw [hvt3, hsp3.nKey, Function.update_self]
  have h4 := h3.enterTried hn3 rfl hf ht hslot
  let s4 := { s3.modifyInfo n fun info => { info with fInTried := true } with
    vvTried := Function.update s3.vvTried (info.triedSlot s3.nKey) n
    nTried := s3.nTried + 1 }
  have hm : s.makeTried n info.toCService = some s4 := by
    rw [CAddrMan.makeTried, hs1]
    change s2.mapInfo[n]?.bind _ = _
    rw [show s2.mapInfo[n]? = _ from hn1, Option.bind_some]
    change (s2.evict (info.triedSlot s2.nKey)).bind _ = _
    rw [hev, Option.bind_some]
    change (guard (s3.vvTried (info.triedSlot s2.nKey) = -1) : Option Unit).bind (fun _ =>
      some (CAddrMan.modifyInfo { s3 with
        vvTried := Function.update s3.vvTried (info.triedSlot s2.nKey) n
        nTried := s3.nTried + 1 } n _)) = _
    rw [← hsp3.nKey, guard, if_pos hslot]
    rfl
  refine ⟨s4, hm, ?_, ?_, ?_⟩
  · have ho : owed + 1 - 1 = owed := by omega
    rw [← ho]
    exact h4
  · have hsp : Spares s3 s4 (· = n) := modifyInfo_spares rfl (fun _ => rfl) rfl rfl rfl
    have hsp2 : Spares s s2 (· = n) := ⟨hsp1.entry, hsp1.service, hsp1.nIdCount, hsp1.collisions, hsp1.nKey⟩
    refine ((hsp2.mono ?_).trans hsp3 ?_).trans hsp ?_
    all_goals exact fun _ _ => trivial
  intro slot hs
  change Function.update s3.vvTried (info.triedSlot s3.nKey) n slot ≠ -1
  rw [hvt3, hsp3.nKey]
  by_cases he : slot = info.triedSlot s2.nKey
  · rw [he, Function.update_self]
    exact h.ne_neg_one hn
  rw [Function.update_of_ne he, Function.update_of_ne he]
  exact hvt1 ▸ hs

end

section

lemma Inv.access (h : Inv s owed loose) (hn : s.mapInfo[n]? = some info) :
    Inv (s.access n) owed loose ∧ Reordered s (s.access n) := by
  have hr : Reordered s (s.access n) :=
    { Reordered.refl s with entry := fun k => by rw [access_get hn] }
  refine ⟨hr.inv (h.toListed.reorder hr (.refl _) fun k info' hk => ?_) h, hr⟩
  rw [access_get hn] at hk
  exact h.pos hk

-- The next id is given to an entry, which comes last in the list.
def insertEntry (s : CAddrMan) (info : CAddrInfo) : CAddrMan :=
  { s with
    nIdCount := s.nIdCount + 1
    mapInfo := s.mapInfo.insert s.nIdCount info
    mapAddr := Function.update s.mapAddr info.toCNetAddr (some s.nIdCount)
    vRandom := s.vRandom ++ [s.nIdCount] }

lemma Inv.insertEntry (h : Inv s owed loose) (ha : s.mapAddr info.toCNetAddr = none)
    (hp : info.nRandomPos = s.vRandom.length) (hr : info.nRefCount = 0)
    (hf : info.fInTried = false) (ht : 0 ≤ info.nLastTry ∧ 0 ≤ info.nLastSuccess) :
    Inv (s.insertEntry info) (owed + 1) fun k => loose k ∨ k = s.nIdCount := by
  have hget k : (s.insertEntry info).mapInfo[k]? =
      if k = s.nIdCount then some info else s.mapInfo[k]? := getElem?_insert
  have hnone : s.mapInfo[s.nIdCount]? = none := by
    cases hk : s.mapInfo[s.nIdCount]?
    case none => rfl
    case some =>
    have := h.bound hk
    omega
  have hback {k : Int} {info' : CAddrInfo} (hk : (s.insertEntry info).mapInfo[k]? = some info') :
      (k = s.nIdCount ∧ info' = info) ∨ (k ≠ s.nIdCount ∧ s.mapInfo[k]? = some info') := by
    rw [hget] at hk
    split at hk
    case isTrue he => exact .inl ⟨he, (Option.some.inj hk).symm⟩
    case isFalse he => exact .inr ⟨he, hk⟩
  have hforth {k : Int} {info' : CAddrInfo} (hk : s.mapInfo[k]? = some info') :
      k ≠ s.nIdCount ∧ (s.insertEntry info).mapInfo[k]? = some info' := by
    have hne : k ≠ s.nIdCount := by
      have := h.bound hk
      omega
    exact ⟨hne, by rw [hget, if_neg hne, hk]⟩
  have hrandom {p : Int} {k : Int} (hp : s.randomAt p = some k) :
      (s.insertEntry info).randomAt p = some k := by
    have ⟨i, hi, hik⟩ := randomAt_eq_some.mp hp
    refine randomAt_eq_some.mpr ⟨i, hi, ?_⟩
    change (s.vRandom ++ [s.nIdCount])[i]? = some k
    rw [List.getElem?_append_left (List.getElem?_eq_some_iff.mp hik).1, hik]
  have hcard p : ((keysOf (s.insertEntry info).mapInfo p).card : Int) =
      (keysOf s.mapInfo p).card + if p info then 1 else 0 := by
    rw [card_keysOf p s.nIdCount fun k hk => (hget k).trans (if_neg hk), hnone, hget, if_pos rfl,
      Option.any_none, Option.any_some]
    simp
  constructor
  case toListed =>
    constructor
    case bound =>
      intro k info' hk
      change 0 ≤ k ∧ k < s.nIdCount + 1
      rcases hback hk with ⟨rfl, -⟩ | ⟨-, hk⟩
      · exact ⟨h.nonneg, by omega⟩
      have := h.bound hk
      omega
    case addr =>
      intro a k
      change Function.update s.mapAddr info.toCNetAddr (some s.nIdCount) a = some k ↔ _
      by_cases he : a = info.toCNetAddr
      · subst he
        rw [Function.update_self]
        constructor
        · intro hk
          cases hk
          exact ⟨info, by rw [hget, if_pos rfl], rfl⟩
        rintro ⟨info', hk, hi⟩
        rcases hback hk with ⟨rfl, -⟩ | ⟨-, hk⟩
        · rfl
        rw [h.addr.mpr ⟨info', hk, hi⟩] at ha
        nomatch ha
      rw [Function.update_of_ne he]
      refine h.addr.trans ⟨fun ⟨info', hk, hi⟩ => ⟨info', (hforth hk).2, hi⟩, ?_⟩
      rintro ⟨info', hk, hi⟩
      rcases hback hk with ⟨-, rfl⟩ | ⟨-, hk⟩
      · exact absurd hi.symm he
      · exact ⟨info', hk, hi⟩
    case pos =>
      intro k info' hk
      rcases hback hk with ⟨rfl, rfl⟩ | ⟨-, hk⟩
      · refine randomAt_eq_some.mpr ⟨s.vRandom.length, hp, ?_⟩
        exact List.getElem?_concat_length
      · exact hrandom (h.pos hk)
    case mem =>
      intro k hk
      rcases List.mem_append.mp hk with hk | hk
      · have ⟨info', hi⟩ := mem_iff.mp (h.mem hk)
        exact mem_iff.mpr ⟨info', (hforth hi).2⟩
      rw [List.mem_singleton.mp hk]
      exact mem_iff.mpr ⟨info, by rw [hget, if_pos rfl]⟩
    case nodup =>
      refine List.nodup_append.mpr ⟨h.nodup, List.nodup_singleton _, fun k hk k' hk' => ?_⟩
      have ⟨info', hi⟩ := mem_iff.mp (h.mem hk)
      rw [List.mem_singleton.mp hk']
      exact (hforth hi).1
    case nonneg =>
    have := h.nonneg
    change 0 ≤ s.nIdCount + 1
    omega
  case toTables =>
    constructor
    case newSlot =>
      intro slot hs
      have ⟨info', hi, hp⟩ := h.newSlot hs
      exact ⟨info', (hforth hi).2, hp⟩
    case refCount =>
      intro k info' hk
      rcases hback hk with ⟨rfl, rfl⟩ | ⟨-, hk⟩
      · have hne : s.nIdCount ≠ -1 := by
          have := h.nonneg
          omega
        have he : refs s.vvNew s.nIdCount = ∅ := refs_eq_empty fun slot hs => by
          have hs' : s.vvNew slot ≠ -1 := hs ▸ hne
          have ⟨info', hi, _⟩ := h.newSlot hs'
          rw [hs, hnone] at hi
          nomatch hi
        change info'.nRefCount = (refs s.vvNew s.nIdCount).card
        rw [he, hr]
        rfl
      · exact h.refCount hk
    case refLimit =>
      intro k info' hk
      rcases hback hk with ⟨rfl, rfl⟩ | ⟨-, hk⟩
      · rw [hr]
        decide
      · exact h.refLimit hk
    case triedSlot =>
      intro slot hs
      have ⟨info', hi, hp⟩ := h.triedSlot hs
      exact ⟨info', (hforth hi).2, hp⟩
    case tried =>
      intro k info' hk hf'
      rcases hback hk with ⟨rfl, rfl⟩ | ⟨-, hk⟩
      · simp [hf] at hf'
      · exact h.tried hk hf'
    case times =>
    intro k info' hk
    rcases hback hk with ⟨rfl, rfl⟩ | ⟨-, hk⟩
    · exact ⟨ht.1, ht.2, by simp [hf]⟩
    · exact h.times hk
  case nNew =>
    rw [hcard, hf, ← h.nNew]
    exact (add_assoc ..).symm
  case nTried =>
    rw [hcard, hf, ← h.nTried]
    exact (add_zero _).symm
  case settled =>
  intro k info' hk hf' hl
  rcases hback hk with ⟨rfl, rfl⟩ | ⟨-, hk⟩
  · exact absurd (.inr rfl) hl
  · exact h.settled hk hf' fun hl' => hl (.inl hl')

lemma Inv.enterNew (h : Inv s owed fun k => loose k ∨ k = n) (hn : s.mapInfo[n]? = some info)
    (hf : info.fInTried = false) (hle : info.nRefCount < ADDRMAN_NEW_BUCKETS_PER_ADDRESS)
    (source nNow) : ∃ s', s.enterNew n info source nNow = some s' ∧ Inv s' owed loose ∧
      Spares s s' (fun _ => True) ∧ s'.vvTried = s.vvTried := by
  have hset (hr : info.nRefCount ≠ 0) : Inv s owed loose :=
    h.settle fun hk => Option.some.inj (hn.symm.trans hk) ▸ hr
  generalize hslot : info.newSlot s.nKey source = slot
  by_cases hs : s.vvNew slot = n
  · refine ⟨s, ?_, hset fun hr => h.vvNew_ne hn hr slot hs, (Reordered.refl s).spares.mono nofun, rfl⟩
    simp [CAddrMan.enterNew, hslot, hs]
  -- What is in the slot, if anything, is looked at before the slot is taken.
  have hlook : ∃ s1, (if s.vvNew slot = -1 then s else s.access (s.vvNew slot)) = s1 ∧
      Inv s1 owed (fun k => loose k ∨ k = n) ∧ Reordered s s1 := by
    by_cases he : s.vvNew slot = -1
    · exact ⟨s, if_pos he, h, .refl s⟩
    have ⟨info', hi, _⟩ := h.newSlot he
    have ⟨h1, hr⟩ := h.access hi
    exact ⟨_, if_neg he, h1, hr⟩
  have ⟨s1, hs1, h1, hr1⟩ := hlook
  have ⟨q, hn1⟩ := hr1.exists_some hn
  have ⟨s2, hc, h2, hsp2, hvv, hvt⟩ := h1.clearNew slot
  have hns : n ≠ s1.vvNew slot := by
    rw [hr1.vvNew]
    exact Ne.symm hs
  have ⟨q', hn2⟩ := hsp2.exists_some hns hn1
  have hp : info.newPlace s2.nKey slot.1 = slot := by
    rw [hsp2.nKey, hr1.nKey, ← hslot]
    rfl
  have hempty : s2.vvNew slot = -1 := by rw [hvv, Function.update_self]
  have h3 := h2.addRef hempty hn2 hf hp (g := (· + 1)) rfl hle
  let s3 := { s2.modifyInfo n fun info => { info with nRefCount := info.nRefCount + 1 } with
    vvNew := Function.update s2.vvNew slot n }
  have hsp3 : Spares s s3 fun _ => True :=
    ((hr1.spares.mono nofun).trans hsp2 fun _ _ => trivial).trans
      (modifyInfo_spares rfl (fun _ => rfl) rfl rfl rfl) fun _ _ => trivial
  have henter (b : Bool) (hb : s.enterNew n info source nNow =
      if b then (s1.clearNew slot).bind fun s => some { s.modifyInfo n fun info =>
        { info with nRefCount := info.nRefCount + 1 } with vvNew := Function.update s.vvNew slot n }
      else if info.nRefCount = 0 then s1.delete n else some s1) :
      ∃ s', s.enterNew n info source nNow = some s' ∧ Inv s' owed loose ∧
        Spares s s' (fun _ => True) ∧ s'.vvTried = s.vvTried := by
    rw [hb]
    cases b
    case true =>
      refine ⟨s3, ?_, h3, hsp3, hvt.trans hr1.vvTried⟩
      rw [if_pos rfl, hc]
      rfl
    rw [if_neg nofun]
    by_cases hz : info.nRefCount = 0
    · have ⟨s', hd, h', hsp, _, hvt, hnone⟩ := h1.delete hn1 hf hz
      exact ⟨s', by rw [if_pos hz, hd], h'.settle (fun hk => nomatch hnone.symm.trans hk),
        (hr1.spares.mono nofun).trans hsp fun _ _ => trivial, hvt.trans hr1.vvTried⟩
    refine ⟨s1, if_neg hz, ?_, hr1.spares.mono nofun, hr1.vvTried⟩
    exact hr1.inv h1.toListed (hset hz)
  let infoExisting : CAddrInfo := (s.mapInfo[s.vvNew slot]?).getD {}
  refine henter (decide (s.vvNew slot = -1) || (infoExisting.isTerrible nNow ||
    (infoExisting.nRefCount > 1 && info.nRefCount = 0))) ?_
  simp only [CAddrMan.enterNew, hslot, if_neg hs, decide_eq_true_eq, hs1]
  rfl

end

end CAddrMan

end Taler
