import TalerModel.Library.OrderedMap
import TalerModel.Net.AddrMan
import Mathlib.Data.Fintype.Prod

open OrderedMap

namespace Taler

open CAddrInfo

-- An entry without its position in `vRandom`.
def CAddrInfo.placeless (info : CAddrInfo) : CAddrInfo :=
  { info with nRandomPos := 0 }

namespace CAddrMan

-- Ids are below the counter, addresses lead to their ids, and `vRandom` lists each id once.
structure Listed (s : CAddrMan) : Prop where
  bound {n : Int} {info : CAddrInfo} : s.mapInfo[n]? = some info → 0 ≤ n ∧ n < s.nIdCount
  addr {a : CNetAddr} {n : Int} : s.mapAddr a = some n ↔
    ∃ info, s.mapInfo[n]? = some info ∧ info.toCNetAddr = a
  pos {n : Int} {info : CAddrInfo} : s.mapInfo[n]? = some info → s.randomAt info.nRandomPos = some n
  mem {n : Int} : n ∈ s.vRandom → n ∈ s.mapInfo
  nodup : s.vRandom.Nodup
  nonneg : 0 ≤ s.nIdCount

def refs (vv : NewSlot → Int) (n : Int) : Finset NewSlot :=
  {slot | vv slot = n}

lemma mem_refs : slot ∈ refs vv n ↔ vv slot = n := by
  simp [refs]

-- The set is large: nothing should try to compute it.
attribute [irreducible] refs

lemma refs_eq_empty (h : ∀ slot, vv slot ≠ n) : refs vv n = ∅ :=
  Finset.eq_empty_of_forall_notMem fun slot hs => h slot (mem_refs.mp hs)

-- What the tables refer to is where it belongs, and entries know where they are referred to.
structure Tables [AddrOps] (s : CAddrMan) : Prop where
  newSlot {slot} : s.vvNew slot ≠ -1 → ∃ info, s.mapInfo[s.vvNew slot]? = some info ∧
    info.fInTried = false ∧ info.newPlace s.nKey slot.1 = slot
  refCount {n : Int} {info : CAddrInfo} : s.mapInfo[n]? = some info → info.nRefCount = ((refs s.vvNew n).card : Int)
  refLimit {n : Int} {info : CAddrInfo} : s.mapInfo[n]? = some info →
    info.nRefCount ≤ ADDRMAN_NEW_BUCKETS_PER_ADDRESS
  triedSlot {slot} : s.vvTried slot ≠ -1 → ∃ info, s.mapInfo[s.vvTried slot]? = some info ∧
    info.fInTried ∧ info.triedSlot s.nKey = slot
  tried {n : Int} {info : CAddrInfo} : s.mapInfo[n]? = some info → info.fInTried →
    s.vvTried (info.triedSlot s.nKey) = n
  times {n : Int} {info : CAddrInfo} : s.mapInfo[n]? = some info →
    0 ≤ info.nLastTry ∧ 0 ≤ info.nLastSuccess ∧ (info.fInTried → info.nLastSuccess ≠ 0)

-- The counter of new entries is behind by `owed`, and ids in `loose` may be in no table.
structure Inv [AddrOps] (s : CAddrMan) (owed : Int) (loose : Int → Prop) : Prop
    extends Listed s, Tables s where
  nNew : s.nNew + owed = (keysOf s.mapInfo (!·.fInTried)).card
  nTried : s.nTried = (keysOf s.mapInfo (·.fInTried)).card
  settled {n : Int} {info : CAddrInfo} : s.mapInfo[n]? = some info → info.fInTried = false → ¬loose n →
    info.nRefCount ≠ 0

-- Only the order of `vRandom` differs.
structure Reordered (s s' : CAddrMan) : Prop where
  entry (n : Int) : s'.mapInfo[n]?.map placeless = s.mapInfo[n]?.map placeless
  nIdCount : s'.nIdCount = s.nIdCount
  mapAddr : s'.mapAddr = s.mapAddr
  nTried : s'.nTried = s.nTried
  vvTried : s'.vvTried = s.vvTried
  nNew : s'.nNew = s.nNew
  vvNew : s'.vvNew = s.vvNew
  nLastGood : s'.nLastGood = s.nLastGood
  collisions : s'.m_tried_collisions = s.m_tried_collisions
  nKey : s'.nKey = s.nKey
  length : s'.vRandom.length = s.vRandom.length

variable {s s' : CAddrMan} {n k : Int} {info info' : CAddrInfo} {f : CAddrInfo → CAddrInfo}

section

lemma modifyInfo_get :
    (s.modifyInfo n f).mapInfo[k]? = if k = n then s.mapInfo[k]?.map f else s.mapInfo[k]? :=
  getElem?_modify

lemma modifyInfo_self (h : s.mapInfo[n]? = some info) :
    (s.modifyInfo n f).mapInfo[n]? = some (f info) := by
  rw [modifyInfo_get, if_pos rfl, h, Option.map_some]

lemma modifyInfo_of_ne (h : k ≠ n) : (s.modifyInfo n f).mapInfo[k]? = s.mapInfo[k]? := by
  rw [modifyInfo_get, if_neg h]

lemma modifyInfo_some (h : (s.modifyInfo n f).mapInfo[k]? = some info) :
    (k = n ∧ ∃ info0, s.mapInfo[n]? = some info0 ∧ info = f info0) ∨
      (k ≠ n ∧ s.mapInfo[k]? = some info) := by
  rw [modifyInfo_get] at h
  by_cases hk : k = n
  · rw [if_pos hk, hk] at h
    have ⟨info0, h0, he⟩ := Option.map_eq_some_iff.mp h
    exact .inl ⟨hk, info0, h0, he.symm⟩
  rw [if_neg hk] at h
  exact .inr ⟨hk, h⟩

lemma access_get (h : s.mapInfo[n]? = some info) : (s.access n).mapInfo[k]? = s.mapInfo[k]? := by
  rw [access, getElem?_insertIfNew]
  by_cases hk : k = n
  · rw [if_pos hk, hk, h, Option.getD_some]
  · rw [if_neg hk]

lemma randomAt_eq_some : s.randomAt p = some n ↔ ∃ i : Nat, p = i ∧ s.vRandom[i]? = some n := by
  rw [randomAt]
  constructor
  · intro h
    split at h
    · nomatch h
    case isFalse hp => exact ⟨p.toNat, by omega, h⟩
  rintro ⟨i, rfl, h⟩
  rw [if_neg (by omega), Int.toNat_natCast, h]

lemma randomAt_natCast {i : Nat} : s.randomAt i = s.vRandom[i]? := by
  rw [randomAt, if_neg (by omega), Int.toNat_natCast]

end

lemma exists_placed
    (he : s'.mapInfo[n]?.map placeless = s.mapInfo[n]?.map placeless)
    (hn : s.mapInfo[n]? = some info) : ∃ p, s'.mapInfo[n]? = some { info with nRandomPos := p } := by
  rw [hn, Option.map_some] at he
  have ⟨info', hi, he⟩ := Option.map_eq_some_iff.mp he
  refine ⟨info'.nRandomPos, hi.trans (congrArg some ?_)⟩
  exact congrArg (fun i : CAddrInfo => { i with nRandomPos := info'.nRandomPos }) he

namespace Reordered

lemma refl (s) : Reordered s s := by
  constructor <;> intros <;> rfl

lemma trans (h : Reordered s s') (h' : Reordered s' s'') : Reordered s s'' where
  entry := fun n => (h'.entry n).trans (h.entry n)
  nIdCount := h'.nIdCount.trans h.nIdCount
  mapAddr := h'.mapAddr.trans h.mapAddr
  nTried := h'.nTried.trans h.nTried
  vvTried := h'.vvTried.trans h.vvTried
  nNew := h'.nNew.trans h.nNew
  vvNew := h'.vvNew.trans h.vvNew
  nLastGood := h'.nLastGood.trans h.nLastGood
  collisions := h'.collisions.trans h.collisions
  nKey := h'.nKey.trans h.nKey
  length := h'.length.trans h.length

-- The entries agree but for their positions, in both directions.

lemma some_of_some (h : Reordered s s') (hn : s'.mapInfo[n]? = some info') :
    ∃ info, s.mapInfo[n]? = some info ∧ info' = { info with nRandomPos := info'.nRandomPos } := by
  have ⟨p, hi⟩ := exists_placed (h.entry n).symm hn
  exact ⟨_, hi, rfl⟩

lemma exists_some (h : Reordered s s') (hn : s.mapInfo[n]? = some info) :
    ∃ p, s'.mapInfo[n]? = some { info with nRandomPos := p } :=
  exists_placed (h.entry n) hn

lemma keysOf (h : Reordered s s') (hp : ∀ info q, p { info with nRandomPos := q } = p info) :
    OrderedMap.keysOf s'.mapInfo p = OrderedMap.keysOf s.mapInfo p := by
  ext n
  rw [mem_keysOf, mem_keysOf]
  constructor
  · rintro ⟨info', hn, hi⟩
    have ⟨info, hn, he⟩ := h.some_of_some hn
    exact ⟨info, hn, by rwa [he, hp] at hi⟩
  rintro ⟨info, hn, hi⟩
  have ⟨q, hn⟩ := h.exists_some hn
  exact ⟨_, hn, by rwa [hp]⟩

variable [AddrOps]

lemma tables (h : Reordered s s') (ht : Tables s) : Tables s' where
  newSlot := by
    intro slot hs
    rw [h.vvNew] at hs ⊢
    have ⟨info, hn, hi, hp⟩ := ht.newSlot hs
    have ⟨q, hn⟩ := h.exists_some hn
    exact ⟨_, hn, hi, by rw [h.nKey]; exact hp⟩
  refCount := by
    intro n info' hn
    have ⟨info, hn, he⟩ := h.some_of_some hn
    rw [he, h.vvNew]
    exact (ht.refCount hn :)
  refLimit := by
    intro n info' hn
    have ⟨info, hn, he⟩ := h.some_of_some hn
    rw [he]
    exact (ht.refLimit hn :)
  triedSlot := by
    intro slot hs
    rw [h.vvTried] at hs ⊢
    have ⟨info, hn, hi, hp⟩ := ht.triedSlot hs
    have ⟨q, hn⟩ := h.exists_some hn
    exact ⟨_, hn, hi, by rw [h.nKey]; exact hp⟩
  tried := by
    intro n info' hn hi
    have ⟨info, hn, he⟩ := h.some_of_some hn
    rw [he] at hi ⊢
    rw [h.vvTried, h.nKey]
    exact (ht.tried hn hi :)
  times := by
    intro n info' hn
    have ⟨info, hn, he⟩ := h.some_of_some hn
    rw [he]
    exact (ht.times hn :)

lemma inv (h : Reordered s s') (hl : Listed s') (hi : Inv s owed loose) : Inv s' owed loose where
  toListed := hl
  toTables := h.tables hi.toTables
  nNew := by
    rw [h.nNew, h.keysOf fun _ _ => rfl]
    exact hi.nNew
  nTried := by
    rw [h.nTried, h.keysOf fun _ _ => rfl]
    exact hi.nTried
  settled := by
    intro n info' hn hf hL
    have ⟨info, hn, he⟩ := h.some_of_some hn
    rw [he] at hf ⊢
    exact (hi.settled hn hf hL :)

end Reordered

namespace Listed

section

variable (h : Listed s)
include h

lemma mapAddr_of_some (hn : s.mapInfo[n]? = some info) : s.mapAddr info.toCNetAddr = some n :=
  h.addr.mpr ⟨info, hn, rfl⟩

lemma find (hf : s.find a = some (n, info)) : s.mapInfo[n]? = some info ∧ info.toCNetAddr = a := by
  have ⟨k, hk, hf⟩ := Option.bind_eq_some_iff.mp hf
  have ⟨info', hn, he⟩ := Option.bind_eq_some_iff.mp hf
  cases he
  have ⟨info', hn', ha⟩ := h.addr.mp hk
  cases hn.symm.trans hn'
  exact ⟨hn, ha⟩

lemma find_none (hf : s.find a = none) : s.mapAddr a = none := by
  cases hk : s.mapAddr a
  case none => rfl
  case some k =>
  have ⟨info, hn, _⟩ := h.addr.mp hk
  simp [CAddrMan.find, hk, hn] at hf

lemma ne_neg_one (hn : s.mapInfo[n]? = some info) : n ≠ -1 := by
  have := h.bound hn
  omega

lemma modifyInfo
    (hf : ∀ info, s.mapInfo[n]? = some info → (f info).toCNetAddr = info.toCNetAddr ∧
      (f info).nRandomPos = info.nRandomPos) :
    Listed (s.modifyInfo n f) where
  bound := by
    intro k info hk
    rcases modifyInfo_some hk with ⟨rfl, info0, h0, -⟩ | ⟨-, hk⟩
    · exact h.bound h0
    · exact h.bound hk
  addr := by
    intro a k
    refine h.addr.trans ⟨?_, ?_⟩
    · rintro ⟨info, hk, ha⟩
      by_cases he : k = n
      · subst he
        exact ⟨_, modifyInfo_self hk, (hf info hk).1.trans ha⟩
      · exact ⟨info, (modifyInfo_of_ne he).trans hk, ha⟩
    rintro ⟨info, hk, ha⟩
    rcases modifyInfo_some hk with ⟨rfl, info0, h0, rfl⟩ | ⟨-, hk⟩
    · exact ⟨info0, h0, (hf info0 h0).1.symm.trans ha⟩
    · exact ⟨info, hk, ha⟩
  pos := by
    intro k info hk
    rcases modifyInfo_some hk with ⟨rfl, info0, h0, rfl⟩ | ⟨-, hk⟩
    · rw [(hf info0 h0).2]
      exact h.pos h0
    · exact h.pos hk
  mem := by
    intro k hk
    have ⟨info, hi⟩ := mem_iff.mp (h.mem hk)
    by_cases he : k = n
    · subst he
      exact mem_iff.mpr ⟨_, modifyInfo_self hi⟩
    · exact mem_iff.mpr ⟨info, (modifyInfo_of_ne he).trans hi⟩
  nodup := h.nodup
  nonneg := h.nonneg

lemma reorder (hr : Reordered s s') (hv : s'.vRandom.Perm s.vRandom)
    (hp : ∀ n info, s'.mapInfo[n]? = some info → s'.randomAt info.nRandomPos = some n) :
    Listed s' where
  bound := by
    intro n info hn
    have ⟨_, hn, _⟩ := hr.some_of_some hn
    rw [hr.nIdCount]
    exact h.bound hn
  addr := by
    intro a n
    rw [hr.mapAddr]
    refine h.addr.trans ⟨?_, ?_⟩
    · rintro ⟨info, hn, ha⟩
      have ⟨_, hn⟩ := hr.exists_some hn
      exact ⟨_, hn, ha⟩
    rintro ⟨info, hn, ha⟩
    have ⟨info0, hn, he⟩ := hr.some_of_some hn
    rw [he] at ha
    exact ⟨info0, hn, ha⟩
  pos := hp _ _
  mem := by
    intro n hn
    have ⟨info, hi⟩ := mem_iff.mp (h.mem (hv.mem_iff.mp hn))
    have ⟨_, hi⟩ := hr.exists_some hi
    exact mem_iff.mpr ⟨_, hi⟩
  nodup := hv.nodup_iff.mpr h.nodup
  nonneg := hr.nIdCount ▸ h.nonneg

lemma swapRandom (hp : s.randomAt p = some a) (hq : s.randomAt q = some b) :
    ∃ s', s.swapRandom p q = some s' ∧ Listed s' ∧ Reordered s s' ∧ s'.randomAt q = some a := by
  by_cases hpq : p = q
  · refine ⟨s, if_pos hpq, h, .refl s, ?_⟩
    rw [← hpq]
    exact hp
  have ⟨i, hi, hia⟩ := randomAt_eq_some.mp hp
  have ⟨j, hj, hjb⟩ := randomAt_eq_some.mp hq
  have hij : i ≠ j := by omega
  have ⟨hil, hia'⟩ := List.getElem?_eq_some_iff.mp hia
  have ⟨hjl, hjb'⟩ := List.getElem?_eq_some_iff.mp hjb
  have hab : a ≠ b := by
    rw [← hia', ← hjb']
    exact fun he => hij ((List.Nodup.getElem_inj_iff h.nodup).mp he)
  have ha : a ∈ s.mapInfo := h.mem (hia' ▸ List.getElem_mem hil)
  have hb : b ∈ s.mapInfo := h.mem (hjb' ▸ List.getElem_mem hjl)
  have hperm : ((s.vRandom.set i b).set j a).Perm s.vRandom := by
    rw [← hia', ← hjb']
    exact List.set_set_perm hil hjl
  let s1 := s.modifyInfo a fun info => { info with nRandomPos := q }
  let s2 := s1.modifyInfo b fun info => { info with nRandomPos := p }
  let s3 := { s2 with vRandom := (s.vRandom.set i b).set j a }
  have hs : s.swapRandom p q = some s3 := by
    subst hi hj
    simp only [CAddrMan.swapRandom, if_neg hpq, hp, hq, ha, hb, Option.bind_eq_bind,
      Option.bind_some, and_self, guard_true, Int.toNat_natCast]
    rfl
  have he (k : Int) : s3.mapInfo[k]? = s.mapInfo[k]?.map fun info =>
      { info with nRandomPos := if k = b then p else if k = a then q else info.nRandomPos } := by
    rw [show s3.mapInfo = s2.mapInfo from rfl, modifyInfo_get, modifyInfo_get]
    by_cases hkb : k = b
    · simp [hkb, hab.symm]
    by_cases hka : k = a
    · simp [hka, hab]
    · simp [hkb, hka]
  have hr : Reordered s s3 := by
    refine { Reordered.refl s with entry := fun k => ?_, length := by simp [s3] }
    rw [he, Option.map_map]
    rfl
  have hq' : s3.randomAt q = some a := by
    rw [hj, randomAt_natCast]
    simp [s3, hjl]
  refine ⟨s3, hs, h.reorder hr hperm fun k info hk => ?_, hr, hq'⟩
  rw [he] at hk
  have ⟨info0, hk, he⟩ := Option.map_eq_some_iff.mp hk
  rw [← he]
  by_cases hkb : k = b
  · simp only [hkb, if_true]
    rw [hi, randomAt_natCast]
    simp [s3, hij.symm, hil]
  by_cases hka : k = a
  · simp only [hka, if_neg hab, if_true]
    exact hq'
  simp only [if_neg hkb, if_neg hka]
  have ⟨l, hl, hlk⟩ := randomAt_eq_some.mp (h.pos hk)
  have hli : l ≠ i := fun h => hka (Option.some.inj (hlk.symm.trans (h ▸ hia)))
  have hlj : l ≠ j := fun h => hkb (Option.some.inj (hlk.symm.trans (h ▸ hjb)))
  rw [hl, randomAt_natCast]
  simp [s3, hli.symm, hlj.symm, hlk]

lemma dropLast (hn : s.mapInfo[n]? = some info) (hl : s.randomAt (s.vRandom.length - 1) = some n) :
    Listed { s with
      vRandom := s.vRandom.dropLast
      mapAddr := Function.update s.mapAddr info.toCNetAddr none
      mapInfo := s.mapInfo.erase n
      nNew := s.nNew - 1 } := by
  have ⟨i, hi, hin⟩ := randomAt_eq_some.mp hl
  have ⟨hil, hin⟩ := List.getElem?_eq_some_iff.mp hin
  have hv : s.vRandom = s.vRandom.dropLast ++ [n] := by
    have hne := List.ne_nil_of_length_pos (Nat.zero_lt_of_lt hil)
    have hlast : s.vRandom.getLast hne = n := by
      rw [List.getLast_eq_getElem]
      simpa [show s.vRandom.length - 1 = i by omega] using hin
    rw [← hlast, List.dropLast_append_getLast hne]
  have hnd : n ∉ s.vRandom.dropLast := by
    have hd := h.nodup
    rw [hv] at hd
    exact fun hm => (List.nodup_append.mp hd).2.2 n hm n (List.mem_singleton_self n) rfl
  have hget {k : Int} {info' : CAddrInfo} (hk : (s.mapInfo.erase n)[k]? = some info') :
      k ≠ n ∧ s.mapInfo[k]? = some info' := by
    rw [getElem?_erase] at hk
    split at hk
    · nomatch hk
    case isFalse hne => exact ⟨hne, hk⟩
  constructor
  case bound =>
    intro k info' hk
    exact h.bound (hget hk).2
  case addr =>
    intro a k
    dsimp only
    by_cases ha : a = info.toCNetAddr
    · rw [ha, Function.update_self]
      refine ⟨nofun, fun ⟨info', hk, ha'⟩ => ?_⟩
      have ⟨hne, hk⟩ := hget hk
      have := h.addr.mpr ⟨info', hk, ha'⟩
      rw [h.mapAddr_of_some hn] at this
      exact absurd (Option.some.inj this).symm hne
    rw [Function.update_of_ne ha]
    refine h.addr.trans ⟨?_, fun ⟨info', hk, ha'⟩ => ⟨info', (hget hk).2, ha'⟩⟩
    rintro ⟨info', hk, ha'⟩
    refine ⟨info', ?_, ha'⟩
    rw [getElem?_erase, if_neg, hk]
    rintro rfl
    cases hk.symm.trans hn
    exact ha ha'.symm
  case pos =>
    intro k info' hk
    have ⟨hne, hk⟩ := hget hk
    have ⟨l, hl', hlk⟩ := randomAt_eq_some.mp (h.pos hk)
    have ⟨hll, hlk'⟩ := List.getElem?_eq_some_iff.mp hlk
    have hli : l ≠ i := fun he => hne (by simp [← hlk', ← hin, he])
    refine randomAt_eq_some.mpr ⟨l, hl', ?_⟩
    rw [List.getElem?_dropLast, if_pos (by omega), hlk]
  case mem =>
    intro k hk
    have ⟨info', hk'⟩ := mem_iff.mp (h.mem (List.mem_of_mem_dropLast hk))
    refine mem_iff.mpr ⟨info', ?_⟩
    rw [getElem?_erase, if_neg (fun he : k = n => hnd (he ▸ hk)), hk']
  case nodup => exact h.nodup.sublist (List.dropLast_sublist _)
  case nonneg => exact h.nonneg

end

end Listed

-- No entry changes but those that are touched, and these keep what they are for if they stay.
structure Spares (s s' : CAddrMan) (touched : Int → Prop) : Prop where
  entry {n : Int} : ¬touched n → s'.mapInfo[n]?.map placeless = s.mapInfo[n]?.map placeless
  service {n : Int} {info' : CAddrInfo} : s'.mapInfo[n]? = some info' →
    ∃ info, s.mapInfo[n]? = some info ∧ info'.toCService = info.toCService
  nIdCount : s'.nIdCount = s.nIdCount
  collisions : s'.m_tried_collisions = s.m_tried_collisions
  nKey : s'.nKey = s.nKey

lemma Reordered.spares (h : Reordered s s') : Spares s s' fun _ => False where
  entry := fun _ => h.entry _
  service := by
    intro n info' hn
    have ⟨info, hn, he⟩ := h.some_of_some hn
    exact ⟨info, hn, by rw [he]⟩
  nIdCount := h.nIdCount
  collisions := h.collisions
  nKey := h.nKey

namespace Spares

variable {touched : Int → Prop}

lemma trans (h : Spares s s' touched) (h' : Spares s' s'' touched')
    (ht : ∀ n, touched' n → touched n) : Spares s s'' touched where
  entry := fun hn => (h'.entry (fun h => hn (ht _ h))).trans (h.entry hn)
  service := by
    intro n info'' hn
    have ⟨info', hn, he'⟩ := h'.service hn
    have ⟨info, hn, he⟩ := h.service hn
    exact ⟨info, hn, he'.trans he⟩
  nIdCount := h'.nIdCount.trans h.nIdCount
  collisions := h'.collisions.trans h.collisions
  nKey := h'.nKey.trans h.nKey

lemma mono (h : Spares s s' touched) (ht : ∀ n, touched n → touched' n) : Spares s s' touched' :=
  { h with entry := fun hn => h.entry fun h => hn (ht _ h) }

lemma exists_some (h : Spares s s' touched) (ht : ¬touched n) (hn : s.mapInfo[n]? = some info) :
    ∃ p, s'.mapInfo[n]? = some { info with nRandomPos := p } :=
  exists_placed (h.entry ht) hn

end Spares

lemma modifyInfo_spares (hm : s'.mapInfo = (s.modifyInfo n f).mapInfo)
    (hf : ∀ info, (f info).toCService = info.toCService) (hi : s'.nIdCount = s.nIdCount)
    (hc : s'.m_tried_collisions = s.m_tried_collisions) (hk : s'.nKey = s.nKey) :
    Spares s s' (· = n) where
  entry := fun hk => by rw [hm, modifyInfo_of_ne hk]
  service := fun hk => by
    rcases modifyInfo_some (hm ▸ hk) with ⟨rfl, info0, h0, rfl⟩ | ⟨-, hk⟩
    · exact ⟨info0, h0, hf info0⟩
    · exact ⟨_, hk, rfl⟩
  nIdCount := hi
  collisions := hc
  nKey := hk

variable [AddrOps] {owed : Int} {loose : Int → Prop}

namespace Inv

lemma settle (h : Inv s owed fun k => loose k ∨ k = n)
    (hn : ∀ {info}, s.mapInfo[n]? = some info → info.nRefCount ≠ 0) : Inv s owed loose := by
  refine { h with settled := fun {k info} hk hf hl => ?_ }
  by_cases he : k = n
  · exact hn (he ▸ hk)
  · exact h.settled hk hf fun hl' => hl'.elim hl he

section

variable (h : Inv s owed loose) (hn : s.mapInfo[n]? = some info)
include h hn

lemma vvNew_ne (hr : info.nRefCount = 0) (slot) : s.vvNew slot ≠ n := by
  intro he
  have hc := h.refCount hn
  have hz : refs s.vvNew n = ∅ := Finset.card_eq_zero.mp (by omega)
  have : slot ∈ refs s.vvNew n := mem_refs.mpr he
  simp [hz] at this

lemma vvTried_ne (hf : info.fInTried = false) (slot) : s.vvTried slot ≠ n := by
  rintro rfl
  have ⟨info', hn', hf', _⟩ := h.triedSlot (h.ne_neg_one hn)
  cases hn.symm.trans hn'
  simp [hf] at hf'

lemma delete (hf : info.fInTried = false) (hr : info.nRefCount = 0) :
    ∃ s', s.delete n = some s' ∧ Inv s' owed loose ∧
      Spares s s' (· = n) ∧ s'.vvNew = s.vvNew ∧ s'.vvTried = s.vvTried ∧
      s'.mapInfo[n]? = none := by
  have hp := h.pos hn
  have hlast : ∃ b, s.randomAt (s.vRandom.length - 1) = some b := by
    have ⟨i, _, hi⟩ := randomAt_eq_some.mp hp
    have ⟨hil, _⟩ := List.getElem?_eq_some_iff.mp hi
    refine ⟨s.vRandom[s.vRandom.length - 1], randomAt_eq_some.mpr ⟨s.vRandom.length - 1, by omega, ?_⟩⟩
    exact List.getElem?_eq_getElem _
  have ⟨b, hb⟩ := hlast
  have ⟨s1, hs1, hl, hre, hq⟩ := h.swapRandom hp hb
  have ⟨p, hn1⟩ := hre.exists_some hn
  have h1 := hre.inv hl h
  rw [← hre.length] at hq
  let s2 := { s1 with
      vRandom := s1.vRandom.dropLast
      mapAddr := Function.update s1.mapAddr info.toCNetAddr none
      mapInfo := s1.mapInfo.erase n
      nNew := s1.nNew - 1 }
  have hd : s.delete n = some s2 := by
    simp [CAddrMan.delete, hn, hf, hr, hs1, s2, guard]
  have hget {k : Int} {info' : CAddrInfo} :
      s2.mapInfo[k]? = some info' ↔ k ≠ n ∧ s1.mapInfo[k]? = some info' := by
    rw [show s2.mapInfo = s1.mapInfo.erase n from rfl, getElem?_erase]
    split <;> simp_all
  have h2 : Inv s2 owed loose :=
    { toListed := (hl.dropLast hn1 hq :)
      newSlot := fun hs => by
        have ⟨info', hi, hf, hp⟩ := h1.newSlot hs
        exact ⟨info', hget.mpr ⟨h1.vvNew_ne hn1 hr _, hi⟩, hf, hp⟩
      refCount := fun hk => h1.refCount (hget.mp hk).2
      refLimit := fun hk => h1.refLimit (hget.mp hk).2
      triedSlot := fun hs => by
        have ⟨info', hi, hf', hp⟩ := h1.triedSlot hs
        exact ⟨info', hget.mpr ⟨h1.vvTried_ne hn1 hf _, hi⟩, hf', hp⟩
      tried := fun hk => h1.tried (hget.mp hk).2
      times := fun hk => h1.times (hget.mp hk).2
      nNew := by
        have hk : keysOf s2.mapInfo (!·.fInTried) = (keysOf s1.mapInfo (!·.fInTried)).erase n := by
          ext k
          simp [mem_keysOf, hget, and_assoc]
        have hm : n ∈ keysOf s1.mapInfo (!·.fInTried) := mem_keysOf.mpr ⟨_, hn1, by simp [hf]⟩
        have hc := Finset.card_erase_add_one hm
        have hN := h1.nNew
        rw [hk]
        change s1.nNew - 1 + owed = _
        omega
      nTried := by
        have hk : keysOf s2.mapInfo (·.fInTried) = keysOf s1.mapInfo (·.fInTried) := by
          ext k
          simp only [mem_keysOf, hget]
          refine ⟨fun ⟨i, hi, hf⟩ => ⟨i, hi.2, hf⟩, fun ⟨i, hi, hf'⟩ => ⟨i, ⟨?_, hi⟩, hf'⟩⟩
          rintro rfl
          cases hi.symm.trans hn1
          simp [hf] at hf'
        rw [hk]
        exact h1.nTried
      settled := fun hk => h1.settled (hget.mp hk).2 }
  have hsp : Spares s1 s2 (· = n) :=
    { entry := fun {k} hk => by
        rw [show s2.mapInfo = s1.mapInfo.erase n from rfl, getElem?_erase, if_neg hk]
      service := fun hk => ⟨_, (hget.mp hk).2, rfl⟩
      nIdCount := rfl
      collisions := rfl
      nKey := rfl }
  refine ⟨s2, hd, h2, (hre.spares.mono nofun).trans hsp fun _ => id, hre.vvNew, hre.vvTried, ?_⟩
  rw [show s2.mapInfo = s1.mapInfo.erase n from rfl, getElem?_erase, if_pos rfl]

lemma change (f : CAddrInfo → CAddrInfo) (vv : NewSlot → Int) (vt : TriedSlot → Int)
    (c owed' : Int) (loose')
    (ha : (f info).toCService = info.toCService ∧ (f info).nRandomPos = info.nRandomPos)
    (hvv : ∀ slot, vv slot = n → (f info).fInTried = false ∧ info.newPlace s.nKey slot.1 = slot)
    (hvv' : ∀ slot k, k ≠ n → k ≠ -1 → (vv slot = k ↔ s.vvNew slot = k))
    (hvt : ∀ slot, vt slot = n ↔ (f info).fInTried ∧ info.triedSlot s.nKey = slot)
    (hvt' : ∀ slot k, k ≠ n → k ≠ -1 → (vt slot = k ↔ s.vvTried slot = k))
    (hr : (f info).nRefCount = (refs vv n).card)
    (hle : (f info).nRefCount ≤ ADDRMAN_NEW_BUCKETS_PER_ADDRESS)
    (ht : 0 ≤ (f info).nLastTry ∧ 0 ≤ (f info).nLastSuccess ∧
      ((f info).fInTried → (f info).nLastSuccess ≠ 0))
    (hc : c = s.nTried - (if info.fInTried then 1 else 0) + if (f info).fInTried then 1 else 0)
    (ho : owed' = owed + (if info.fInTried then 1 else 0) - if (f info).fInTried then 1 else 0)
    (hn' : (f info).fInTried = false → ¬loose' n → (f info).nRefCount ≠ 0)
    (hl : ∀ k, k ≠ n → loose k → loose' k) :
    Inv { s.modifyInfo n f with vvNew := vv, vvTried := vt, nTried := c } owed' loose' := by
  have hself {info' : CAddrInfo} (hk : s.mapInfo[n]? = some info') : info' = info :=
    Option.some.inj (hk.symm.trans hn)
  have hm := h.toListed.modifyInfo fun info' hi => by
    cases hself hi
    exact ⟨by rw [ha.1], ha.2⟩
  have hback {k : Int} {info' : CAddrInfo} (hk : (s.modifyInfo n f).mapInfo[k]? = some info') :
      (k = n ∧ info' = f info) ∨ (k ≠ n ∧ s.mapInfo[k]? = some info') := by
    rcases modifyInfo_some hk with ⟨rfl, info0, h0, rfl⟩ | hk
    · cases hself h0
      exact .inl ⟨rfl, rfl⟩
    · exact .inr hk
  have hcard p : ((keysOf (s.modifyInfo n f).mapInfo p).card : Int) =
      (keysOf s.mapInfo p).card - (if p info then 1 else 0) + if p (f info) then 1 else 0 := by
    rw [card_keysOf p n fun _ => modifyInfo_of_ne, hn, modifyInfo_self hn, Option.any_some,
      Option.any_some]
  constructor
  case toListed => exact ⟨hm.bound, hm.addr, hm.pos, hm.mem, hm.nodup, hm.nonneg⟩
  case toTables =>
    constructor
    case newSlot =>
      intro slot hs
      dsimp only at hs ⊢
      by_cases he : vv slot = n
      · have ⟨hf, hp⟩ := hvv slot he
        rw [he]
        exact ⟨_, modifyInfo_self hn, hf, by rw [ha.1]; exact hp⟩
      have he' := (hvv' slot _ he hs).mp rfl
      have hs' : s.vvNew slot ≠ -1 := he' ▸ hs
      have ⟨info', hi, hf, hp⟩ := h.newSlot hs'
      rw [he'] at hi
      exact ⟨info', (modifyInfo_of_ne he).trans hi, hf, hp⟩
    case refCount =>
      intro k info' hk
      rcases hback hk with ⟨rfl, rfl⟩ | ⟨hkn, hk⟩
      · exact hr
      have hr : refs vv k = refs s.vvNew k := by
        ext slot
        rw [mem_refs, mem_refs]
        exact hvv' slot k hkn (h.ne_neg_one hk)
      rw [hr]
      exact h.refCount hk
    case refLimit =>
      intro k info' hk
      rcases hback hk with ⟨rfl, rfl⟩ | ⟨-, hk⟩
      · exact hle
      · exact h.refLimit hk
    case triedSlot =>
      intro slot hs
      dsimp only at hs ⊢
      by_cases he : vt slot = n
      · have ⟨hf, hp⟩ := (hvt slot).mp he
        rw [he]
        exact ⟨_, modifyInfo_self hn, hf, by rw [ha.1]; exact hp⟩
      have he' := (hvt' slot _ he hs).mp rfl
      have hs' : s.vvTried slot ≠ -1 := he' ▸ hs
      have ⟨info', hi, hf, hp⟩ := h.triedSlot hs'
      rw [he'] at hi
      exact ⟨info', (modifyInfo_of_ne he).trans hi, hf, hp⟩
    case tried =>
      intro k info' hk hf
      rcases hback hk with ⟨rfl, rfl⟩ | ⟨hkn, hk⟩
      · rw [ha.1]
        exact (hvt _).mpr ⟨hf, rfl⟩
      · exact (hvt' _ k hkn (h.ne_neg_one hk)).mpr (h.tried hk hf)
    case times =>
    intro k info' hk
    rcases hback hk with ⟨rfl, rfl⟩ | ⟨-, hk⟩
    · exact ht
    · exact h.times hk
  case nNew =>
    rw [hcard, ho]
    have := h.nNew
    change s.nNew + _ = _
    cases info.fInTried <;> cases (f info).fInTried <;> simp <;> omega
  case nTried =>
    rw [hcard, hc, h.nTried]
  case settled =>
  intro k info' hk hf hL
  rcases hback hk with ⟨rfl, rfl⟩ | ⟨hkn, hk⟩
  · exact hn' hf hL
  · exact h.settled hk hf fun hl' => hL (hl k hkn hl')

lemma vvNew_place (hs : s.vvNew slot = n) :
    info.fInTried = false ∧ info.newPlace s.nKey slot.1 = slot := by
  subst hs
  have ⟨info', hn', hp⟩ := h.newSlot (h.ne_neg_one hn)
  cases hn.symm.trans hn'
  exact hp

lemma vvTried_iff (slot) : s.vvTried slot = n ↔ info.fInTried ∧ info.triedSlot s.nKey = slot := by
  constructor
  · rintro rfl
    have ⟨info', hn', hp⟩ := h.triedSlot (h.ne_neg_one hn)
    cases hn.symm.trans hn'
    exact hp
  rintro ⟨hf, rfl⟩
  exact h.tried hn hf

lemma refCount_tried (hf : info.fInTried) : info.nRefCount = 0 := by
  have he : refs s.vvNew n = ∅ := refs_eq_empty fun slot hs => by
    have := (h.vvNew_place hn hs).1
    simp [hf] at this
  rw [h.refCount hn, he]
  rfl

end

lemma modifyInfo (h : Inv s owed loose)
    (hf : ∀ info, s.mapInfo[n]? = some info →
      ((f info).toCService = info.toCService ∧ (f info).nRandomPos = info.nRandomPos) ∧
      ((f info).nRefCount = info.nRefCount ∧ (f info).fInTried = info.fInTried) ∧
      0 ≤ (f info).nLastTry ∧ 0 ≤ (f info).nLastSuccess ∧
        (info.fInTried → (f info).nLastSuccess ≠ 0)) : Inv (s.modifyInfo n f) owed loose := by
  cases hn : s.mapInfo[n]?
  case none =>
    have hget (k : Int) : (s.modifyInfo n f).mapInfo[k]? = s.mapInfo[k]? := by
      rw [modifyInfo_get]
      by_cases hk : k = n
      · rw [if_pos hk, hk, hn, Option.map_none]
      · rw [if_neg hk]
    have hr : Reordered s (s.modifyInfo n f) :=
      { Reordered.refl s with entry := fun k => by rw [hget] }
    exact hr.inv (h.toListed.modifyInfo fun info hi => by simp [hn] at hi) h
  case some info =>
  have ⟨ha, ⟨hr, hf'⟩, ht⟩ := hf info hn
  refine h.change hn f s.vvNew s.vvTried s.nTried owed loose ha ?_ (fun _ _ _ _ => .rfl) ?_
    (fun _ _ _ _ => .rfl) (hr.trans (h.refCount hn)) (hr ▸ h.refLimit hn) (hf' ▸ ht) ?_ ?_ ?_
    fun _ _ => id
  · intro slot hs
    rw [hf']
    exact h.vvNew_place hn hs
  · intro slot
    rw [hf']
    exact h.vvTried_iff hn slot
  · rw [hf']
    omega
  · rw [hf']
    omega
  rw [hf', hr]
  exact h.settled hn

omit [AddrOps] in
lemma update_eq_iff [DecidableEq σ] {vv : σ → Int} {slot slot' : σ} (hs : k ≠ vv slot)
    (hm : k ≠ m) : Function.update vv slot m slot' = k ↔ vv slot' = k := by
  by_cases he : slot' = slot
  · simp [he, hs.symm, hm.symm]
  · rw [Function.update_of_ne he]

omit [AddrOps] in
lemma refs_update (slot m) (hnm : n ≠ m) :
    refs (Function.update s.vvNew slot m) n = (refs s.vvNew n).erase slot := by
  ext slot'
  rw [Finset.mem_erase, mem_refs, mem_refs]
  by_cases he : slot' = slot
  · simp [he, hnm.symm]
  · simp [he]

lemma dropRef (h : Inv s owed loose) {slot : NewSlot} (hs : s.vvNew slot = n)
    (hn : s.mapInfo[n]? = some info) :
    0 < info.nRefCount ∧
      Inv { s.modifyInfo n fun info => { info with nRefCount := info.nRefCount - 1 } with
        vvNew := Function.update s.vvNew slot (-1) } owed fun k => loose k ∨ k = n := by
  have hne := h.ne_neg_one hn
  have hc := h.refCount hn
  have hle := h.refLimit hn
  have hcard := Finset.card_erase_add_one (mem_refs.mpr hs)
  have hr := refs_update slot (-1) hne (s := s)
  refine ⟨by omega, h.change hn (fun info => { info with nRefCount := info.nRefCount - 1 })
    (Function.update s.vvNew slot (-1)) s.vvTried s.nTried owed (fun k => loose k ∨ k = n)
    ⟨rfl, rfl⟩ ?_ ?_ (h.vvTried_iff hn :) (fun _ _ _ _ => .rfl) ?_ ?_ (h.times hn :) ?_ ?_ ?_
    fun _ _ => .inl⟩
  · intro slot' hs'
    by_cases he : slot' = slot
    · simp [he, hne.symm] at hs'
    · exact h.vvNew_place hn (by rwa [Function.update_of_ne he] at hs')
  · exact fun slot' k hk hk' => update_eq_iff (hs ▸ hk) hk'
  · dsimp only
    rw [hr]
    omega
  · dsimp only
    omega
  · dsimp only
    omega
  · dsimp only
    omega
  · exact fun _ hl => absurd (.inr rfl) hl

lemma addRef (h : Inv s owed fun k => loose k ∨ k = n) (hs : s.vvNew slot = -1)
    (hn : s.mapInfo[n]? = some info) (hf : info.fInTried = false)
    (hp : info.newPlace s.nKey slot.1 = slot) {g : Int → Int}
    (hg : g info.nRefCount = info.nRefCount + 1)
    (hle : info.nRefCount < ADDRMAN_NEW_BUCKETS_PER_ADDRESS) :
    Inv { s.modifyInfo n fun info => { info with nRefCount := g info.nRefCount } with
      vvNew := Function.update s.vvNew slot n } owed loose := by
  have hne := h.ne_neg_one hn
  have hc := h.refCount hn
  have hr : refs (Function.update s.vvNew slot n) n = insert slot (refs s.vvNew n) := by
    ext slot'
    rw [Finset.mem_insert, mem_refs, mem_refs]
    by_cases he : slot' = slot
    · simp [he]
    · simp [he]
  have hcard : (insert slot (refs s.vvNew n)).card = (refs s.vvNew n).card + 1 :=
    Finset.card_insert_of_notMem (by rw [mem_refs, hs]; exact hne.symm)
  refine h.change hn (fun info => { info with nRefCount := g info.nRefCount })
    (Function.update s.vvNew slot n) s.vvTried s.nTried owed loose ⟨rfl, rfl⟩ ?_ ?_
    (h.vvTried_iff hn :) (fun _ _ _ _ => .rfl) ?_ ?_ (h.times hn :) ?_ ?_ ?_
    fun k hk hl => hl.resolve_right hk
  · intro slot' hs'
    by_cases he : slot' = slot
    · exact ⟨hf, he ▸ hp⟩
    · exact h.vvNew_place hn (by rwa [Function.update_of_ne he] at hs')
  · exact fun slot' k hk hk' => update_eq_iff (hs ▸ hk') hk
  · dsimp only
    rw [hr]
    omega
  · dsimp only
    omega
  · dsimp only
    omega
  · dsimp only
    omega
  intro _ _
  dsimp only
  omega

lemma enterTried (h : Inv s owed fun k => loose k ∨ k = n) (hn : s.mapInfo[n]? = some info)
    (hr : info.nRefCount = 0) (hf : info.fInTried = false) (ht : info.nLastSuccess ≠ 0)
    (hs : s.vvTried (info.triedSlot s.nKey) = -1) :
    Inv { s.modifyInfo n fun info => { info with fInTried := true } with
      vvTried := Function.update s.vvTried (info.triedSlot s.nKey) n
      nTried := s.nTried + 1 } (owed - 1) loose := by
  have hle := h.refLimit hn
  have htimes := h.times hn
  refine h.change hn (fun info => { info with fInTried := true }) s.vvNew
    (Function.update s.vvTried (info.triedSlot s.nKey) n) (s.nTried + 1) (owed - 1) loose
    ⟨rfl, rfl⟩ ?_ (fun _ _ _ _ => .rfl) ?_ ?_ (h.refCount hn :) hle ⟨htimes.1, htimes.2.1, fun _ => ht⟩
    ?_ ?_ nofun fun k hk hl => hl.resolve_right hk
  · exact fun slot hs => absurd hs (h.vvNew_ne hn hr slot)
  · intro slot
    by_cases he : slot = info.triedSlot s.nKey
    · simp [he]
    · simp [he, Ne.symm he, h.vvTried_ne hn hf]
  · exact fun slot k hk hk' => update_eq_iff (hs ▸ hk') hk
  · simp [hf]
  · simp [hf]

lemma leaveTried (h : Inv s owed loose) (hn : s.mapInfo[n]? = some info) (hf : info.fInTried) :
    Inv { s.modifyInfo n fun info => { info with fInTried := false } with
      vvTried := Function.update s.vvTried (info.triedSlot s.nKey) (-1)
      nTried := s.nTried - 1 } (owed + 1) fun k => loose k ∨ k = n := by
  have hne := h.ne_neg_one hn
  have htimes := h.times hn
  refine h.change hn (fun info => { info with fInTried := false }) s.vvNew
    (Function.update s.vvTried (info.triedSlot s.nKey) (-1)) (s.nTried - 1) (owed + 1)
    (fun k => loose k ∨ k = n) ⟨rfl, rfl⟩ ?_ (fun _ _ _ _ => .rfl) ?_ ?_ (h.refCount hn :)
    (h.refLimit hn :) ⟨htimes.1, htimes.2.1, nofun⟩ ?_ ?_ (fun _ hl => absurd (.inr rfl) hl)
    fun _ _ => .inl
  · exact fun slot hs => ⟨rfl, (h.vvNew_place hn hs).2⟩
  · intro slot
    by_cases he : slot = info.triedSlot s.nKey
    · simp [he, hne.symm]
    · simp [he, Ne.symm he, h.vvTried_iff hn]
  · exact fun slot k hk hk' => update_eq_iff (h.tried hn hf ▸ hk) hk'
  · simp only [hf, if_true]
    simp
  simp only [hf, if_true]
  simp

lemma clearNew (h : Inv s owed loose) (slot) :
    ∃ s', s.clearNew slot = some s' ∧ Inv s' owed loose ∧ Spares s s' (· = s.vvNew slot) ∧
      s'.vvNew = Function.update s.vvNew slot (-1) ∧ s'.vvTried = s.vvTried := by
  by_cases hs : s.vvNew slot = -1
  · refine ⟨s, if_pos hs, h, (Reordered.refl s).spares.mono nofun, ?_, rfl⟩
    rw [← hs, Function.update_eq_self]
  have ⟨info, hn, hf, _⟩ := h.newSlot hs
  have ⟨hpos, h1⟩ := h.dropRef rfl hn
  generalize hid : s.vvNew slot = n at *
  let s1 := { s.modifyInfo n fun info => { info with nRefCount := info.nRefCount - 1 } with
    vvNew := Function.update s.vvNew slot (-1) }
  have hn1 : s1.mapInfo[n]? = some { info with nRefCount := info.nRefCount - 1 } :=
    modifyInfo_self hn
  have hsp : Spares s s1 (· = n) := modifyInfo_spares rfl (fun _ => rfl) rfl rfl rfl
  by_cases hz : info.nRefCount - 1 = 0
  · have ⟨s2, hd, h2, hsp2, hvv, hvt, hnone⟩ := h1.delete hn1 hf hz
    refine ⟨s2, ?_, h2.settle (fun hk => nomatch hnone.symm.trans hk),
      hsp.trans hsp2 fun _ => id, hvv, hvt⟩
    simp [CAddrMan.clearNew, hid, hs, hn, hpos, hz, guard]
    exact hd
  refine ⟨s1, ?_, h1.settle fun hk => ?_, hsp, rfl, rfl⟩
  · simp [CAddrMan.clearNew, hid, hs, hn, hpos, hz, guard]
    rfl
  cases hk.symm.trans hn1
  exact hz

end Inv

end CAddrMan

end Taler
