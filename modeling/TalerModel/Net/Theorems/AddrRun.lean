import TalerModel.Net.Theorems.AddrSteps
import Mathlib.Algebra.Group.Fin.Basic

open OrderedMap

namespace Taler

namespace CAddrMan

variable [AddrOps] {s s' s'' : CAddrMan} {n : Int} {info : CAddrInfo}

-- An id that waits for a tried place: it is not given out again, and its place is taken.
structure Waits (s : CAddrMan) (n : Int) : Prop where
  bound : n < s.nIdCount
  taken {info : CAddrInfo} : s.mapInfo[n]? = some info → s.vvTried (info.triedSlot s.nKey) ≠ -1

structure Follows (s s' : CAddrMan) : Prop where
  service {n : Int} {info' : CAddrInfo} : s'.mapInfo[n]? = some info' → n < s.nIdCount →
    ∃ info, s.mapInfo[n]? = some info ∧ info'.toCService = info.toCService
  nIdCount : s.nIdCount ≤ s'.nIdCount
  vvTried {slot : TriedSlot} : s.vvTried slot ≠ -1 → s'.vvTried slot ≠ -1
  nKey : s'.nKey = s.nKey
  collisions {n : Int} : n ∈ s'.m_tried_collisions → n ∈ s.m_tried_collisions ∨ Waits s' n

structure Sound (s : CAddrMan) : Prop extends Inv s 0 (fun _ => False) where
  nKey : s.nKey ≠ 0
  waits {n : Int} : n ∈ s.m_tried_collisions → Waits s n

namespace Follows

lemma refl (s) : Follows s s :=
  ⟨fun hn _ => ⟨_, hn, rfl⟩, le_refl _, id, rfl, .inl⟩

lemma waits (h : Follows s s') (hw : Waits s n) : Waits s' n where
  bound := lt_of_lt_of_le hw.bound h.nIdCount
  taken := by
    intro info' hn
    have ⟨info, hn, he⟩ := h.service hn hw.bound
    rw [he, h.nKey]
    exact h.vvTried (hw.taken hn)

lemma trans (h : Follows s s') (h' : Follows s' s'') : Follows s s'' where
  service := by
    intro n info'' hn hb
    have ⟨info', hn, he'⟩ := h'.service hn (lt_of_lt_of_le hb h.nIdCount)
    have ⟨info, hn, he⟩ := h.service hn hb
    exact ⟨info, hn, he'.trans he⟩
  nIdCount := le_trans h.nIdCount h'.nIdCount
  vvTried := fun hs => h'.vvTried (h.vvTried hs)
  nKey := h'.nKey.trans h.nKey
  collisions := by
    intro n hn
    rcases h'.collisions hn with hn | hw
    · exact (h.collisions hn).imp_right h'.waits
    · exact .inr hw

lemma sound (h : Follows s s') (hs : Sound s) (hi : Inv s' 0 fun _ => False) : Sound s' where
  toInv := hi
  nKey := h.nKey ▸ hs.nKey
  waits := fun hn => (h.collisions hn).elim (fun hn => h.waits (hs.waits hn)) id

lemma erase (s n) : Follows s { s with m_tried_collisions := s.m_tried_collisions.erase n } :=
  { refl s with
    collisions := fun hk => .inl (Std.TreeSet.mem_erase.mp hk).2
    service := fun hn _ => ⟨_, hn, rfl⟩
    vvTried := id }

end Follows

lemma Spares.follows {touched : Int → Prop} (h : Spares s s' touched)
    (hv : ∀ slot, s.vvTried slot ≠ -1 → s'.vvTried slot ≠ -1) : Follows s s' where
  service := fun hn _ => h.service hn
  nIdCount := le_of_eq h.nIdCount.symm
  vvTried := hv _
  nKey := h.nKey
  collisions := fun hn => .inl (h.collisions ▸ hn)

lemma Reordered.follows (h : Reordered s s') : Follows s s' :=
  h.spares.follows fun _ hs => h.vvTried ▸ hs

def Keeps (s : CAddrMan) (o : Option CAddrMan) : Prop :=
  ∃ s', o = some s' ∧ Inv s' 0 (fun _ => False) ∧ Follows s s'

namespace Inv

variable (h : Inv s 0 fun _ => False)

include h

lemma keeps_self : Keeps s (some s) :=
  ⟨s, rfl, h, .refl s⟩

lemma modifyInfo_follows
    (ha : ∀ info, (f info).toCService = info.toCService ∧ (f info).nRandomPos = info.nRandomPos)
    (hr : ∀ info, (f info).nRefCount = info.nRefCount ∧ (f info).fInTried = info.fInTried)
    (ht : ∀ info, s.mapInfo[n]? = some info → 0 ≤ (f info).nLastTry ∧ 0 ≤ (f info).nLastSuccess ∧
      (info.fInTried → (f info).nLastSuccess ≠ 0)) :
    Inv (s.modifyInfo n f) 0 (fun _ => False) ∧ Follows s (s.modifyInfo n f) :=
  ⟨h.modifyInfo fun info hi => ⟨ha info, hr info, ht info hi⟩,
    (modifyInfo_spares rfl (fun info => (ha info).1) rfl rfl rfl).follows fun _ => id⟩

lemma inNew (hn : s.mapInfo[n]? = some info) (hf : info.fInTried = false)
    (nRnd) : s.inNew n info.toCService nRnd := by
  have hr := h.refCount hn
  have hz := h.settled hn hf id
  have ⟨slot, hs⟩ : ∃ slot, slot ∈ refs s.vvNew n := by
    refine Finset.nonempty_iff_ne_empty.mpr fun he => hz ?_
    rw [hr, he]
    rfl
  have hs := mem_refs.mp hs
  have hp := (h.vvNew_place hn hs).2
  refine List.any_eq_true.mpr ⟨slot.1 - nRnd, List.mem_finRange _, ?_⟩
  rw [sub_add_cancel, hp]
  exact decide_eq_true hs

lemma good (addr test_before_evict) (ht : 0 < nTime)
    (nRnd) : Keeps s (s.good addr test_before_evict nTime nRnd) := by
  obtain ⟨s1, hs1⟩ : ∃ s1, s1 = { s with nLastGood := nTime } := ⟨_, rfl⟩
  have h1 : Inv s1 0 fun _ => False := hs1 ▸ h.counter rfl
  have hf1 : Follows s s1 := hs1 ▸ ⟨fun hn _ => ⟨_, hn, rfl⟩, le_refl _, id, rfl, .inl⟩
  rw [CAddrMan.good, ← hs1]
  cases hfind : s1.find addr.toCNetAddr
  case none => exact ⟨s1, rfl, h1, hf1⟩
  rename_i found
  obtain ⟨nId, info⟩ := found
  obtain ⟨hn, _⟩ := h1.find hfind
  by_cases ha : info.toCService ≠ addr
  · exact ⟨s1, if_pos ha, h1, hf1⟩
  have ha := not_ne_iff.mp ha
  subst ha
  let f : CAddrInfo → CAddrInfo := fun info =>
    { info with nLastSuccess := nTime, nLastTry := nTime, nAttempts := 0 }
  obtain ⟨h2, hf2⟩ := h1.modifyInfo_follows (f := f) (fun _ => ⟨rfl, rfl⟩)
    (fun _ => ⟨rfl, rfl⟩) fun _ _ => ⟨le_of_lt ht, le_of_lt ht, fun _ => ne_of_gt ht⟩
  have hn2 : (s1.modifyInfo nId f).mapInfo[nId]? = some (f info) := modifyInfo_self hn
  change Keeps s (if info.toCService ≠ info.toCService then _ else _)
  rw [if_neg (not_ne_iff.mpr rfl)]
  generalize s1.modifyInfo nId f = s2 at *
  have hk2 : Keeps s (some s2) := ⟨s2, rfl, h2, hf1.trans hf2⟩
  by_cases hf : info.fInTried
  · rw [if_pos hf]
    exact hk2
  have hf : info.fInTried = false := by simpa using hf
  have hin := h2.inNew hn2 hf nRnd
  rw [hf, if_neg Bool.false_ne_true, hin, if_neg (by decide)]
  by_cases hev : test_before_evict ∧ s2.vvTried (info.triedSlot s2.nKey) ≠ -1
  · rw [if_pos hev]
    split
    · refine ⟨_, rfl, h2.counter rfl, hf1.trans (hf2.trans
        ⟨fun hn _ => ⟨_, hn, rfl⟩, le_refl _, id, rfl, fun {k} hk => ?_⟩)⟩
      rcases Std.TreeSet.mem_insert.mp hk with he | hk
      · cases Std.compare_eq_iff_eq.mp he
        refine .inr ⟨(h2.bound hn2).2, fun {info'} hk' => ?_⟩
        cases hn2.symm.trans hk'
        exact hev.2
      · exact .inl hk
    · exact hk2
  rw [if_neg hev]
  obtain ⟨s3, hm, h3, hsp, hv⟩ := h2.makeTried hn2 hf (ne_of_gt ht)
  exact ⟨s3, hm, h3, hf1.trans (hf2.trans (hsp.follows hv))⟩

omit [AddrOps] h in
lemma refresh_eq (info addr nTimePenalty nNow) :
    ∃ t b, refresh info addr nTimePenalty nNow = { info with nTime := t, nServices := b } := by
  have hin p [Decidable p] (x : Nat) :
      ∃ t, (if p then { info with nTime := x } else info) = { info with nTime := t } := by
    split
    · exact ⟨x, rfl⟩
    · exact ⟨info.nTime, rfl⟩
  have ⟨t, ht⟩ := hin (addr.nTime ≠ 0 ∧ (info.nTime = 0 ∨ (info.nTime : Int) < addr.nTime -
    (if decide (nNow - addr.nTime < 24 * 60 * 60) then 60 * 60 else 24 * 60 * 60) - nTimePenalty))
    (toUnsigned (max 0 (addr.nTime - nTimePenalty)))
  refine ⟨t, info.nServices ||| addr.nServices, ?_⟩
  exact congrArg (fun i : CAddrInfo => { i with nServices := i.nServices ||| addr.nServices }) ht

lemma add (addr source nTimePenalty nNow nRnd) :
    Keeps s (s.add addr source nTimePenalty nNow nRnd) := by
  rw [CAddrMan.add]
  by_cases hroute : (!isRoutable addr.toCNetAddr) = true
  · rw [if_pos hroute]
    exact h.keeps_self
  rw [if_neg hroute]
  generalize (if addr.toCNetAddr = source then 0 else nTimePenalty) = penalty
  cases hfind : s.find addr.toCNetAddr
  case some found =>
    obtain ⟨nId, info⟩ := found
    obtain ⟨hn, _⟩ := h.find hfind
    dsimp only
    obtain ⟨t, b, he⟩ := refresh_eq info addr penalty nNow
    rw [he]
    obtain ⟨s1, hs1⟩ : ∃ s1, s1 = s.modifyInfo nId fun _ =>
      { info with nTime := t, nServices := b } := ⟨_, rfl⟩
    have h1 : Inv s1 0 fun _ => False := by
      rw [hs1]
      refine h.modifyInfo fun info' hi => ?_
      cases hn.symm.trans hi
      exact ⟨⟨rfl, rfl⟩, ⟨rfl, rfl⟩, (h.times hn :)⟩
    have hn1 : s1.mapInfo[nId]? = some { info with nTime := t, nServices := b } :=
      hs1 ▸ modifyInfo_self hn
    have hf1 : Follows s s1 := by
      rw [hs1]
      refine ⟨fun {k info'} hk _ => ?_, le_refl _, id, rfl, .inl⟩
      rcases modifyInfo_some hk with ⟨rfl, info0, h0, rfl⟩ | ⟨-, hk⟩
      · exact ⟨info, hn, rfl⟩
      · exact ⟨_, hk, rfl⟩
    have hk1 : Keeps s (some s1) := ⟨s1, rfl, h1, hf1⟩
    rw [← hs1]
    split
    · exact hk1
    split
    · exact hk1
    case isFalse hf =>
    split
    · exact hk1
    case isFalse hmax =>
    split
    · exact hk1
    have hle := h.refLimit hn
    have hl : Inv s1 0 fun k => False ∨ k = nId := h1.loosen fun _ => False.elim
    obtain ⟨s2, he, h2, hsp, hv⟩ := hl.enterNew hn1 (by simpa using hf) (lt_of_le_of_ne hle hmax)
      source nNow
    exact ⟨s2, he, h2, hf1.trans (hsp.follows fun _ hs => hv ▸ hs)⟩
  case none =>
  have h1 : Inv (s.create addr source) (0 + 1) fun k => False ∨ k = s.nIdCount :=
    h.insertEntry (h.find_none hfind) rfl rfl rfl ⟨le_refl _, le_refl _⟩
  let f : CAddrInfo → CAddrInfo := fun info =>
    { info with nTime := toUnsigned (max 0 (info.nTime - penalty)) }
  have h2 : Inv ((s.create addr source).modifyInfo s.nIdCount f) (0 + 1)
      fun k => False ∨ k = s.nIdCount :=
    h1.modifyInfo fun info hi => ⟨⟨rfl, rfl⟩, ⟨rfl, rfl⟩, (h1.times hi :)⟩
  let info : CAddrInfo := { toCAddress := addr, source := source, nRandomPos := s.vRandom.length }
  have hn1 : (s.create addr source).mapInfo[s.nIdCount]? = some info :=
    getElem?_insert.trans (if_pos rfl)
  have hn2 : ((s.create addr source).modifyInfo s.nIdCount f).mapInfo[s.nIdCount]? =
      some (f info) := modifyInfo_self hn1
  let s3 := { (s.create addr source).modifyInfo s.nIdCount f with nNew := s.nNew + 1 }
  have h3 : Inv s3 0 fun k => False ∨ k = s.nIdCount := h2.counter (add_assoc s.nNew 1 0)
  have hf3 : Follows s s3 := by
    refine ⟨fun {k info'} hk hb => ?_, by change s.nIdCount ≤ s.nIdCount + 1; omega, id, rfl, .inl⟩
    have hk' := (modifyInfo_of_ne (ne_of_lt hb)).symm.trans hk
    exact ⟨info', (getElem?_insert.trans (if_neg (ne_of_lt hb))).symm.trans hk', rfl⟩
  dsimp only
  split
  case h_1 hne => cases hn2.symm.trans hne
  rename_i info' he
  cases hn2.symm.trans he
  have hz : (f info).nRefCount = 0 := rfl
  obtain ⟨s4, he, h4, hsp, hv⟩ := h3.enterNew hn2 rfl (by rw [hz]; decide) source nNow
  exact ⟨s4, he, h4, hf3.trans (hsp.follows fun _ hs => hv ▸ hs)⟩

lemma update (addr)
    (ha : ∀ info, (f info).toCService = info.toCService ∧ (f info).nRandomPos = info.nRandomPos)
    (hr : ∀ info, (f info).nRefCount = info.nRefCount ∧ (f info).fInTried = info.fInTried)
    (ht : ∀ info : CAddrInfo, 0 ≤ info.nLastTry → 0 ≤ (f info).nLastTry ∧
      (f info).nLastSuccess = info.nLastSuccess) :
    Keeps s (some (s.update addr f)) := by
  rw [CAddrMan.update]
  split
  case h_1 => exact h.keeps_self
  rename_i nId info hfind
  split
  · exact h.keeps_self
  have ⟨h', hf⟩ := h.modifyInfo_follows (n := nId) ha hr fun info hi => by
    have ⟨h1, h2, h3⟩ := h.times hi
    have ⟨h1', he⟩ := ht info h1
    exact ⟨h1', he ▸ h2, he ▸ h3⟩
  exact ⟨_, rfl, h', hf⟩

lemma getAddrFrom (nNow nRnd nNodes n k vAddr) (hk : n + k = s.vRandom.length) :
    ∃ r, s.getAddrFrom nNow nRnd nNodes n vAddr k = some r ∧ Inv r.2 0 (fun _ => False) ∧
      Reordered s r.2 := by
  induction k generalizing s n vAddr
  case zero => exact ⟨_, rfl, h, .refl s⟩
  case succ k hi =>
  rw [CAddrMan.getAddrFrom]
  split
  · exact ⟨_, rfl, h, .refl s⟩
  have hlen : nRnd n % (s.vRandom.length - n) < s.vRandom.length - n := Nat.mod_lt _ (by omega)
  have hp p (hp : p < s.vRandom.length) : s.randomAt p = some s.vRandom[p] := by
    rw [randomAt_natCast, List.getElem?_eq_getElem hp]
  have ⟨s1, hs, hl, hr, _⟩ := h.swapRandom (hp n (by omega))
    (hp (nRnd n % (s.vRandom.length - n) + n) (by omega))
  have h1 := hr.inv hl h
  have hn : n < s1.vRandom.length := by
    rw [hr.length]
    omega
  have ⟨info, hinfo⟩ := mem_iff.mp (h1.mem (List.getElem_mem hn))
  simp only [hs, Option.bind_eq_bind, Option.bind_some, List.getElem?_eq_getElem hn, hinfo]
  have ⟨r, he, h', hr'⟩ := hi h1 (n + 1)
    (if info.isTerrible nNow then vAddr else vAddr ++ [info.toCAddress]) (by rw [hr.length]; omega)
  exact ⟨r, he, h', hr.trans hr'⟩

lemma getAddr (nNow nRnd) : Keeps s ((s.getAddr nNow nRnd).map Prod.snd) := by
  have ⟨r, he, h', hr⟩ := h.getAddrFrom nNow nRnd
    (min (ADDRMAN_GETADDR_MAX_PCT * s.vRandom.length / 100) ADDRMAN_GETADDR_MAX) 0 s.vRandom.length []
    (Nat.zero_add _)
  rw [CAddrMan.getAddr, he]
  exact ⟨r.2, rfl, h', hr.follows⟩

omit [AddrOps] h in
lemma walk_ne [NeZero m] [NeZero k] {vv : Fin m × Fin k → Int} {slot slot' : Fin m × Fin k}
    {steps : List (Fin m × Fin k)} (hw : walk vv slot steps = some slot') : vv slot' ≠ -1 := by
  induction steps generalizing slot
  case nil =>
    rw [walk] at hw
    split at hw
    · nomatch hw
    case isFalse hv =>
    cases hw
    exact hv
  case cons step steps hi =>
  rw [walk] at hw
  split at hw
  · exact hi hw
  case isFalse hv =>
  cases hw
  exact hv

omit [AddrOps] h in
lemma pick [NeZero m] [NeZero k] {vv : Fin m × Fin k → Int}
    (hv : ∀ slot, vv slot ≠ -1 → ∃ info, s.mapInfo[vv slot]? = some info)
    (rounds) : ∃ r, s.pick vv rounds = some r := by
  induction rounds
  case nil => exact ⟨none, rfl⟩
  case cons round rounds hi =>
  rw [CAddrMan.pick]
  split
  case h_1 => exact ⟨none, rfl⟩
  rename_i slot hw
  have ⟨info, hn⟩ := hv slot (walk_ne hw)
  rw [hn, Option.bind_eq_bind, Option.bind_some]
  split
  · exact ⟨_, rfl⟩
  · exact hi

lemma select (newOnly draws) : Keeps s ((s.select newOnly draws).map fun _ => s) := by
  have ⟨r, hr⟩ : ∃ r, s.select newOnly draws = some r := by
    rw [CAddrMan.select]
    split
    · exact ⟨_, rfl⟩
    split
    · exact ⟨_, rfl⟩
    split
    · exact pick (fun slot hs => have ⟨info, hn, _⟩ := h.triedSlot hs; ⟨info, hn⟩) _
    · exact pick (fun slot hs => have ⟨info, hn, _⟩ := h.newSlot hs; ⟨info, hn⟩) _
  rw [hr]
  exact h.keeps_self

end Inv

namespace Sound

variable (h : Sound s)

include h

lemma selectTriedCollision (nRnd) : Keeps s (some (s.selectTriedCollision nRnd).2) := by
  rw [CAddrMan.selectTriedCollision]
  split
  case h_1 => exact h.keeps_self
  rename_i id_new hid
  have hm : id_new ∈ s.m_tried_collisions := by
    rw [← Std.TreeSet.mem_toList]
    exact List.mem_of_getElem? hid
  split
  case h_1 => exact ⟨_, rfl, h.toInv.counter rfl, .erase s id_new⟩
  rename_i newInfo hn
  have ⟨info, hi, _⟩ := h.triedSlot ((h.waits hm).taken hn)
  have ⟨h', hr⟩ := h.toInv.access hi
  exact ⟨_, rfl, h', hr.follows⟩

lemma resolveCollision (id_new) (ht : ∀ k, 0 < nNow k) (nRnd) :
    ∃ s' b, s.resolveCollision id_new nNow nRnd = some (s', b) ∧ Inv s' 0 (fun _ => False) ∧
      Follows s s' := by
  have hself (b : Bool) : ∃ s' b', some (s, b) = some (s', b') ∧ Inv s' 0 (fun _ => False) ∧
      Follows s s' := ⟨s, b, rfl, h.toInv, .refl s⟩
  have hgood {t : CAddrMan} (h' : Inv t 0 fun _ => False) (hf : Follows s t) (addr : CService) :
      ∃ s' b, (t.good addr false (nNow 3) nRnd).map (·, true) = some (s', b) ∧
        Inv s' 0 (fun _ => False) ∧ Follows s s' := by
    have ⟨s', he, h'', hf'⟩ := h'.good addr false (ht 3) nRnd
    rw [he]
    exact ⟨s', true, rfl, h'', hf.trans hf'⟩
  rw [CAddrMan.resolveCollision]
  split
  case h_1 => exact hself true
  case h_2 info_new hn =>
  split
  · exact hself true
  dsimp only
  split
  case isTrue hs =>
    have ⟨info, hi, _⟩ := h.triedSlot hs
    have ⟨h1, hr⟩ := h.toInv.access hi
    split
    · exact ⟨_, _, rfl, h1, hr.follows⟩
    split
    · split
      · exact hgood h1 hr.follows _
      · exact ⟨_, _, rfl, h1, hr.follows⟩
    case isFalse => exact ⟨_, _, rfl, h1, hr.follows⟩
  · exact hgood h.toInv (.refl s) _

lemma resolveCollisions (ht : ∀ n k, 0 < nNow n k) (nRnd) :
    Keeps s (s.resolveCollisions nNow nRnd) := by
  rw [CAddrMan.resolveCollisions]
  generalize s.m_tried_collisions.toList = ids
  induction ids generalizing s
  case nil => exact h.keeps_self
  case cons id_new ids hi =>
  have ⟨s1, b, he, h1, hf1⟩ := h.resolveCollision id_new (ht id_new) (nRnd id_new)
  have hs1 := hf1.sound h h1
  have ⟨s2, hs2, h2, hf2⟩ : ∃ s2, (if b then
      { s1 with m_tried_collisions := s1.m_tried_collisions.erase id_new } else s1) = s2 ∧
        Inv s2 0 (fun _ => False) ∧ Follows s1 s2 := by
    cases b
    case true => exact ⟨_, if_pos rfl, h1.counter rfl, .erase s1 id_new⟩
    case false => exact ⟨s1, rfl, h1, .refl s1⟩
  have ⟨s3, he3, h3, hf3⟩ := hi (hf2.sound hs1 h2)
  refine ⟨s3, ?_, h3, hf1.trans (hf2.trans hf3)⟩
  rw [List.foldlM_cons, he]
  change (some (if b then _ else s1)).bind _ = _
  rw [hs2, Option.bind_some]
  exact he3

end Sound

end CAddrMan

end Taler
