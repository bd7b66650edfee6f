import TalerModel.Chain.Theorems.Index

namespace Taler.ChainState

open Option List Activation

variable {β : Type} [DecidableEq β] {proof : β → Nat} {verdict : List β → List β → Verdict}
variable {genesis : β} {s s1 s2 : ChainState proof} {g p q t : List β}

-- Connecting a block does not depend on where the node is heading, and never meets a system error.
structure Fixed (verdict : List β → List β → Verdict) : Prop where
  same : ∀ mostWork p, verdict mostWork p = verdict p p
  returns : ∀ p, verdict p p ≠ .abort

def Clean (s : ChainState proof) (p : List β) : Prop :=
  ∀ q, q <:+ p → q ≠ [] → s.failed q = false ∧ (s.entry q).nChainTx ≠ 0

structure Best (s : ChainState proof) (p : List β) : Prop where
  mem : p ∈ s.candidates
  max : ∀ c ∈ s.candidates, nChainWork proof c ≤ nChainWork proof p
  clean : s.Clean p

structure Active (verdict : List β → List β → Verdict) (genesis : β) (s : ChainState proof) :
    Prop where
  wf : WellFormed genesis s
  tip : s.tip ≠ []
  good : s.good verdict s.tip

omit [DecidableEq β] in
lemma good_iff_clean : s.good verdict p ↔ s.Clean p ∧ connectable verdict p :=
  good_iff

lemma contains_iff : s.contains p ↔ p ≠ [] ∧ p <:+ s.tip := by
  simp [contains]

omit [DecidableEq β] in
lemma Active.tip_mem (h : Active verdict genesis s) : s.tip ∈ s.blocks :=
  h.wf.mem_of_complete <| (good_iff.mp h.good).1 s.tip suffix_rfl h.tip |>.right

section

lemma firstUnusable_none (h : s.firstUnusable p = some none) (hq : q <:+ p) (hn : q ≠ []) :
    s.contains q ∨ s.failed q = false := by
  induction p
  case nil => exact absurd (suffix_nil.mp hq) hn
  case cons b p hi =>
  simp only [firstUnusable] at h
  split at h
  case isTrue hc =>
    have ⟨_, hc⟩ := contains_iff.mp hc
    exact .inl <| contains_iff.mpr ⟨hn, hq.trans hc⟩
  split at h <;> try split at h
  case isTrue | isFalse.isTrue => simp at h
  case isFalse.isFalse hf =>
  cases suffix_cons_iff.mp hq
  case inl he =>
    simp only [Bool.or_eq_true, not_or] at hf
    exact .inr <| by simpa [he] using hf.1
  case inr hq => exact hi h hq

lemma firstUnusable_some (h : s.firstUnusable p = some (some t)) :
    t <:+ p ∧ t ≠ [] ∧ (s.failed t ∨ (s.entry t).haveData = false) := by
  induction p
  case nil => simp [firstUnusable] at h
  case cons b p hi =>
  simp only [firstUnusable] at h
  split at h
  · simp at h
  split at h <;> try split at h
  case isTrue => simp at h
  case isFalse.isTrue hf =>
    cases h
    exact ⟨suffix_rfl, by simp, by simpa using hf⟩
  case isFalse.isFalse =>
  have ⟨ht, hn, hf⟩ := hi h
  exact ⟨ht.trans (suffix_cons b p), hn, hf⟩

lemma firstUnusable_failed (hw : Tree genesis s) (hp : (s.entry p).nChainTx ≠ 0)
    (h : s.firstUnusable p = some (some t)) : t <:+ p ∧ t ≠ [] ∧ s.failed t := by
  have ⟨ht, hn, hf⟩ := firstUnusable_some h
  refine ⟨ht, hn, hf.resolve_right fun hd => ?_⟩
  have hd' := hw.complete t (hw.complete_suffix hp ht hn) |>.left
  simp [hd] at hd'

omit [DecidableEq β] in
lemma good_of_failed (hf : s.failed t) (ht : t <:+ p) (hn : t ≠ []) :
    s.good verdict p = false := by
  by_contra h
  have hg := (good_iff.mp (Bool.not_eq_false _ ▸ h)).1 t ht hn |>.left
  simp [hf] at hg

omit [DecidableEq β] in
lemma live_of_failed (hf : s.failed t) : s.live verdict t = false := by
  simp [live, hf]

lemma removeChain_preserves (verdict) (hf : s.failed t) (hn : t ≠ []) (ht : t <:+ p) :
    Demotes verdict s (s.removeChain verdict t p) ∧ (s.removeChain verdict t p).tip = s.tip ∧
    ((s.removeChain verdict t p).lost = false → ∀ g, GuardedBy verdict s g →
      GuardedBy verdict (s.removeChain verdict t p) g) := by
  induction p generalizing s
  case nil => exact absurd (suffix_nil.mp ht) hn
  case cons b p hi =>
  simp only [removeChain, hf, if_true]
  split
  case isTrue he =>
    refine ⟨.eraseCandidate s t, rfl, fun hl g hg => ?_⟩
    exact hg.eraseCandidate (live_of_failed hf) hl
  rename_i he
  -- The entry is marked, so it is no longer worth keeping when it is erased.
  let e := { s.entry (b :: p) with failedChild := true }
  let s1 := s.setEntry (b :: p) e
  let s2 := s1.eraseCandidate verdict (b :: p)
  have hm : s1.failed (b :: p) := by simp [s1, e, failed, IndexEntry.failed]
  have hf2 : s2.failed t := by
    simpa [s2, s1, eraseCandidate, failed, setEntry_entry_ne s e (Ne.symm he)] using hf
  have ht' := suffix_cons_iff.mp ht |>.resolve_left (Ne.symm he)
  obtain ⟨hr, hs, hg⟩ := hi hf2 ht'
  have hb : s.good verdict (b :: p) = false := good_of_failed hf ht hn
  refine ⟨(Demotes.failedChild hb).trans <| (Demotes.eraseCandidate s1 _).trans hr, hs, ?_⟩
  intro hl g h
  refine hg hl g <| GuardedBy.eraseCandidate ?_ (live_of_failed hm) (hr.lost hl)
  exact h.mark hb (by simp [e, IndexEntry.failed])

lemma findMostWorkChain_go_spec (hw : WellFormed genesis s1)
    (h : findMostWorkChain.go verdict fuel s1 = some (p, s2)) :
    Demotes verdict s1 s2 ∧ s2.tip = s1.tip ∧
    (s2.lost = false → ∀ g, GuardedBy verdict s1 g → GuardedBy verdict s2 g) ∧
    (s2.candidates.max? = none ∨ s2.candidates.max? = some p ∧ s2.firstUnusable p = some none) := by
  induction fuel generalizing s1
  case zero => simp [findMostWorkChain.go] at h
  case succ fuel hi =>
  simp only [findMostWorkChain.go] at h
  split at h
  case h_1 hm =>
    cases h
    exact ⟨.refl _, rfl, fun _ _ => id, .inl hm⟩
  rename_i pindexNew hm
  split at h
  case h_1 => simp at h
  case h_2 hu =>
    cases h
    exact ⟨.refl _, rfl, fun _ _ => id, .inr ⟨hm, hu⟩⟩
  rename_i t ht
  have hc := hw.candidates _ (KeyedSet.max?_mem hm)
  have ⟨ht, hn, hf⟩ := firstUnusable_failed hw.toTree hc ht
  have ⟨hr, hs, hg⟩ := removeChain_preserves verdict hf hn ht
  have ⟨hr', hs', hg', hm'⟩ := hi (hr.wellFormed hw) h
  exact ⟨hr.trans hr', hs'.trans hs, fun hl g h => hg' hl g (hg (hr'.lost hl) g h), hm'⟩

omit [DecidableEq β] in
lemma Active.demotes (h : Active verdict genesis s1) (hd : Demotes verdict s1 s2)
    (ht : s2.tip = s1.tip) : Active verdict genesis s2 where
  wf := hd.wellFormed h.wf
  tip := ht ▸ h.tip
  good := ht ▸ hd.good _ h.good

lemma findMostWorkChain_spec (ha : Active verdict genesis s1) (hg : GuardedBy verdict s1 g)
    (h : s1.findMostWorkChain verdict = some (p, s2)) (hl : s2.lost = false) :
    Demotes verdict s1 s2 ∧ s2.tip = s1.tip ∧ Active verdict genesis s2 ∧ GuardedBy verdict s2 g ∧
    Best s2 p := by
  have ⟨hd, ht, hg', hm⟩ := findMostWorkChain_go_spec ha.wf h
  replace hg := hg' hl g hg
  have ha' := ha.demotes hd ht
  refine ⟨hd, ht, ha', hg, ?_⟩
  cases hm
  case inl hm => exact absurd hg.mem (KeyedSet.max?_eq_none hm)
  rename_i hm
  have hp := KeyedSet.max?_mem hm.1
  refine ⟨hp, fun c hc => KeyedSet.key_le_max? hm.1 hc, fun q hq hn => ⟨?_, ?_⟩⟩
  · cases firstUnusable_none hm.2 hq hn
    case inl hc => exact (good_iff.mp ha'.good).1 q (contains_iff.mp hc).2 hn |>.left
    case inr hf => exact hf
  · exact ha'.wf.complete_suffix (ha'.wf.candidates p hp) hq hn

end

section

omit [DecidableEq β] in
lemma not_cons_suffix (b) (p : List β) : ¬b :: p <:+ p :=
  fun h => Nat.not_succ_le_self _ h.length_le

lemma disconnectWhile_to (hf : f <:+ t) (hn : f ≠ []) : disconnectWhile (· ≠ f) t = (f, true) := by
  induction t
  case nil => exact absurd (suffix_nil.mp hf) hn
  case cons b t hi =>
  cases t
  case nil =>
    cases suffix_cons_iff.mp hf
    case inl he => simp [disconnectWhile, he]
    case inr he => exact absurd (suffix_nil.mp he) hn
  case cons c t =>
  simp only [disconnectWhile]
  cases suffix_cons_iff.mp hf
  case inl he => simp [he]
  case inr he =>
  have hne : b :: c :: t ≠ f := fun h => not_cons_suffix b _ (h ▸ he)
  simpa [hne] using hi he

lemma findFork_spec (hp : [genesis] <:+ p) (ht : [genesis] <:+ s.tip) :
    s.findFork p <:+ p ∧ s.findFork p <:+ s.tip ∧ s.findFork p ≠ [] := by
  induction p
  case nil => exact absurd (suffix_nil.mp hp) (by simp)
  case cons b p hi =>
  simp only [findFork]
  split
  case isTrue hc =>
    have ⟨hn, hc⟩ := contains_iff.mp hc
    exact ⟨suffix_rfl, hc, hn⟩
  rename_i hc
  cases suffix_cons_iff.mp hp
  case inl he => exact absurd (contains_iff.mpr ⟨by simp, he ▸ ht⟩) hc
  case inr hp =>
  have ⟨h1, h2, h3⟩ := hi hp
  exact ⟨h1.trans <| suffix_cons b p, h2, h3⟩

@[simp]
lemma pathTo_self (p : List β) : pathTo p p = [] := by
  cases p <;> simp [pathTo]

lemma pathTo_eq_cons (hf : f <:+ p) (hn : f ≠ p) :
    ∃ x, x ≠ [] ∧ x.tail = f ∧ x <:+ p ∧ pathTo f p = x :: pathTo x p := by
  induction p
  case nil => exact absurd (suffix_nil.mp hf) hn
  case cons b p hi =>
  have hf := suffix_cons_iff.mp hf |>.resolve_left hn
  simp only [pathTo, if_neg (Ne.symm hn)]
  by_cases he : f = p
  · exact ⟨b :: p, by simp, by simp [he], suffix_rfl, by simp [he]⟩
  have ⟨x, hx, hx', hs, hp⟩ := hi hf he
  have hne : b :: p ≠ x := fun h => not_cons_suffix b p (h ▸ hs)
  exact ⟨x, hx, hx', hs.trans <| suffix_cons b p, by simp [hp, if_neg hne]⟩

lemma raiseValidity_failed (e : IndexEntry) (n) : (e.raiseValidity n).failed = e.failed := by
  simp only [IndexEntry.raiseValidity]
  split <;> simp [IndexEntry.failed]

lemma connectTip_failed (s : ChainState proof) (p q) : (s.connectTip p).failed q = s.failed q := by
  by_cases hq : q = p
  · simp [connectTip, failed, hq, raiseValidity_failed]
  · simp [connectTip, failed, setEntry_entry_ne s _ hq]

lemma connectTip_reflagged (s : ChainState proof) (p) : Reflagged s (s.connectTip p) := by
  let e := (s.entry p).raiseValidity BLOCK_VALID_SCRIPTS
  have he : e.nTx = (s.entry p).nTx ∧ e.nChainTx = (s.entry p).nChainTx ∧
      e.haveData = (s.entry p).haveData ∧ (s.entry p).validity ≤ e.validity ∧
      e.failedValid = (s.entry p).failedValid := by
    simp only [e, IndexEntry.raiseValidity]
    split <;> simp
  have ⟨h1, h2, h3, h4, h5⟩ := he
  exact (Reflagged.setEntry h1 h2 h3 h4 (h5 ▸ id)).trans (.setTip _ p)

lemma connectTip_demotes (s : ChainState proof) (p) : Demotes verdict s (s.connectTip p) := by
  have hr := connectTip_reflagged s p
  refine ⟨hr, fun q hq => ?_⟩
  rwa [good_congr (fun r _ _ => connectTip_failed s p r) (fun r _ _ => hr.nChainTx r)]

structure Heading (verdict : List β → List β → Verdict) (genesis : β) (s : ChainState proof)
    (mostWork : List β) : Prop extends Active verdict genesis s where
  onPath : s.tip <:+ mostWork
  best : Best s mostWork

-- A guard of the later state that is at least as good as the guard of the earlier one.
def Advanced (verdict : List β → List β → Verdict) (s : ChainState proof) (g : List β) : Prop :=
  ∃ g', GuardedBy verdict s g' ∧ (g' = g ∨ nChainWork proof g < nChainWork proof g')

omit [DecidableEq β] in
lemma Advanced.trans (hw : g' = g ∨ nChainWork proof g < nChainWork proof g')
    (h : Advanced verdict s g') : Advanced verdict s g := by
  have ⟨g'', hg, hw'⟩ := h
  refine ⟨g'', hg, ?_⟩
  cases hw
  case inl he => exact he ▸ hw'
  rename_i hw
  cases hw'
  case inl he => exact .inr (he ▸ hw)
  case inr hw' => exact .inr (hw.trans hw')

omit [DecidableEq β] in
lemma Best.demotes (h : Best s1 p) (hd : Demotes verdict s1 s2) (hp : p ∈ s2.candidates)
    (hf : ∀ q, q <:+ p → s2.failed q = s1.failed q) : Best s2 p where
  mem := hp
  max c hc := h.max c (hd.candidates c hc)
  clean q hq hn := by
    have ⟨h1, h2⟩ := h.clean q hq hn
    exact ⟨(hf q hq).trans h1, hd.nChainTx q ▸ h2⟩

lemma Heading.connect (h : Heading verdict genesis s1 m) (hg : GuardedBy verdict s1 g)
    (hx : x <:+ m) (hn : x ≠ []) (ht : x.tail = s1.tip) (hv : verdict x x = .accept)
    (hp : (s1.connectTip x).pruneBlockIndexCandidates = some s2) :
    Heading verdict genesis s2 m ∧ s2.tip = x ∧ Demotes verdict s1 s2 ∧ Advanced verdict s2 g := by
  have hs := pruneBlockIndexCandidates_eq hp
  have hd1 : Demotes verdict s1 (s1.connectTip x) := connectTip_demotes s1 x
  have hd := hd1.trans (.prune hp)
  have hf q : s2.failed q = s1.failed q := by
    rw [hs]
    exact connectTip_failed s1 x q
  have htip : s2.tip = x := by rw [hs]; rfl
  have hgood : s1.good verdict x := by
    refine good_iff_clean.mpr ⟨fun q hq => h.best.clean q (hq.trans hx), ?_⟩
    have hc := (good_iff_clean.mp h.good).2
    refine connectable_iff.mpr fun q hq hq' => ?_
    have ⟨b, r, hr⟩ := exists_cons_of_ne_nil hn
    subst hr
    cases suffix_cons_iff.mp hq
    case inl he => exact he ▸ hv
    case inr hq => exact connectable_iff.mp hc q (ht ▸ hq) hq'
  have hm := h.wf.mem_of_candidate h.best.mem
  have hmem : m ∈ s2.candidates := by
    rw [hs]
    exact KeyedSet.mem_pruneBelow.mpr ⟨h.best.mem, h.wf.work_le hm hx⟩
  refine ⟨⟨⟨hd.wellFormed h.wf, htip ▸ hn, htip ▸ hd.good x hgood⟩, htip ▸ hx, ?_⟩, htip, hd, ?_⟩
  · exact h.best.demotes hd hmem fun q _ => hf q
  have hg1 : ∀ g, GuardedBy verdict s1 g → GuardedBy verdict (s1.connectTip x) g := fun g hg =>
    hg.of_le rfl hd1.good fun q hq => by
      rwa [live_congr (connectTip_failed s1 x q) (hd1.nChainTx q)] at hq
  by_cases hw : nChainWork proof x ≤ nChainWork proof g
  · exact ⟨g, (hg1 g hg).prune hw hp, .inl rfl⟩
  have ⟨g', hg', hw'⟩ := hg.advance hgood (Nat.lt_of_not_le hw)
  refine ⟨g', (hg1 g' hg').prune (Nat.le_of_eq hw'.symm) hp, .inr ?_⟩
  omega

lemma Active.reject (h : Active verdict genesis s) (hg : GuardedBy verdict s g)
    (hx : x ∈ s.blocks) (hn : x.tail ≠ []) (hv : verdict x x ≠ .accept)
    (hl : (s.invalidBlockFound verdict x).lost = false) :
    Active verdict genesis (s.invalidBlockFound verdict x) ∧
    Demotes verdict s (s.invalidBlockFound verdict x) ∧
    GuardedBy verdict (s.invalidBlockFound verdict x) g := by
  have hc : ¬connectable verdict x := fun hc => hv <| connectable_iff.mp hc x suffix_rfl hn
  have hb : s.good verdict x = false := by
    by_contra h
    exact hc (good_iff.mp (by simpa using h)).2
  let e := { s.entry x with failedValid := true }
  let s1 := { s.setEntry x e with failedBlocks := (s.setEntry x e).failedBlocks.insert x }
  have hd1 : Demotes verdict s s1 := by
    have hd := Demotes.failedValid hb
    refine ⟨{ hd with failedBlocks := fun h f hf => ?_ }, hd.good⟩
    cases mem_insert_iff.mp hf
    case inl he => exact ⟨he ▸ hx, by simp [he, s1, e]⟩
    case inr hf => exact hd.failedBlocks h f hf
  have hd := hd1.trans (.eraseCandidate s1 x)
  refine ⟨h.demotes hd rfl, hd, GuardedBy.eraseCandidate ?_ ?_ hl⟩
  · exact (hg.mark hb (e := e) (by simp [e, IndexEntry.failed])).of_le rfl (fun _ => id) (fun _ => id)
  · exact live_of_failed (by simp [failed, IndexEntry.failed])

-- A step without a system error gets closer to its goal or finds an invalid block on the way.
structure Stepped (verdict : List β → List β → Verdict) (genesis : β) (s1 s2 : ChainState proof)
    (g mostWork : List β) (r : StepResult) : Prop extends Active verdict genesis s2 where
  returns : r ≠ .systemError
  demotes : Demotes verdict s1 s2
  advanced : Advanced verdict s2 g
  heading : r = .done → Best s2 mostWork

lemma connectPath_spec (hv : Fixed verdict) (h : Heading verdict genesis s1 m)
    (hg : GuardedBy verdict s1 g) (hp : path = pathTo s1.tip m)
    (hr : connectPath verdict oldTip m path s1 = some (r, s2)) (hl : s2.lost = false) :
    Stepped verdict genesis s1 s2 g m r := by
  induction path generalizing s1 g
  case nil =>
    cases hr
    exact ⟨h.toActive, by simp, .refl _, ⟨g, hg, .inl rfl⟩, fun _ => h.best⟩
  case cons x path hi =>
  have hne : s1.tip ≠ m := by
    intro he
    simp [he] at hp
  have ⟨x', hn, ht, hx, hp'⟩ := pathTo_eq_cons h.onPath hne
  have ⟨hxx, hpp⟩ := cons.inj (hp'.symm.trans hp.symm)
  subst hxx
  simp only [connectPath, ht, ne_eq, not_true_eq_false, if_false] at hr
  split at hr
  case h_1 ha => exact absurd (hv.same m x' ▸ ha) (hv.returns x')
  case h_2 hi' =>
    have ⟨he, he'⟩ := Prod.mk.inj <| some.inj hr
    subst he he'
    have hv' : verdict x' x' ≠ .accept := by simp [← hv.same m x', hi']
    have hb := h.wf.suffix_mem (h.wf.mem_of_candidate h.best.mem) hx hn
    have ⟨ha, hd, hg'⟩ := h.toActive.reject hg hb (ht ▸ h.tip) hv' hl
    exact ⟨ha, by simp, hd, ⟨g, hg', .inl rfl⟩, by simp⟩
  case h_3 hacc =>
  have hacc : verdict x' x' = .accept := hv.same m x' ▸ hacc
  split at hr
  case h_1 => simp at hr
  rename_i s hs
  have ⟨hh, htip, hd, g', hg', hw⟩ := h.connect hg hx hn ht hacc hs
  split at hr
  · have ⟨he, he'⟩ := Prod.mk.inj <| some.inj hr
    subst he he'
    exact ⟨hh.toActive, by simp, hd, ⟨g', hg', hw⟩, fun _ => hh.best⟩
  have hs := hi hh hg' (by rw [htip, hpp]) hr
  exact ⟨hs.toActive, hs.returns, hd.trans hs.demotes, hs.advanced.trans hw, hs.heading⟩

lemma activateBestChainStep_spec (hv : Fixed verdict) (h : Active verdict genesis s1)
    (hg : GuardedBy verdict s1 g) (hb : Best s1 m)
    (hr : s1.activateBestChainStep verdict m = some (r, s2)) (hl : s2.lost = false) :
    Stepped verdict genesis s1 s2 g m r := by
  have hm := h.wf.rooted m <| h.wf.mem_of_candidate hb.mem
  have ⟨hf, hf', hn⟩ := findFork_spec hm (h.wf.rooted _ h.tip_mem)
  simp only [activateBestChainStep, disconnectWhile_to hf' hn, Bool.not_true, Bool.false_eq_true,
    if_false] at hr
  let s : ChainState proof := { s1 with tip := s1.findFork m }
  have hd : Demotes verdict s1 s := .setTip s1 _
  have ha : Active verdict genesis s := ⟨hd.wellFormed h.wf, hn, good_suffix h.good hf'⟩
  have hh : Heading verdict genesis s m := ⟨ha, hf, ⟨hb.mem, hb.max, hb.clean⟩⟩
  have hg : GuardedBy verdict s g := hg.of_le rfl (fun _ => id) (fun _ => id)
  have hs := connectPath_spec hv hh hg rfl hr hl
  exact ⟨hs.toActive, hs.returns, hd.trans hs.demotes, hs.advanced, hs.heading⟩

end

section

-- A lost candidate is remembered, so it is enough to know at the end that nothing was lost.
lemma removeChain_lost (h : (s.removeChain verdict t p).lost = false) : s.lost = false := by
  induction p generalizing s
  case nil => exact h
  case cons b p hi =>
  simp only [removeChain] at h
  split at h
  · exact eraseCandidate_lost h
  have h := eraseCandidate_lost <| hi h
  split at h <;> exact h

lemma findMostWorkChain_lost (h : s1.findMostWorkChain verdict = some (p, s2))
    (hl : s2.lost = false) : s1.lost = false := by
  simp only [findMostWorkChain] at h
  generalize s1.candidates.size + 1 = fuel at h
  induction fuel generalizing s1
  case zero => simp [findMostWorkChain.go] at h
  case succ fuel hi =>
  simp only [findMostWorkChain.go] at h
  split at h
  · exact (Prod.mk.inj <| some.inj h).2 ▸ hl
  split at h
  case h_1 => simp at h
  case h_2 => exact (Prod.mk.inj <| some.inj h).2 ▸ hl
  case h_3 => exact removeChain_lost <| hi h

lemma connectPath_lost (h : connectPath verdict oldTip m path s1 = some (r, s2))
    (hl : s2.lost = false) : s1.lost = false := by
  induction path generalizing s1
  case nil => exact (Prod.mk.inj <| some.inj h).2 ▸ hl
  case cons x path hi =>
  simp only [connectPath] at h
  split at h
  · simp at h
  split at h
  · exact (Prod.mk.inj <| some.inj h).2 ▸ hl
  · rw [← (Prod.mk.inj <| some.inj h).2] at hl
    simp only [invalidBlockFound, eraseCandidate, setEntry, Bool.or_eq_false_iff] at hl
    exact hl.1
  split at h
  case h_1 => simp at h
  case h_2 s hs =>
  have hs := pruneBlockIndexCandidates_eq hs
  suffices s.lost = false by simpa [hs, connectTip, setEntry] using this
  split at h
  · exact (Prod.mk.inj <| some.inj h).2 ▸ hl
  · exact hi h

lemma activateBestChainStep_lost (h : s1.activateBestChainStep verdict m = some (r, s2))
    (hl : s2.lost = false) : s1.lost = false := by
  simp only [activateBestChainStep] at h
  split at h
  · rw [← (Prod.mk.inj <| some.inj h).2] at hl
    exact hl
  have hs := connectPath_lost h hl
  exact hs

lemma ensureMostWork_lost (h : ensureMostWork verdict a1 = some a2) (hl : a2.chain.lost = false) :
    a1.chain.lost = false := by
  simp only [ensureMostWork] at h
  split at h
  · exact some.inj h ▸ hl
  have ⟨⟨p, s⟩, hf, he⟩ := map_eq_some_iff.mp h
  exact findMostWorkChain_lost hf (by simpa [← he] using hl)

@[simp]
def Progress.chain : Progress proof → ChainState proof
  | .proceed a => a.chain
  | .failure s => s

lemma activateInner_cases (h : activateInner verdict startingTip (fuel + 1) a1 = some r) :
    ∃ a, ensureMostWork verdict a1 = some a ∧
      ((a.pindexMostWork = [] ∨ a.pindexMostWork = a.chain.tip) ∧ r = .proceed a ∨
        ∃ result s, a.chain.activateBestChainStep verdict a.pindexMostWork = some (result, s) ∧
          (result = .systemError ∧ r = .failure s ∨
            activateInner verdict startingTip fuel (a.afterStep result s) = some r ∨
            r = .proceed (a.afterStep result s))) := by
  simp only [activateInner] at h
  split at h
  case h_1 => simp at h
  rename_i a ha
  refine ⟨a, ha, ?_⟩
  split at h
  case isTrue hc => exact .inl ⟨by simpa using hc, (some.inj h).symm⟩
  split at h
  case h_1 => simp at h
  case h_2 s hs => exact .inr ⟨_, s, hs, .inl ⟨rfl, (some.inj h).symm⟩⟩
  rename_i result s _ hs
  refine .inr ⟨result, s, hs, .inr ?_⟩
  split at h
  · exact .inl h
  · exact .inr (some.inj h).symm

lemma activateInner_lost (h : activateInner verdict startingTip fuel a = some r)
    (hl : r.chain.lost = false) : a.chain.lost = false := by
  induction fuel generalizing a
  case zero => simp [activateInner] at h
  case succ fuel hi =>
  have ⟨a', ha, h⟩ := activateInner_cases h
  refine ensureMostWork_lost ha ?_
  cases h
  case inl h => simpa [h.2] using hl
  rename_i h
  have ⟨result, s, hs, h⟩ := h
  refine activateBestChainStep_lost hs ?_
  rcases h with ⟨_, h⟩ | h | h
  · simpa [h] using hl
  · exact hi h
  · simpa [h, afterStep] using hl

end

section

structure Activation.Sound (verdict : List β → List β → Verdict) (genesis : β)
    (a : Activation proof) : Prop extends Active verdict genesis a.chain where
  best : a.pindexMostWork ≠ [] → Best a.chain a.pindexMostWork
  newTip : a.blocksConnected → a.pindexNewTip = a.chain.tip

lemma ensureMostWork_spec (h : a1.Sound verdict genesis) (hg : GuardedBy verdict a1.chain g)
    (hr : ensureMostWork verdict a1 = some a2) (hl : a2.chain.lost = false) :
    a2.Sound verdict genesis ∧ GuardedBy verdict a2.chain g ∧ a2.pindexMostWork ≠ [] ∧
    Demotes verdict a1.chain a2.chain ∧ a2.chain.tip = a1.chain.tip ∧
    a2.blocksConnected = a1.blocksConnected := by
  simp only [ensureMostWork] at hr
  split at hr
  case isTrue hm =>
    cases hr
    exact ⟨h, hg, hm, .refl _, rfl, rfl⟩
  have ⟨⟨p, s⟩, hf, he⟩ := map_eq_some_iff.mp hr
  subst he
  have ⟨hd, ht, ha, hg', hb⟩ := findMostWorkChain_spec h.toActive hg hf hl
  have hn := ha.wf.ne_nil <| ha.wf.mem_of_candidate hb.mem
  exact ⟨⟨ha, fun _ => hb, fun hc => ht ▸ h.newTip hc⟩, hg', hn, hd, ht, rfl⟩

-- When the inner loop ends without having connected a block, the tip is the best candidate already.
structure Activation.Ended (verdict : List β → List β → Verdict) (genesis : β)
    (a1 a2 : Activation proof) (g : List β) : Prop extends Sound verdict genesis a2 where
  demotes : Demotes verdict a1.chain a2.chain
  advanced : Advanced verdict a2.chain g
  atTip : a2.blocksConnected = false → a2.pindexMostWork = a2.chain.tip

variable {a : Activation proof}

omit [DecidableEq β] in
lemma Stepped.sound (hs : Stepped verdict genesis a.chain s g a.pindexMostWork r) :
    (a.afterStep r s).Sound verdict genesis where
  toActive := hs.toActive
  newTip _ := rfl
  best hn := by
    cases r
    case done => exact hs.heading rfl
    case invalidFound => simp [afterStep] at hn
    case systemError => exact absurd rfl hs.returns

lemma activateInner_spec (hv : Fixed verdict) (h : a1.Sound verdict genesis)
    (hg : GuardedBy verdict a1.chain g) (hr : activateInner verdict startingTip fuel a1 = some r)
    (hl : r.chain.lost = false) :
    ∃ a2, r = .proceed a2 ∧ Ended verdict genesis a1 a2 g := by
  induction fuel generalizing a1 g
  case zero => simp [activateInner] at hr
  case succ fuel hi =>
  have ⟨a, ha, hc⟩ := activateInner_cases hr
  cases hc
  case inl hc =>
    have ⟨hm, he⟩ := hc
    subst he
    have ⟨hs, hg', hn, hd, _, _⟩ := ensureMostWork_spec h hg ha hl
    exact ⟨a, rfl, hs, hd, ⟨g, hg', .inl rfl⟩, fun _ => hm.resolve_left hn⟩
  rename_i hc
  have ⟨result, s, hs, hc⟩ := hc
  have hls : s.lost = false := by
    rcases hc with ⟨_, hc⟩ | hc | hc
    · simpa [hc] using hl
    · exact activateInner_lost hc hl
    · simpa [hc, afterStep] using hl
  have ⟨ha, hg', hn, hd, _, _⟩ := ensureMostWork_spec h hg ha (activateBestChainStep_lost hs hls)
  have hs := activateBestChainStep_spec hv ha.toActive hg' (ha.best hn) hs hls
  have ⟨g', hg', hw⟩ := hs.advanced
  have hd := hd.trans hs.demotes
  rcases hc with ⟨he, _⟩ | hc | hc
  · exact absurd he hs.returns
  · have ⟨a2, he, h⟩ := hi hs.sound hg' hc
    exact ⟨a2, he, h.toSound, hd.trans h.demotes, h.advanced.trans hw, h.atTip⟩
  · exact ⟨_, hc, hs.sound, hd, ⟨g', hg', hw⟩, by simp [afterStep]⟩

omit [DecidableEq β] in
lemma Activation.Sound.best_tip (h : a.Sound verdict genesis)
    (hm : a.pindexMostWork = a.chain.tip) : Best a.chain a.chain.tip :=
  hm ▸ h.best (hm ▸ h.tip)

lemma activateOuter_cases (h : activateOuter verdict (fuel + 1) a = some (b, s)) :
    ∃ r, activateInner verdict a.chain.tip (fuel + 1) { a with blocksConnected := false } = some r ∧
      (r = .failure s ∨
        ∃ a', r = .proceed a' ∧
          (b = true ∧ s = a'.chain ∧
              (a'.blocksConnected = false ∨
                a'.blocksConnected ∧ a'.pindexNewTip = a'.pindexMostWork) ∨
            activateOuter verdict fuel a' = some (b, s))) := by
  simp only [activateOuter] at h
  split at h
  case h_1 => simp at h
  case h_2 s' hs =>
    have ⟨_, he⟩ := Prod.mk.inj <| some.inj h
    exact ⟨_, hs, .inl (he ▸ rfl)⟩
  rename_i a' hs
  refine ⟨_, hs, .inr ⟨a', rfl, ?_⟩⟩
  split at h
  case isTrue hc =>
    have ⟨hb, he⟩ := Prod.mk.inj <| some.inj h
    exact .inl ⟨hb.symm, he.symm, .inl <| by simpa using hc⟩
  rename_i hc
  split at h
  · exact .inr h
  case isFalse hn =>
  have ⟨hb, he⟩ := Prod.mk.inj <| some.inj h
  exact .inl ⟨hb.symm, he.symm, .inr ⟨by simpa using hc, not_not.mp hn⟩⟩

lemma activateOuter_lost (hr : activateOuter verdict fuel a = some (b, s)) (hl : s.lost = false) :
    a.chain.lost = false := by
  induction fuel generalizing a
  case zero => simp [activateOuter] at hr
  case succ fuel hi =>
  have ⟨r, hs, hc⟩ := activateOuter_cases hr
  refine activateInner_lost (a := { a with blocksConnected := false }) hs ?_
  rcases hc with hc | ⟨a', hc, ⟨_, he, _⟩ | hr⟩
  · simpa [hc] using hl
  · simpa [hc, ← he] using hl
  · simpa [hc] using hi hr

lemma activateOuter_spec (hv : Fixed verdict) (h : a.Sound verdict genesis)
    (hg : GuardedBy verdict a.chain g) (hr : activateOuter verdict fuel a = some (b, s))
    (hl : s.lost = false) :
    b = true ∧ Active verdict genesis s ∧ Best s s.tip ∧ Demotes verdict a.chain s ∧
    Advanced verdict s g := by
  induction fuel generalizing a g
  case zero => simp [activateOuter] at hr
  case succ fuel hi =>
  have ⟨r, hi', hc⟩ := activateOuter_cases hr
  have hlr : r.chain.lost = false := by
    rcases hc with hc | ⟨a', hc, ⟨_, he, _⟩ | hr⟩
    · simpa [hc] using hl
    · simpa [hc, ← he] using hl
    · simpa [hc] using activateOuter_lost hr hl
  have h' : Sound verdict genesis { a with blocksConnected := false } :=
    ⟨h.toActive, h.best, by simp⟩
  have ⟨a2, he, hs⟩ := activateInner_spec hv h' hg hi' hlr
  subst he
  rcases hc with hc | ⟨a', hc, ⟨hb, he, hc'⟩ | hr⟩
  · simp at hc
  · cases hc
    subst he
    have hm : a2.pindexMostWork = a2.chain.tip := by
      cases hc'
      case inl hc => exact hs.atTip hc
      case inr hc => exact hc.2 ▸ hs.newTip hc.1
    exact ⟨hb, hs.toActive, hs.best_tip hm, hs.demotes, hs.advanced⟩
  cases hc
  have ⟨g', hg', hw⟩ := hs.advanced
  have ⟨hb, ha, hm, hd, hg⟩ := hi hs.toSound hg' hr
  exact ⟨hb, ha, hm, hs.demotes.trans hd, hg.trans hw⟩

lemma activateBestChain_spec (hv : Fixed verdict) (h : Active verdict genesis s1)
    (hg : GuardedBy verdict s1 g) (hr : s1.activateBestChain verdict fuel = some (b, s2))
    (hl : s2.lost = false) :
    b = true ∧ Active verdict genesis s2 ∧ Best s2 s2.tip ∧ Demotes verdict s1 s2 ∧
    Advanced verdict s2 g :=
  activateOuter_spec hv ⟨h, by simp, by simp⟩ hg hr hl

end

end Taler.ChainState
