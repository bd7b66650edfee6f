import TalerModel.Chain.Run
import TalerModel.Chain.Theorems.Restart

namespace Taler.ChainState

variable {β : Type} [DecidableEq β] {proof : β → Nat} {verdict : List β → List β → Verdict}
variable {genesis : β} {s s1 s2 : ChainState proof} {g p : List β} {events : List (Event β)}

-- A new block adds work, and no ancestor in front of the tip is cleared when flags are reset.
def Event.Admissible (verdict : List β → List β → Verdict) (s : ChainState proof) : Event β → Prop
  | .header _ pindex _ => nChainWork proof pindex.tail < nChainWork proof pindex
  | .reset _ pindex => AncestorsBehind verdict s pindex
  | _ => True

instance (s : ChainState proof) : (e : Event β) → Decidable (e.Admissible verdict s)
  | .header .. => inferInstanceAs (Decidable (_ < _))
  | .reset .. => inferInstanceAs (Decidable (AncestorsBehind ..))
  | .block .. | .invalidData .. | .activate .. | .invalidate .. | .precious .. | .restart .. =>
    inferInstanceAs (Decidable True)

def AdmissibleRun (verdict : List β → List β → Verdict) : List (Event β) → ChainState proof → Prop
  | [], _ => True
  | e :: events, s =>
    e.Admissible verdict s ∧ ∀ s' ∈ s.step verdict e, AdmissibleRun verdict events s'

instance : (events : List (Event β)) → (s : ChainState proof) →
    Decidable (AdmissibleRun verdict events s)
  | [], _ => inferInstanceAs (Decidable True)
  | e :: events, s =>
    have (s' : ChainState proof) := instDecidableAdmissibleRun events s'
    inferInstanceAs (Decidable (e.Admissible verdict s ∧ ∀ s' ∈ s.step verdict e, _))

section

lemma markInvalid_lost (t) : (s.markInvalid p t).lost = s.lost := by
  induction t generalizing s
  case nil => rfl
  case cons b t hi =>
  simp only [markInvalid]
  split
  · rfl
  · exact hi

lemma markFailedChild_lost (t) : (s.markFailedChild p t).lost = s.lost := by
  induction t generalizing s
  case nil => rfl
  case cons b t hi =>
  simp only [markFailedChild]
  split
  · rfl
  · exact hi

lemma invalidateBlock_lost (h : (s.invalidateBlock verdict order p).2.lost = false) :
    s.lost = false := by
  simp only [invalidateBlock] at h
  split at h
  · exact h
  have h := foldl_flag (fun _ _ => readdCandidate_lost) h
  have h := (markInvalid_lost _).symm.trans h
  exact h

lemma receivedBlockTransactions_lost
    (h : (s.receivedBlockTransactions verdict p nTx).lost = false) : s.lost = false := by
  simp only [receivedBlockTransactions] at h
  split at h
  · have h := linkBlocks_lost h
    exact h
  · split at h <;> exact h

lemma preciousBlock_lost (h : s1.preciousBlock verdict fuel p = some (b, s2))
    (hl : s2.lost = false) : s1.lost = false := by
  simp only [preciousBlock] at h
  split at h
  · cases h
    exact hl
  split at h
  · split at h
    case h_1 => simp at h
    case h_2 hs => exact replaceCandidate_lost <| (Reflagged.prune hs).lost (activateOuter_lost h hl)
  · exact replaceCandidate_lost (activateOuter_lost h hl)

lemma acceptHeader_cases (h : s1.acceptHeader failedOrder p flags = some s2) :
    s2 = s1 ∨ s1.failedAncestor failedOrder p.tail = some (some s2) ∨
    s2 = s1.addToBlockIndex p flags := by
  simp only [acceptHeader] at h
  split at h
  · exact .inl (Option.some.inj h).symm
  split at h
  case h_1 => simp at h
  case h_2 hs => exact .inr <| .inl (Option.some.inj h ▸ hs)
  case h_3 => exact .inr <| .inr (Option.some.inj h).symm

lemma acceptHeader_lost (h : s1.acceptHeader failedOrder p flags = some s2) :
    s2.lost = s1.lost := by
  rcases acceptHeader_cases h with h | h | h
  · rw [h]
  · have ⟨f, _, _, _, h⟩ := failedAncestor_eq_some h
    rw [h, markFailedChild_lost]
  rw [h]
  rfl

lemma perform_lost (h : s1.perform verdict e = some s2) (hl : s2.lost = false) :
    s1.lost = false := by
  cases e <;> simp only [perform, Option.some.injEq, Option.map_eq_some_iff, Prod.exists] at h
  case header => exact acceptHeader_lost h ▸ hl
  case block => exact receivedBlockTransactions_lost (h ▸ hl)
  case invalidData =>
    rw [← h] at hl
    exact hl
  case activate =>
    have ⟨b, s, h, he⟩ := h
    exact activateOuter_lost h (he ▸ hl)
  case invalidate => exact invalidateBlock_lost (h ▸ hl)
  case reset =>
    rw [← h] at hl
    have hl := resetAncestors_lost.symm.trans hl
    exact foldl_flag (fun _ _ => resetDescendant_lost) hl
  case precious =>
    have ⟨b, s, h, he⟩ := h
    exact preciousBlock_lost h (he ▸ hl)
  case restart =>
  have hl := foldl_flag (fun _ _ => loadEntry_lost) <| (Reflagged.prune h).lost hl
  exact hl

end

section

lemma Guarded.acceptHeader (h : Guarded verdict genesis s1 g) (hp : p ∉ s1.blocks)
    (ht : p.tail ∈ s1.blocks) (ho : failedOrder.Perm s1.failedBlocks)
    (hw : nChainWork proof p.tail < nChainWork proof p)
    (hr : s1.acceptHeader failedOrder p flags = some s2) : Guarded verdict genesis s2 g := by
  rcases acceptHeader_cases hr with hr | hr | hr
  · exact hr ▸ h
  · exact h.failedAncestor (fun f hf => ho.mem_iff.mp hf) hr |>.left
  · exact hr ▸ h.addToBlockIndex hp ht hw

lemma Guarded.perform (hv : Fixed verdict) (h : Guarded verdict genesis s1 g) (he : e.Legal s1)
    (ha : e.Admissible verdict s1) (hr : s1.perform verdict e = some s2) (hl : s2.lost = false) :
    ∃ g, Guarded verdict genesis s2 g := by
  cases e <;>
    simp only [ChainState.perform, Option.some.injEq, Option.map_eq_some_iff, Prod.exists] at hr
  case header =>
    have ⟨hp, ht, ho⟩ := he
    exact ⟨g, h.acceptHeader hp ht ho ha hr⟩
  case block =>
    have ⟨hp, hx, hf, hd⟩ := he
    subst hr
    exact ⟨g, h.receivedBlockTransactions hp hf hd hx hl⟩
  case invalidData =>
    have ⟨hp, _, hd⟩ := he
    exact ⟨g, hr ▸ h.markFailedValid hp hd⟩
  case activate =>
    have ⟨b, s, hr', hs⟩ := hr
    subst hs
    exact ⟨_, activateBestChain_guarded hv h.toActive h.guard hr' hl⟩
  case invalidate =>
    have ⟨hp, ho⟩ := he
    subst hr
    exact h.invalidateBlock hp (fun q hq => ho.mem_iff.mpr hq) hl
  case reset =>
    have ⟨hp, ho⟩ := he
    subst hr
    exact ⟨g, h.resetBlockFailureFlags hp (fun q => ho.mem_iff) ha hl⟩
  case precious =>
    have ⟨b, s, hr', hs⟩ := hr
    subst hs
    exact preciousBlock_guarded hv h he hr' hl
  case restart =>
  have ⟨ho, hs⟩ := he
  exact h.toActive.restart ho hs hr hl

variable {nTx : Nat}

lemma init_entry_ne (h : p ≠ [genesis]) : (init proof genesis nTx).entry p = {} := by
  simp [init, h]

lemma init_entry_self :
    (init proof genesis nTx).entry [genesis] =
    { nTx := nTx, nChainTx := nTx, validity := BLOCK_VALID_SCRIPTS, haveData := true } := by
  simp [init]

lemma init_blocks (h : p ∈ (init proof genesis nTx).blocks) : p = [genesis] := by
  simpa [init] using h

lemma init_tree (hx : nTx ≠ 0) : Tree genesis (init proof genesis nTx) := by
  have he p (hp : (init proof genesis nTx).entry p ≠ {}) : p = [genesis] := by
    by_contra hn
    exact hp (init_entry_ne hn)
  constructor
  case nodup => simp [init]
  case rooted => exact fun p hp => init_blocks hp ▸ List.suffix_rfl
  case parent =>
    intro p hp hn
    simp [init_blocks hp] at hn
  case data =>
    intro p hp
    have hp := he p fun h => by simp [h] at hp
    subst hp
    simp [init, hx, BLOCK_VALID_TRANSACTIONS, BLOCK_VALID_SCRIPTS]
  case counted =>
    intro p hp
    have hp := he p fun h => by simp [h] at hp
    simp [hp, init_entry_self]
  case complete =>
    intro p hp
    have hp := he p fun h => by simp [h] at hp
    simp [hp, init_entry_self]
  case unlinked | failedBlocks => simp [init]
  case candidates =>
  intro c hc
  cases KeyedSet.eq_or_mem_of_mem_insert hc
  case inl hc => simpa [hc, init_entry_self] using hx
  case inr hc => simp at hc

lemma init_wellFormed (hx : nTx ≠ 0) : WellFormed genesis (init proof genesis nTx) := by
  refine ⟨init_tree hx, fun p hp hn => ?_⟩
  simp [init_blocks hp] at hn

lemma init_guarded (hx : nTx ≠ 0) :
    Guarded verdict genesis (init proof genesis nTx) [genesis] := by
  have hgood : (init proof genesis nTx).good verdict [genesis] := by
    simp [good, connectable, failed, init_entry_self, IndexEntry.failed, hx]
  have hlive p (hp : (init proof genesis nTx).live verdict p) : p = [genesis] := by
    by_contra hn
    simp [live_iff, init_entry_ne hn] at hp
  refine ⟨⟨init_wellFormed hx, by simp [init], hgood⟩, ⟨?_, by simp, hgood, ?_⟩, ?_, ?_⟩
  · exact KeyedSet.mem_insert_self (by simp)
  · intro p hp hw
    simp [hlive p hp] at hw
  · exact Nat.le_refl _
  · exact fun _ => .inl rfl

lemma step_eq_some (h : s1.step verdict e = some s2) :
    e.Legal s1 ∧ s1.perform verdict e = some s2 := by
  simpa [step, Option.ite_none_right_eq_some] using h

lemma run_lost (h : run verdict events s1 = some s2) (hl : s2.lost = false) :
    s1.lost = false := by
  induction events generalizing s1
  case nil =>
    cases h
    exact hl
  case cons e events hi =>
  have ⟨s, hs, h⟩ := Option.bind_eq_some_iff.mp h
  exact perform_lost (step_eq_some hs).2 (hi h)

lemma Guarded.run (hv : Fixed verdict) (h : Guarded verdict genesis s1 g)
    (ha : AdmissibleRun verdict events s1) (hr : run verdict events s1 = some s2)
    (hl : s2.lost = false) : ∃ g, Guarded verdict genesis s2 g := by
  induction events generalizing s1 g
  case nil =>
    cases hr
    exact ⟨g, h⟩
  case cons e events hi =>
  have ⟨s, hs, hr⟩ := Option.bind_eq_some_iff.mp hr
  have ⟨he, hp⟩ := step_eq_some hs
  have ⟨g', hg'⟩ := h.perform hv he ha.1 hp (run_lost hr hl)
  exact hi hg' (ha.2 s hs) hr

end

section

def verdictOf (connects : List β → Bool) : List β → List β → Verdict :=
  fun _ pindex => if connects pindex then .accept else .invalid

omit [DecidableEq β] in
lemma verdictOf_fixed (connects : List β → Bool) : Fixed (verdictOf connects) where
  same _ _ := rfl
  returns p := by
    simp only [verdictOf]
    split <;> simp

variable {connects : List β → Bool}

-- Fully downloaded, and neither it nor an ancestor is marked as failed or fails to connect.
def Eligible (connects : List β → Bool) (s : ChainState proof) (pindex : List β) : Prop :=
  (s.entry pindex).nChainTx ≠ 0 ∧
  ∀ q ∈ pindex.tails, q ≠ [] →
    (s.entry q).haveData ∧ s.failed q = false ∧ (q.tail ≠ [] → connects q)

instance (s : ChainState proof) (pindex : List β) : Decidable (Eligible connects s pindex) :=
  inferInstanceAs (Decidable (_ ∧ _))

omit [DecidableEq β] in
lemma Eligible.good (h : Eligible connects s p) (hw : WellFormed genesis s) :
    s.good (verdictOf connects) p := by
  refine good_iff.mpr ⟨fun q hq hn => ⟨?_, ?_⟩, connectable_iff.mpr fun q hq hn => ?_⟩
  · exact (h.2 q ((List.mem_tails ..).mpr hq) hn).2.1
  · exact hw.complete_suffix h.1 hq hn
  have hq' : q ≠ [] := fun he => hn (by simp [he])
  have hc := (h.2 q ((List.mem_tails ..).mpr hq) hq').2.2 hn
  simp [verdictOf, hc]

-- After `ActivateBestChain` no eligible block has more work, if no needed candidate was dropped.
theorem activateBestChain_most_work (connects : List β → Bool) (genesis : β) (nTx : Nat)
    (hx : nTx ≠ 0) (ha : AdmissibleRun (verdictOf connects) events (init proof genesis nTx))
    (hr : run (verdictOf connects) events (init proof genesis nTx) = some s1)
    (hs : s1.activateBestChain (verdictOf connects) fuel = some (b, s2)) (hl : s2.lost = false) :
    b = true ∧ ∀ p, Eligible connects s2 p → nChainWork proof p ≤ nChainWork proof s2.tip := by
  have hv := verdictOf_fixed connects
  have ⟨g, h⟩ := (init_guarded hx).run hv ha hr (activateOuter_lost hs hl)
  have ⟨hb, ha, hbest, _, _⟩ := activateBestChain_spec hv h.toActive h.guard hs hl
  have hg := activateBestChain_guarded hv h.toActive h.guard hs hl
  refine ⟨hb, fun p hp => ?_⟩
  by_contra hw
  have hw := Nat.lt_of_not_le hw
  have hp := good_live (hp.good ha.wf) (ne_nil_of_work_lt hw)
  -- A better block would be represented in the set, but the tip is the best candidate.
  have ⟨q, hq, hw', _⟩ := hg.guard.cover p hp hw
  have := hbest.max q hq
  omega

def unitWork (_ : Nat) : Nat :=
  1

-- Two children of the genesis block, the data of the first being there before that of the second.
def siblings : List (Event Nat) :=
  [.header [] [1, 0] {}, .header [] [2, 0] {}, .block [1, 0] 1, .block [2, 0] 1]

-- If both connect, then it does not matter that the set only has room for one of them.
theorem activateBestChain_most_work_siblings :
    ∃ s1 s2 : ChainState unitWork, s2.tip = [1, 0] ∧
    run (verdictOf fun _ => true) siblings (init _ 0 1) = some s1 ∧
    s1.activateBestChain (verdictOf fun _ => true) 3 = some (true, s2) ∧
    ∀ p, Eligible (fun _ => true) s2 p → nChainWork unitWork p ≤ nChainWork unitWork s2.tip := by
  have ⟨s1, hr, s2, hs, ht, hl⟩ :
      ∃ s1, run (verdictOf fun _ => true) siblings (init unitWork 0 1) = some s1 ∧
      ∃ s2, s1.activateBestChain (verdictOf fun _ => true) 3 = some (true, s2) ∧
        s2.tip = [1, 0] ∧ s2.lost = false := by
    decide +kernel
  have ha : AdmissibleRun (verdictOf fun _ => true) siblings (init unitWork 0 1) := by
    decide +kernel
  have hm := activateBestChain_most_work (fun _ => true) 0 1 (by simp) ha hr hs hl
  exact ⟨s1, s2, ht, hr, hs, hm.2⟩

-- If the first does not connect, the second is forgotten: for the comparator they are the same.
theorem activateBestChain_forgets_sibling :
    ∃ s1 s2 : ChainState unitWork,
    run (verdictOf (· ≠ [1, 0])) siblings (init _ 0 1) = some s1 ∧
    s1.activateBestChain (verdictOf (· ≠ [1, 0])) 3 = some (true, s2) ∧
    Eligible (· ≠ [1, 0]) s2 [2, 0] ∧ nChainWork unitWork s2.tip < nChainWork unitWork [2, 0] := by
  simp only [exists_and_left]
  decide +kernel

-- The tip is only left for more work, as long as it has kept its place in the set.
theorem activateBestChain_keeps_tip (connects : List β → Bool) (genesis : β) (nTx : Nat)
    (hx : nTx ≠ 0) (ha : AdmissibleRun (verdictOf connects) events (init proof genesis nTx))
    (hr : run (verdictOf connects) events (init proof genesis nTx) = some s1)
    (hd : s1.displaced = false)
    (hs : s1.activateBestChain (verdictOf connects) fuel = some (b, s2)) (hl : s2.lost = false) :
    s2.tip = s1.tip ∨ nChainWork proof s1.tip < nChainWork proof s2.tip := by
  have hv := verdictOf_fixed connects
  have ⟨g, h⟩ := (init_guarded hx).run hv ha hr (activateOuter_lost hs hl)
  have ⟨_, _, hbest, _, g', hg', hw'⟩ := activateBestChain_spec hv h.toActive h.guard hs hl
  have hm := hbest.max g' hg'.mem
  by_cases hw : nChainWork proof s1.tip < nChainWork proof g'
  · exact .inr (by omega)
  -- The guard has not moved, so it is still the old tip.
  have hg : g' = s1.tip := by
    cases hw'
    case inl he => exact he ▸ (h.fair hd).resolve_right (he ▸ hw)
    case inr hw' => exact absurd (h.above.trans_lt hw') hw
  subst hg
  cases Nat.lt_or_eq_of_le hm
  case inl hlt => exact .inr hlt
  case inr heq => exact .inl (KeyedSet.key_inj hbest.mem hg'.mem heq.symm)

-- The second child arrives when the first is the tip already, and then the node is restarted.
def arrivesLater (order : List (List Nat)) : List (Event Nat) :=
  [.header [] [1, 0] {}, .header [] [2, 0] {}, .block [1, 0] 1, .activate 3, .block [2, 0] 1,
    .restart order]

theorem activateBestChain_keeps_tip_arrivesLater :
    ∃ s1 s2 : ChainState unitWork, s1.tip = [1, 0] ∧
    run (verdictOf fun _ => true) (arrivesLater [[0], [1, 0], [2, 0]]) (init _ 0 1) = some s1 ∧
    s1.activateBestChain (verdictOf fun _ => true) 3 = some (true, s2) ∧
    (s2.tip = s1.tip ∨ nChainWork unitWork s1.tip < nChainWork unitWork s2.tip) := by
  let events := arrivesLater [[0], [1, 0], [2, 0]]
  have ⟨s1, hr, ht, hd, s2, hs, hl⟩ :
      ∃ s1, run (verdictOf fun _ => true) events (init unitWork 0 1) = some s1 ∧
        s1.tip = [1, 0] ∧ s1.displaced = false ∧
      ∃ s2, s1.activateBestChain (verdictOf fun _ => true) 3 = some (true, s2) ∧
        s2.lost = false := by
    decide +kernel
  have ha : AdmissibleRun (verdictOf fun _ => true) events (init unitWork 0 1) := by
    decide +kernel
  have hm := activateBestChain_keeps_tip (fun _ => true) 0 1 (by simp) ha hr hd hs hl
  exact ⟨s1, s2, ht, hr, hs, hm⟩

-- If the second is loaded first, then it takes the place of the tip in the set, and then its place.
theorem activateBestChain_switches_tip :
    ∃ s1 s2 : ChainState unitWork,
    run (verdictOf fun _ => true) (arrivesLater [[0], [2, 0], [1, 0]]) (init _ 0 1) = some s1 ∧
    s1.activateBestChain (verdictOf fun _ => true) 3 = some (true, s2) ∧
    s1.tip = [1, 0] ∧ s2.tip = [2, 0] ∧
    nChainWork unitWork s2.tip = nChainWork unitWork s1.tip := by
  simp only [exists_and_left]
  decide +kernel

end

end Taler.ChainState
