import TalerModel.Chain.Theorems.Arrival

namespace Taler.ChainState

open List KeyedSet

variable {β : Type} [DecidableEq β] {proof : β → Nat} {verdict : List β → List β → Verdict}
variable {genesis : β} {s s1 s2 : ChainState proof} {f g p q t : List β} {order : List (List β)}

omit [DecidableEq β] in
lemma isValid_of_live (hw : Tree genesis s) (h : s.live verdict p) :
    (s.entry p).isValid BLOCK_VALID_TRANSACTIONS ∧ (s.entry p).nChainTx ≠ 0 := by
  have ⟨hf, hc, _⟩ := live_iff.mp h
  have hv := hw.data p (hw.complete p hc).1 |>.right.2
  exact ⟨by simpa [IndexEntry.isValid, hv, failed] using hf, hc⟩

section

lemma clearFailed_entry_ne (h : q ≠ p) : (s.clearFailed p).entry q = s.entry q :=
  setEntry_entry_ne s _ h

lemma clearFailed_entry_self : (s.clearFailed p).entry p = (s.entry p).clearFailed :=
  setEntry_entry_self s ..

lemma clearFailed_nChainTx (q) : ((s.clearFailed p).entry q).nChainTx = (s.entry q).nChainTx := by
  by_cases hq : q = p
  · simp [hq, clearFailed_entry_self, IndexEntry.clearFailed]
  · rw [clearFailed_entry_ne hq]

lemma clearFailed_failed (h : s.failed q = false) : (s.clearFailed p).failed q = false := by
  by_cases hq : q = p
  · simp [failed, hq, clearFailed_entry_self, IndexEntry.clearFailed, IndexEntry.failed]
  · simpa [failed, clearFailed_entry_ne hq] using h

@[simp]
lemma clearFailed_tip : (s.clearFailed p).tip = s.tip :=
  rfl

lemma clearFailed_good (h : s.good verdict q) : (s.clearFailed p).good verdict q := by
  have ⟨h, hc⟩ := good_iff.mp h
  refine good_iff.mpr ⟨fun r hr hn => ?_, hc⟩
  have ⟨h1, h2⟩ := h r hr hn
  exact ⟨clearFailed_failed h1, by rwa [clearFailed_nChainTx]⟩

lemma clearFailed_live (hn : q ≠ p) : (s.clearFailed p).live verdict q = s.live verdict q :=
  live_congr (by simp [failed, clearFailed_entry_ne hn]) (by rw [clearFailed_entry_ne hn])

lemma Tree.clearFailed (h : Tree genesis s) (hp : p ∈ s.blocks) :
    Tree genesis (s.clearFailed p) := by
  let s' : ChainState proof := { s with failedBlocks := s.failedBlocks.filter (· ≠ p) }
  have hs' : Tree genesis s' :=
    { h with failedBlocks := fun f hf => h.failedBlocks f (mem_filter.mp hf).1 }
  have hr : Tree genesis (s'.setEntry p (s.entry p).clearFailed) := by
    refine hs'.setEntry hp id id ?_ (fun hd => (h.data p hd).2) (h.counted p) (h.complete p)
    simp [s']
  exact hr

lemma Tree.clearFailedIf {c : Bool} (h : Tree genesis s) (hp : p ∈ s.blocks)
    (hi : c → (s.entry p).nChainTx ≠ 0) :
    Tree genesis ((s.clearFailed p).insertCandidateIf verdict c p) :=
  (h.clearFailed hp).insertCandidateIf fun hc => by simpa [clearFailed_nChainTx] using hi hc

lemma Guarded.clearFailed {c : Bool} (h : Guarded verdict genesis s g) (hp : p ∈ s.blocks)
    (hc : (s.clearFailed p).live verdict p → nChainWork proof s.tip < nChainWork proof p → c)
    (hi : c → (s.entry p).nChainTx ≠ 0)
    (hl : ((s.clearFailed p).insertCandidateIf verdict c p).lost = false) :
    Guarded verdict genesis ((s.clearFailed p).insertCandidateIf verdict c p) g := by
  have hd (hd : ((s.clearFailed p).insertCandidateIf verdict c p).displaced = false) :
      (s.clearFailed p).displaced = false := insertCandidateIf_displaced hd
  have hw : WellFormed genesis ((s.clearFailed p).insertCandidateIf verdict c p) :=
    h.wf.of_tree (h.wf.clearFailedIf hp hi) insertCandidateIf_blocks
  refine h.of_tip_eq ⟨hw, ?_, ?_⟩ ?_ ?_ hd
  · simpa using h.tip
  · simpa using clearFailed_good h.good
  · refine h.guard.insertCandidateIf rfl (fun _ => clearFailed_good) ?_ (fun hp hw => ?_) hl
    · exact fun q hn hq => clearFailed_live hn ▸ hq
    · exact hc hp (Nat.lt_of_le_of_lt h.above hw)
  · simp

lemma resetDescendant_lost (h : (s.resetDescendant verdict p q).lost = false) :
    s.lost = false := by
  simp only [resetDescendant] at h
  split at h
  · have hs := insertCandidateIf_lost h
    exact hs
  · exact h

@[simp]
lemma resetDescendant_tip : (s.resetDescendant verdict p q).tip = s.tip := by
  simp only [resetDescendant]
  split <;> simp

@[simp]
lemma resetDescendant_blocks : (s.resetDescendant verdict p q).blocks = s.blocks := by
  simp only [resetDescendant]
  split
  · rw [insertCandidateIf_blocks]
    rfl
  · rfl

lemma resetDescendant_entry (h : getAncestor t (nHeight p) ≠ p) :
    (s.resetDescendant verdict p q).entry t = s.entry t := by
  simp only [resetDescendant]
  split
  case isTrue hc =>
    have hn : t ≠ q := by
      intro he
      simp [← he, h] at hc
    rw [insertCandidateIf_entry, clearFailed_entry_ne hn]
  · rfl

lemma resetDescendant_failed (h : s.failed t = false ∨ t = q ∧ getAncestor t (nHeight p) = p) :
    (s.resetDescendant verdict p q).failed t = false := by
  simp only [resetDescendant]
  split
  case isTrue hc =>
    simp only [failed, insertCandidateIf_entry]
    cases h
    case inl h => exact clearFailed_failed h
    case inr h =>
    rw [h.1, clearFailed_entry_self]
    simp [IndexEntry.clearFailed, IndexEntry.failed]
  case isFalse hc =>
  cases h
  case inl h => exact h
  case inr h =>
  simp [← h.1, h.2, IndexEntry.isValid] at hc
  simpa [failed] using hc.1

lemma Tree.resetDescendant (h : Tree genesis s) (hq : q ∈ s.blocks) :
    Tree genesis (s.resetDescendant verdict p q) := by
  simp only [ChainState.resetDescendant]
  split
  · refine h.clearFailedIf hq fun hi => ?_
    simp only [clearFailed_nChainTx, Bool.and_eq_true, decide_eq_true_eq] at hi
    exact hi.1.2
  · exact h

lemma Guarded.resetDescendant (h : Guarded verdict genesis s g) (hq : q ∈ s.blocks)
    (hl : (s.resetDescendant verdict p q).lost = false) :
    Guarded verdict genesis (s.resetDescendant verdict p q) g := by
  simp only [ChainState.resetDescendant] at hl ⊢
  split
  case isTrue hc =>
    rw [if_pos hc] at hl
    refine h.clearFailed hq (fun hq' hw => ?_) (fun hi => ?_) hl
    · have ⟨h1, h2⟩ := isValid_of_live (h.wf.clearFailed hq) hq'
      simp [h1, h2, hw]
    simp only [clearFailed_nChainTx, Bool.and_eq_true, decide_eq_true_eq] at hi
    exact hi.1.2
  · exact h

lemma Guarded.resetDescendants (h : Guarded verdict genesis s g)
    (ho : ∀ q ∈ order, q ∈ s.blocks)
    (hl : (order.foldl (ChainState.resetDescendant verdict p) s).lost = false) :
    Guarded verdict genesis (order.foldl (ChainState.resetDescendant verdict p) s) g := by
  induction order generalizing s
  case nil => exact h
  case cons q order hi =>
  refine hi (h.resetDescendant (ho q mem_cons_self) ?_) (fun r hr => ?_) hl
  · exact foldl_flag (fun _ _ => resetDescendant_lost) hl
  rw [resetDescendant_blocks]
  exact ho r (mem_cons_of_mem q hr)

lemma foldl_resetDescendant_tip : (order.foldl (resetDescendant verdict p) s).tip = s.tip := by
  induction order generalizing s
  case nil => rfl
  case cons q order hi => exact hi.trans resetDescendant_tip

lemma foldl_resetDescendant_blocks :
    (order.foldl (resetDescendant verdict p) s).blocks = s.blocks := by
  induction order generalizing s
  case nil => rfl
  case cons q order hi => exact hi.trans resetDescendant_blocks

lemma foldl_resetDescendant_entry (h : getAncestor t (nHeight p) ≠ p) :
    (order.foldl (resetDescendant verdict p) s).entry t = s.entry t := by
  induction order generalizing s
  case nil => rfl
  case cons q order hi => exact hi.trans (resetDescendant_entry h)

lemma foldl_resetDescendant_failed
    (h : s.failed t = false ∨ t ∈ order ∧ getAncestor t (nHeight p) = p) :
    (order.foldl (resetDescendant verdict p) s).failed t = false := by
  induction order generalizing s
  case nil => simpa using h
  case cons q order hi =>
  refine hi ?_
  rcases h with h | ⟨hm, ha⟩
  · exact .inl (resetDescendant_failed (.inl h))
  cases mem_cons.mp hm
  case inl he => exact .inl (resetDescendant_failed (.inr ⟨he, ha⟩))
  case inr hm => exact .inr ⟨hm, ha⟩

lemma resetAncestors_lost : (s.resetAncestors p).lost = s.lost := by
  induction p generalizing s
  case nil => rfl
  case cons b p hi =>
  simp only [resetAncestors]
  split
  · exact hi
  · exact hi

omit [DecidableEq β] in
lemma Tree.parent_or_nil (h : Tree genesis s) (hp : b :: p ∈ s.blocks) :
    p = [] ∨ p ∈ s.blocks := by
  by_cases ht : p = []
  · exact .inl ht
  · exact .inr (h.parent _ hp ht)

-- The second loop inserts nothing, so no ancestor that it clears may be in front of the tip.
lemma Guarded.resetAncestors (h : Guarded verdict genesis s g) (hp : p = [] ∨ p ∈ s.blocks)
    (ha : ∀ q, q <:+ p → q ≠ [] → s.failed q → (s.entry q).nChainTx ≠ 0 → connectable verdict q →
      nChainWork proof q ≤ nChainWork proof s.tip)
    (hl : s.lost = false) : Guarded verdict genesis (s.resetAncestors p) g := by
  induction p generalizing s
  case nil => exact h
  case cons b p hi =>
  have hb := hp.resolve_left (by simp)
  have ht := h.wf.parent_or_nil hb
  have hsub q (hq : q <:+ p) : q ≠ b :: p := fun he => not_cons_suffix b p (he ▸ hq)
  simp only [ChainState.resetAncestors]
  split
  case isTrue hf =>
    have hs : Guarded verdict genesis (s.clearFailed (b :: p)) g := by
      refine h.clearFailed hb (c := false) (fun hv hw => absurd hw ?_) (by simp) hl
      have ⟨_, hc, hv⟩ := live_iff.mp hv
      rw [clearFailed_nChainTx] at hc
      exact Nat.not_lt.mpr <| ha _ suffix_rfl (by simp) hf hc hv
    refine hi hs ht (fun q hq hn hf hc hv => ?_) hl
    have he := clearFailed_entry_ne (s := s) (hsub q hq)
    refine ha q (hq.trans <| suffix_cons b p) hn ?_ (he ▸ hc) hv
    simpa [failed, he] using hf
  · exact hi h ht (fun q hq => ha q (hq.trans <| suffix_cons b p)) hl

omit [DecidableEq β] in
lemma getAncestor_of_suffix (h : q <:+ p) (hn : q ≠ p) : getAncestor q (nHeight p) ≠ p := by
  intro ha
  have hs := ha ▸ getAncestor_isSuffix q (nHeight p)
  exact hn (h.eq_of_length (Nat.le_antisymm h.length_le hs.length_le))

def AncestorsBehind (verdict : List β → List β → Verdict) (s : ChainState proof) (p : List β) :
    Prop :=
  ∀ q ∈ p.tails, q ≠ [] → q ≠ p → s.failed q → (s.entry q).nChainTx ≠ 0 →
    connectable verdict q → nChainWork proof q ≤ nChainWork proof s.tip

instance (s : ChainState proof) (p : List β) : Decidable (AncestorsBehind verdict s p) :=
  inferInstanceAs (Decidable (∀ q ∈ p.tails, _))

lemma Guarded.resetBlockFailureFlags (h : Guarded verdict genesis s g) (hp : p ∈ s.blocks)
    (ho : ∀ q, q ∈ order ↔ q ∈ s.blocks) (ha : AncestorsBehind verdict s p)
    (hl : (s.resetBlockFailureFlags verdict order p).lost = false) :
    Guarded verdict genesis (s.resetBlockFailureFlags verdict order p) g := by
  have hl := resetAncestors_lost.symm.trans hl
  have hs := h.resetDescendants (fun q hq => (ho q).mp hq) hl
  refine hs.resetAncestors (.inr ?_) (fun q hq hn hf hc hv => ?_) hl
  · rwa [foldl_resetDescendant_blocks]
  have hne : q ≠ p := by
    intro he
    have hp : (order.foldl (ChainState.resetDescendant verdict p) s).failed p = false :=
      foldl_resetDescendant_failed (.inr ⟨(ho p).mpr hp, getAncestor_self p⟩)
    simp [he, hp] at hf
  have he : (order.foldl (ChainState.resetDescendant verdict p) s).entry q = s.entry q :=
    foldl_resetDescendant_entry (getAncestor_of_suffix hq hne)
  rw [foldl_resetDescendant_tip]
  exact ha q ((mem_tails ..).mpr hq) hn hne (by simpa [failed, he] using hf) (he ▸ hc) hv

end

omit [DecidableEq β] in
lemma Active.exists_guard (h : Active verdict genesis s)
    (hc : ∀ p, s.live verdict p → nChainWork proof s.tip ≤ nChainWork proof p →
      Represented verdict s p)
    (ht : s.displaced = false → s.tip ∈ s.candidates) : ∃ g, Guarded verdict genesis s g := by
  have ⟨g, hm, hw, hg⟩ := hc s.tip (good_live h.good h.tip) (Nat.le_refl _)
  have hg : s.good verdict g := hg.elim (· ▸ h.good) id
  have hn := h.wf.ne_nil (h.wf.mem_of_candidate hm)
  refine ⟨g, h, ⟨hm, hn, hg, fun p hp hw' => hc p hp ?_⟩, Nat.le_of_eq hw.symm, fun hd => .inl ?_⟩
  · exact hw ▸ Nat.le_of_lt hw'
  · exact key_inj hm (ht hd) hw

section

lemma disconnectWhile_aside (h : ¬p <:+ t) : disconnectWhile (p.isSuffixOf ·) t = (t, true) := by
  have hs := Bool.eq_false_iff.mpr (mt isSuffixOf_iff_suffix.mp h)
  match t with
  | [] => rfl
  | [_] => simp [disconnectWhile, hs]
  | _ :: _ :: _ => simp [disconnectWhile, hs]

lemma disconnectWhile_above (h : p <:+ t) (hn : p.tail ≠ []) :
    disconnectWhile (p.isSuffixOf ·) t = (p.tail, true) := by
  induction t
  case nil => simp [suffix_nil.mp h] at hn
  case cons b t hi =>
  cases t
  case nil =>
    cases suffix_cons_iff.mp h
    case inl he => simp [he] at hn
    case inr he => simp [suffix_nil.mp he] at hn
  case cons c t =>
  have hs := isSuffixOf_iff_suffix.mpr h
  simp only [disconnectWhile, hs, if_true]
  cases suffix_cons_iff.mp h
  case inl he =>
    -- The tip is now the parent, which the block is not an ancestor of.
    subst he
    exact disconnectWhile_aside (not_cons_suffix b (c :: t))
  case inr h => exact hi h

lemma disconnectWhile_genesis (h : [genesis] <:+ t) :
    disconnectWhile (([genesis] : List β).isSuffixOf ·) t = ([genesis], false) := by
  induction t
  case nil => simp at h
  case cons b t hi =>
  have hs := isSuffixOf_iff_suffix.mpr h
  cases t
  case nil =>
    have he := h.eq_of_length rfl
    simp [disconnectWhile, he]
  case cons c t =>
  simp only [disconnectWhile, hs, if_true]
  refine hi <| suffix_cons_iff.mp h |>.resolve_left (by simp)

lemma markInvalid_spec (h : p <:+ t) :
    Reflagged s (s.markInvalid p t) ∧ (s.markInvalid p t).tip = s.tip ∧
    ∀ q, ¬p <:+ q → (s.markInvalid p t).entry q = s.entry q := by
  induction t generalizing s
  case nil => exact ⟨.refl s, rfl, fun _ _ => rfl⟩
  case cons b t hi =>
  simp only [markInvalid]
  split
  · exact ⟨.refl s, rfl, fun _ _ => rfl⟩
  rename_i hn
  let e := { s.entry (b :: t) with failedChild := true }
  let s1 := s.setEntry (b :: t) e
  let s2 := { s1 with candidates := s1.candidates.erase (b :: t) }
  have hp := suffix_cons_iff.mp h |>.resolve_left (Ne.symm hn)
  have ⟨hr, ht, he⟩ := hi (s := s2) hp
  have hr1 : Reflagged s s1 := .setEntry rfl rfl rfl (Nat.le_refl _) id
  have hr2 : Reflagged s1 s2 :=
    { Reflagged.refl s1 with candidates := fun c hc => (mem_erase.mp hc).1 }
  refine ⟨hr1.trans <| hr2.trans hr, ht, fun q hq => (he q hq).trans ?_⟩
  refine setEntry_entry_ne s e fun hq' => hq ?_
  exact hq' ▸ h

lemma markFailed_spec (hp : p ∈ s.blocks) :
    Reflagged s (s.markFailed p) ∧ (s.markFailed p).tip = s.tip ∧
    ∀ q, ¬p <:+ q → (s.markFailed p).entry q = s.entry q := by
  let e := { s.entry p with failedValid := true }
  have hr : Reflagged s (s.setEntry p e) := .setEntry rfl rfl rfl (Nat.le_refl _) fun _ => rfl
  refine ⟨?_, rfl, fun q hq => setEntry_entry_ne s e fun he => hq (he ▸ suffix_rfl)⟩
  have hc c (hc : c ∈ s.candidates.erase p) : c ∈ s.candidates := (mem_erase.mp hc).1
  have hf (h : ∀ f ∈ s.failedBlocks, f ∈ s.blocks ∧ (s.entry f).failedValid) f
      (hf : f ∈ s.failedBlocks.insert p) : f ∈ s.blocks ∧ ((s.setEntry p e).entry f).failedValid := by
    cases mem_insert_iff.mp hf
    case inl he => exact ⟨he ▸ hp, by simp [he, e]⟩
    case inr hf => exact hr.failedBlocks h f hf
  exact { hr with candidates := hc, failedBlocks := hf }

lemma readdCandidate_lost (h : (s.readdCandidate verdict p).lost = false) : s.lost = false :=
  insertCandidateIf_lost h

lemma readdCandidate_displaced (h : (s.readdCandidate verdict p).displaced = false) :
    s.displaced = false :=
  insertCandidateIf_displaced h

lemma Tree.readdCandidate (h : Tree genesis s) : Tree genesis (s.readdCandidate verdict p) := by
  refine h.insertCandidateIf fun hc => ?_
  simp only [Bool.and_eq_true, decide_eq_true_eq] at hc
  exact hc.1.2

lemma Active.readdCandidate (h : Active verdict genesis s) :
    Active verdict genesis (s.readdCandidate verdict p) := by
  refine ⟨h.wf.of_tree h.wf.readdCandidate insertCandidateIf_blocks, ?_, ?_⟩
  · simpa [ChainState.readdCandidate] using h.tip
  · simpa [ChainState.readdCandidate] using h.good

structure Readded (verdict : List β → List β → Verdict) (genesis : β) (s1 s2 : ChainState proof)
    (order : List (List β)) : Prop extends Active verdict genesis s2 where
  tip_eq : s2.tip = s1.tip
  entry_eq : s2.entry = s1.entry
  represented : ∀ p, p ∈ order ∨ Represented verdict s1 p → s1.live verdict p →
                  nChainWork proof s1.tip ≤ nChainWork proof p → Represented verdict s2 p
  tip_mem : s1.tip ∈ order ∨ s1.tip ∈ s1.candidates → s2.displaced = false → s1.tip ∈ s2.candidates

lemma Active.readdCandidates (h : Active verdict genesis s)
    (hl : (order.foldl (ChainState.readdCandidate verdict) s).lost = false) :
    Readded verdict genesis s (order.foldl (ChainState.readdCandidate verdict) s) order := by
  induction order generalizing s
  case nil =>
    exact ⟨h, rfl, rfl, fun p hp _ _ => by simpa using hp, fun ht _ => by simpa using ht⟩
  case cons q order hi =>
  have hr := hi h.readdCandidate hl
  have htip : (s.readdCandidate verdict q).tip = s.tip := insertCandidateIf_tip
  have hl' : (s.readdCandidate verdict q).lost = false := foldl_flag (fun _ _ => readdCandidate_lost) hl
  -- The block whose turn it is passes the test if it is worth keeping.
  have hq (hq : s.live verdict q) (hw : nChainWork proof s.tip ≤ nChainWork proof q) :
      s.readdCandidate verdict q = s.insertCandidate verdict q := by
    have ⟨h1, h2⟩ := isValid_of_live h.wf.toTree hq
    simp [ChainState.readdCandidate, insertCandidateIf, h1, h2, hw]
  refine ⟨hr.toActive, hr.tip_eq.trans htip, hr.entry_eq.trans insertCandidateIf_entry, ?_, ?_⟩
  · intro p hp hv hw
    refine hr.represented p ?_ (by simpa [ChainState.readdCandidate] using hv) (htip ▸ hw)
    rcases hp with hp | hp
    · cases mem_cons.mp hp
      case inl he =>
        subst he
        rw [hq hv hw] at hl' ⊢
        exact .inr <| insertCandidate_represented hv hl'
      case inr hp => exact .inl hp
    · exact .inr hp.insertCandidateIf
  intro ht hd
  have htm := hr.tip_mem
  rw [htip] at htm
  refine htm ?_ hd
  rcases ht with ht | ht
  · cases mem_cons.mp ht
    case inl he =>
      subst he
      have hd' : (s.readdCandidate verdict s.tip).displaced = false :=
        foldl_flag (fun _ _ => readdCandidate_displaced) hd
      rw [hq (good_live h.good h.tip) (Nat.le_refl _)] at hd' ⊢
      exact .inr <| tip_mem_insertCandidate hd'
    case inr ht => exact .inl ht
  · exact .inr <| mem_insertCandidateIf_of_mem ht

omit [DecidableEq β] in
lemma Readded.exists_guard (h : Readded verdict genesis s1 s2 order)
    (hw : WellFormed genesis s1) (ho : ∀ q ∈ s1.blocks, q ∈ order) :
    ∃ g, Guarded verdict genesis s2 g := by
  have hlive p : s2.live verdict p = s1.live verdict p :=
    live_congr (by rw [failed, failed, h.entry_eq]) (by rw [h.entry_eq])
  have hm p (hp : s2.live verdict p) : p ∈ order :=
    ho p <| hw.mem_of_complete <| (live_iff.mp (hlive p ▸ hp)).2.1
  refine h.toActive.exists_guard (fun p hp hw => ?_) (fun hd => ?_)
  · exact h.represented p (.inl (hm p hp)) (hlive p ▸ hp) (h.tip_eq ▸ hw)
  · exact h.tip_eq ▸ h.tip_mem (.inl (h.tip_eq ▸ hm _ (good_live h.good h.tip))) hd

lemma Guarded.genesisTip (h : Guarded verdict genesis s g) :
    Guarded verdict genesis { s with tip := [genesis] } g := by
  have hr := h.wf.rooted _ h.tip_mem
  have hd : Demotes verdict s { s with tip := [genesis] } := .setTip s _
  have hg : GuardedBy verdict { s with tip := [genesis] } g :=
    h.guard.of_le rfl (fun _ => id) (fun _ => id)
  refine ⟨⟨hd.wellFormed h.wf, by simp, good_suffix h.good hr⟩, hg, ?_, fun hd => ?_⟩
  · exact (h.wf.work_le h.tip_mem hr).trans h.above
  by_cases he : s.tip = [genesis]
  · exact he ▸ h.fair hd
  · exact .inr <| (h.wf.work_lt h.tip_mem hr (by simp) (Ne.symm he)).trans_le h.above

lemma exists_disconnected (h : Active verdict genesis s) (hp : p.tail ≠ []) :
    ∃ t, disconnectWhile (p.isSuffixOf ·) s.tip = (t, true) ∧ t <:+ s.tip ∧ t ≠ [] ∧ ¬p <:+ t := by
  by_cases hs : p <:+ s.tip
  · refine ⟨p.tail, disconnectWhile_above hs hp, (tail_suffix p).trans hs, hp, fun h => ?_⟩
    have ⟨b, r, hb⟩ := exists_cons_of_ne_nil fun he : p = [] => hp (by simp [he])
    subst hb
    exact not_cons_suffix b r h
  · exact ⟨s.tip, disconnectWhile_aside hs, suffix_rfl, h.tip, hs⟩

lemma Guarded.invalidateBlock (h : Guarded verdict genesis s g) (hp : p ∈ s.blocks)
    (ho : ∀ q ∈ s.blocks, q ∈ order) (hl : (s.invalidateBlock verdict order p).2.lost = false) :
    ∃ g, Guarded verdict genesis (s.invalidateBlock verdict order p).2 g := by
  by_cases ht : p.tail = []
  · have hd := disconnectWhile_genesis (h.wf.rooted _ h.tip_mem)
    have hp := h.wf.eq_genesis hp ht
    simp only [ChainState.invalidateBlock, hp, hd]
    exact ⟨g, h.genesisTip⟩
  obtain ⟨t, hd, hs, hn, ha⟩ := exists_disconnected h.toActive ht
  let s0 := { s with tip := t }
  let walk := if s.contains p then s.tip else p
  have hwalk : p <:+ walk := by
    simp only [walk]
    split
    case isTrue hc => exact (contains_iff.mp hc).2
    · exact suffix_rfl
  obtain ⟨hr1, ht1, he1⟩ := markInvalid_spec (s := s0) hwalk
  obtain ⟨hr2, ht2, he2⟩ := markFailed_spec (hr1.blocks ▸ hp)
  have hr := (Reflagged.setTip s t).trans <| hr1.trans hr2
  let s' := (s0.markInvalid p walk).markFailed p
  have htip := ht2.trans ht1
  have hgood : s'.good verdict t := by
    have hs : s'.good verdict t = s.good verdict t := by
      refine good_congr (fun q hq _ => ?_) (fun q _ _ => hr.nChainTx q)
      have hq : ¬p <:+ q := fun h => ha (h.trans hq)
      rw [failed, failed, he2 q hq, he1 q hq]
    exact hs.trans (good_suffix h.good ‹_›)
  have hactive : Active verdict genesis s' := ⟨hr.wellFormed h.wf, htip ▸ hn, htip ▸ hgood⟩
  simp only [ChainState.invalidateBlock, hd] at hl ⊢
  refine (hactive.readdCandidates hl).exists_guard hactive.wf fun q hq => ho q ?_
  exact hr.blocks ▸ hq

end

section

lemma mem_replaceCandidate :
    q ∈ (s.replaceCandidate verdict c p).candidates ↔
    (q ∈ s.candidates ∧ nChainWork proof q ≠ nChainWork proof p) ∨ (c ∧ q = p) := by
  cases c
  case false => simp [replaceCandidate, mem_erase]
  case true =>
  simp only [replaceCandidate, if_true, mem_insert, mem_erase]
  exact or_congr_right ⟨fun h => ⟨trivial, h.1⟩, fun h => ⟨h.2, fun r hr => hr.2⟩⟩

lemma replaceCandidate_lost (h : (s.replaceCandidate verdict c p).lost = false) :
    s.lost = false := by
  simp only [replaceCandidate, Bool.or_eq_false_iff] at h
  exact h.1

lemma mem_or_replaced (h : (s.replaceCandidate verdict c p).lost = false)
    (hp : s.live verdict p → c) (hq : q ∈ s.candidates) (hl : s.live verdict q) :
    q ∈ (s.replaceCandidate verdict c p).candidates ∨
    p ∈ (s.replaceCandidate verdict c p).candidates ∧ s.good verdict p ∧
      nChainWork proof p = nChainWork proof q := by
  by_cases hw : nChainWork proof q = nChainWork proof p
  case neg => exact .inl <| mem_replaceCandidate.mpr <| .inl ⟨hq, hw⟩
  by_cases he : q = p
  · exact .inl <| mem_replaceCandidate.mpr <| .inr ⟨hp (he ▸ hl), he⟩
  simp only [replaceCandidate, Bool.or_eq_false_iff, Bool.and_eq_false_iff,
    any_eq_false, mem_filter, Bool.not_eq_false', Bool.and_eq_true] at h
  cases h.2
  case inl hn => exact absurd hl (hn q ⟨hq, by simp [he, hw]⟩)
  case inr hg => exact .inr ⟨mem_replaceCandidate.mpr <| .inr ⟨hg.1, rfl⟩, hg.2, hw.symm⟩

lemma GuardedBy.replaceCandidate {c : Bool} (h : GuardedBy verdict s g) (hn : p ≠ [])
    (hp : s.live verdict p → c) (hs : (s.replaceCandidate verdict c p).lost = false) :
    ∃ g', GuardedBy verdict (s.replaceCandidate verdict c p) g' ∧
      nChainWork proof g' = nChainWork proof g := by
  have hcover q (hq : s.live verdict q) (hw : nChainWork proof g < nChainWork proof q) :
      Represented verdict (s.replaceCandidate verdict c p) q := by
    have ⟨r, hr, hw', hg⟩ := h.cover q hq hw
    have hl : s.live verdict r := by
      cases hg
      case inl he => exact he ▸ hq
      case inr hg => exact good_live hg (ne_nil_of_work_lt (hw' ▸ hw))
    cases mem_or_replaced hs hp hr hl
    case inl hr => exact ⟨r, hr, hw', hg⟩
    case inr hr => exact ⟨p, hr.1, hr.2.2.trans hw', .inr hr.2.1⟩
  cases mem_or_replaced hs hp h.mem (good_live h.good h.ne_nil)
  case inl hm => exact ⟨g, ⟨hm, h.ne_nil, h.good, hcover⟩, rfl⟩
  case inr hm =>
  have ⟨hm, hg, hw⟩ := hm
  exact ⟨p, ⟨hm, hn, hg, fun q hq hw' => hcover q hq (hw ▸ hw')⟩, hw⟩

lemma Tree.replaceCandidate {c : Bool} (h : Tree genesis s)
    (hp : c → (s.entry p).nChainTx ≠ 0) : Tree genesis (s.replaceCandidate verdict c p) := by
  have hc q (hq : q ∈ (s.replaceCandidate verdict c p).candidates) : (s.entry q).nChainTx ≠ 0 := by
    cases mem_replaceCandidate.mp hq
    case inl hq => exact h.candidates q hq.1
    case inr hq => exact hq.2 ▸ hp hq.1
  exact ⟨h.nodup, h.rooted, h.parent, h.data, h.counted, h.complete, h.unlinked, h.failedBlocks, hc⟩

lemma preciousBlock_guarded (hv : Fixed verdict) (h : Guarded verdict genesis s1 g)
    (hp : p ∈ s1.blocks) (hr : s1.preciousBlock verdict fuel p = some (b, s2))
    (hl : s2.lost = false) : ∃ g, Guarded verdict genesis s2 g := by
  let c := (s1.entry p).isValid BLOCK_VALID_TRANSACTIONS && (s1.entry p).nChainTx ≠ 0
  let s := s1.replaceCandidate verdict c p
  have hlive (hp : s1.live verdict p) : c := by
    have ⟨h1, h2⟩ := isValid_of_live h.wf.toTree hp
    simp [c, h1, h2]
  have ha : Active verdict genesis s := by
    refine ⟨h.wf.of_tree (h.wf.replaceCandidate fun hc => ?_) rfl, h.tip, h.good⟩
    simp only [c, Bool.and_eq_true, decide_eq_true_eq] at hc
    exact hc.2
  simp only [preciousBlock] at hr
  split at hr
  · cases hr
    exact ⟨g, h⟩
  split at hr
  · split at hr
    case h_1 => simp at hr
    rename_i s' hs'
    have hl' : s.lost = false := (Reflagged.prune hs').lost (activateOuter_lost hr hl)
    have ⟨g', hg', hw⟩ := h.guard.replaceCandidate (h.wf.ne_nil hp) hlive hl'
    have hg' := hg'.prune (hw ▸ h.above) hs'
    have ha' := ha.demotes (.prune hs') (by rw [pruneBlockIndexCandidates_eq hs'])
    exact ⟨_, activateBestChain_guarded hv ha' hg' hr hl⟩
  have hl' := activateOuter_lost hr hl
  have ⟨g', hg', _⟩ := h.guard.replaceCandidate (h.wf.ne_nil hp) hlive hl'
  exact ⟨_, activateBestChain_guarded hv ha hg' hr hl⟩

end

end Taler.ChainState
