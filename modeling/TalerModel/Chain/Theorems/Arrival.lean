import TalerModel.Chain.Theorems.Activate

namespace Taler.ChainState

open List

variable {β : Type} [DecidableEq β] {proof : β → Nat} {verdict : List β → List β → Verdict}
variable {genesis : β} {s s1 s2 : ChainState proof} {f g p q t : List β}

-- The invariant between two calls. The guard is never worse than the tip.
structure Guarded (verdict : List β → List β → Verdict) (genesis : β) (s : ChainState proof)
    (g : List β) : Prop extends Active verdict genesis s where
  guard : GuardedBy verdict s g
  above : nChainWork proof s.tip ≤ nChainWork proof g
  fair : s.displaced = false → g = s.tip ∨ nChainWork proof s.tip < nChainWork proof g

omit [DecidableEq β] in
lemma Guarded.of_tip_eq (h : Guarded verdict genesis s1 g) (ha : Active verdict genesis s2)
    (hg : GuardedBy verdict s2 g) (ht : s2.tip = s1.tip)
    (hd : s2.displaced = false → s1.displaced = false) : Guarded verdict genesis s2 g where
  toActive := ha
  guard := hg
  above := ht ▸ h.above
  fair hs := ht ▸ h.fair (hd hs)

omit [DecidableEq β] in
lemma Guarded.demotes (h : Guarded verdict genesis s1 g) (hd : Demotes verdict s1 s2)
    (hg : GuardedBy verdict s2 g) (ht : s2.tip = s1.tip) : Guarded verdict genesis s2 g :=
  h.of_tip_eq (h.toActive.demotes hd ht) hg ht (hd.displaced ▸ id)

lemma activateBestChain_guarded (hv : Fixed verdict) (h : Active verdict genesis s1)
    (hg : GuardedBy verdict s1 g) (hr : s1.activateBestChain verdict fuel = some (b, s2))
    (hl : s2.lost = false) : Guarded verdict genesis s2 s2.tip := by
  have ⟨_, ha, hb, _, g', hg', _⟩ := activateBestChain_spec hv h hg hr hl
  have hm := hb.max g' hg'.mem
  have hc p (hp : s2.live verdict p) (hw : nChainWork proof s2.tip < nChainWork proof p) :=
    hg'.cover p hp (Nat.lt_of_le_of_lt hm hw)
  exact ⟨ha, ⟨hb.mem, ha.tip, ha.good, hc⟩, Nat.le_refl _, fun _ => .inl rfl⟩

section

lemma addToBlockIndex_entry_ne (hq : q ≠ p) : (s.addToBlockIndex p flags).entry q = s.entry q :=
  setEntry_entry_ne s _ hq

lemma addToBlockIndex_entry_self (s : ChainState proof) (p : List β) (flags) :
    ((s.addToBlockIndex p flags).entry p).nTx = 0 ∧
    ((s.addToBlockIndex p flags).entry p).nChainTx = 0 ∧
    ((s.addToBlockIndex p flags).entry p).haveData = false := by
  simp [addToBlockIndex]

lemma Tree.addToBlockIndex (h : Tree genesis s) (hp : p ∉ s.blocks) (ht : p.tail ∈ s.blocks) :
    Tree genesis (s.addToBlockIndex p flags) := by
  have he q (hq : q ∈ s.blocks) : (s.addToBlockIndex p flags).entry q = s.entry q :=
    addToBlockIndex_entry_ne fun he => hp (he ▸ hq)
  have hb : (s.addToBlockIndex p flags).blocks = s.blocks ++ [p] := rfl
  have ⟨hx, hc, hd⟩ := addToBlockIndex_entry_self s p flags
  have hblocks q (hq : q ∈ (s.addToBlockIndex p flags).blocks) : q ∈ s.blocks ∨ q = p := by
    simpa [hb] using hq
  -- Whatever has transactions was there before, and is unchanged.
  have hold q (hq : (s.addToBlockIndex p flags).entry q ≠ (s.addToBlockIndex p flags).entry p) :
      (s.addToBlockIndex p flags).entry q = s.entry q :=
    addToBlockIndex_entry_ne fun he => hq (by rw [he])
  constructor
  case nodup =>
    exact h.nodup.append (nodup_singleton p) (by simpa using hp)
  case rooted =>
    intro q hq
    cases hblocks q hq
    case inl hq => exact h.rooted q hq
    case inr hq => exact hq ▸ (h.rooted _ ht).trans (tail_suffix p)
  case parent =>
    intro q hq hn
    refine hb ▸ mem_append_left _ ?_
    cases hblocks q hq
    case inl hq => exact h.parent q hq hn
    case inr hq => exact hq ▸ ht
  case data =>
    intro q hq
    have ho := hold q fun he => by simp [he, hd] at hq
    rw [ho] at hq ⊢
    have ⟨hm, h⟩ := h.data q hq
    exact ⟨hb ▸ mem_append_left _ hm, h⟩
  case counted =>
    intro q hq
    have ho := hold q fun he => by simp [he, hx] at hq
    rw [ho] at hq ⊢
    exact h.counted q hq
  case complete =>
    intro q hq
    have ho := hold q fun he => by simp [he, hc] at hq
    rw [ho] at hq ⊢
    have ⟨h1, h2⟩ := h.complete q hq
    exact ⟨h1, h2.imp_right fun h2 => by rwa [he _ (h.mem_of_complete h2)]⟩
  case unlinked =>
    intro c hc
    have ⟨h1, h2⟩ := h.unlinked c hc
    exact ⟨h1, by rwa [he _ (h.data _ h2).1]⟩
  case failedBlocks =>
    intro f hf
    have ⟨h1, h2⟩ := h.failedBlocks f hf
    exact ⟨hb ▸ mem_append_left _ h1, by rwa [he _ h1]⟩
  case candidates =>
  intro c hc
  rw [he _ (h.mem_of_candidate hc)]
  exact h.candidates c hc

lemma WellFormed.addToBlockIndex (h : WellFormed genesis s) (hp : p ∉ s.blocks)
    (ht : p.tail ∈ s.blocks) (hw : nChainWork proof p.tail < nChainWork proof p) :
    WellFormed genesis (s.addToBlockIndex p flags) := by
  refine ⟨h.toTree.addToBlockIndex hp ht, fun q hq hn => ?_⟩
  cases mem_append.mp hq
  case inl hq => exact h.grows q hq hn
  case inr hq => exact mem_singleton.mp hq ▸ hw

lemma Guarded.addToBlockIndex (h : Guarded verdict genesis s g) (hp : p ∉ s.blocks)
    (ht : p.tail ∈ s.blocks) (hw : nChainWork proof p.tail < nChainWork proof p) :
    Guarded verdict genesis (s.addToBlockIndex p flags) g := by
  have hc : (s.entry p).nChainTx = 0 := by
    by_contra hc
    exact hp (h.wf.mem_of_complete hc)
  have hn : p ≠ [] := fun he => by simp [he] at hw
  have hbad : s.good verdict p = false := by
    by_contra hg
    exact (good_iff.mp (by simpa using hg)).1 p suffix_rfl hn |>.right hc
  have hgood q (hq : s.good verdict q) : (s.addToBlockIndex p flags).good verdict q :=
    good_of_mark hbad hq
  have hlive q (hq : (s.addToBlockIndex p flags).live verdict q) : s.live verdict q := by
    have hne : q ≠ p := by
      intro he
      have ⟨_, hc, _⟩ := addToBlockIndex_entry_self s p flags
      exact (live_iff.mp hq).2.1 (he ▸ hc)
    have he : (s.addToBlockIndex p flags).entry q = s.entry q := addToBlockIndex_entry_ne hne
    have hc : (s.addToBlockIndex p flags).live verdict q = s.live verdict q :=
      live_congr (by rw [failed, failed, he]) (by rw [he])
    exact hc.symm.trans hq
  have ha : Active verdict genesis (s.addToBlockIndex p flags) :=
    ⟨h.wf.addToBlockIndex hp ht hw, h.tip, hgood _ h.good⟩
  exact h.of_tip_eq ha (h.guard.of_le rfl hgood hlive) rfl id

lemma markFailedChild_preserves (verdict) (hf : s.failed f) (hn : f ≠ []) (hs : f <:+ p) :
    Demotes verdict s (s.markFailedChild f p) ∧ (s.markFailedChild f p).tip = s.tip ∧
    (s.markFailedChild f p).lost = s.lost ∧
    (∀ g, GuardedBy verdict s g → GuardedBy verdict (s.markFailedChild f p) g) := by
  induction p generalizing s
  case nil => exact absurd (suffix_nil.mp hs) hn
  case cons b p hi =>
  simp only [markFailedChild]
  split
  · exact ⟨.refl s, rfl, rfl, fun _ => id⟩
  rename_i he
  let e := { s.entry (b :: p) with failedChild := true }
  have hf' : (s.setEntry (b :: p) e).failed f := by
    simpa [failed, setEntry_entry_ne s e (Ne.symm he)] using hf
  have hs' := suffix_cons_iff.mp hs |>.resolve_left (Ne.symm he)
  obtain ⟨hd, ht, hl, hg⟩ := hi hf' hs'
  have hb : s.good verdict (b :: p) = false := good_of_failed hf hs hn
  refine ⟨(Demotes.failedChild hb).trans hd, ht, hl, fun g h => hg g <| h.mark hb ?_⟩
  simp [e, IndexEntry.failed]

lemma failedAncestor_eq_some (h : s1.failedAncestor order p = some (some s2)) :
    ∃ f ∈ order, f <:+ p ∧ (s1.entry f).failedValid ∧ s2 = s1.markFailedChild f p := by
  simp only [failedAncestor] at h
  split at h
  · simp at h
  split at h
  case h_1 => simp at h
  rename_i f hf
  have ha : getAncestor p (nHeight f) = f := by simpa using find?_some hf
  split at h
  · simp at h
  rename_i hv
  cases h
  exact ⟨f, mem_of_find?_eq_some hf, ha ▸ getAncestor_isSuffix p _, by simpa using hv, rfl⟩

lemma Guarded.failedAncestor (h : Guarded verdict genesis s1 g)
    (ho : ∀ f ∈ order, f ∈ s1.failedBlocks) (hr : s1.failedAncestor order p = some (some s2)) :
    Guarded verdict genesis s2 g ∧ s2.lost = s1.lost := by
  obtain ⟨f, hf, hs, hv, he⟩ := failedAncestor_eq_some hr
  have hn := h.wf.ne_nil (h.wf.failedBlocks f (ho f hf)).1
  have hf : s1.failed f := by simp [failed, IndexEntry.failed, hv]
  obtain ⟨hd, ht, hl, hg⟩ := markFailedChild_preserves verdict hf hn hs
  subst he
  exact ⟨h.demotes hd (hg g h.guard) ht, hl⟩

end

section

omit [DecidableEq β] in
lemma tail_ne_self (h : p ≠ []) : p.tail ≠ p := by
  intro he
  have hl := congrArg length he
  have := length_pos_of_ne_nil h
  simp at hl
  omega

lemma Tree.setEntry (h : Tree genesis s) (hp : p ∈ s.blocks)
    (hd : (s.entry p).haveData → e.haveData) (ht : (s.entry p).nChainTx ≠ 0 → e.nChainTx ≠ 0)
    (hf : p ∈ s.failedBlocks → e.failedValid)
    (hdata : e.haveData → e.nTx ≠ 0 ∧ BLOCK_VALID_TRANSACTIONS ≤ e.validity)
    (hcounted : e.nTx ≠ 0 → e.haveData)
    (hcomplete : e.nChainTx ≠ 0 → e.haveData ∧ (p.tail = [] ∨ (s.entry p.tail).nChainTx ≠ 0)) :
    Tree genesis (s.setEntry p e) := by
  have he q (hq : q ≠ p) := setEntry_entry_ne s e hq
  have hc q (hq : (s.entry q).nChainTx ≠ 0) : ((s.setEntry p e).entry q).nChainTx ≠ 0 := by
    by_cases hqp : q = p
    · subst hqp
      simpa using ht hq
    · rwa [he q hqp]
  constructor
  case nodup => exact h.nodup
  case rooted => exact h.rooted
  case parent => exact h.parent
  case data =>
    intro q hq
    by_cases hqp : q = p
    · subst hqp
      simp only [setEntry_entry_self] at hq ⊢
      exact ⟨hp, hdata hq⟩
    rw [he q hqp] at hq ⊢
    exact h.data q hq
  case counted =>
    intro q hq
    by_cases hqp : q = p
    · subst hqp
      simp only [setEntry_entry_self] at hq ⊢
      exact hcounted hq
    rw [he q hqp] at hq ⊢
    exact h.counted q hq
  case complete =>
    intro q hq
    by_cases hqp : q = p
    · subst hqp
      rw [he _ (tail_ne_self (h.ne_nil hp))]
      simp only [setEntry_entry_self] at hq ⊢
      exact hcomplete hq
    rw [he q hqp] at hq ⊢
    exact (h.complete q hq).imp_right (Or.imp_right (hc _))
  case unlinked =>
    intro c hm
    have ⟨h1, h2⟩ := h.unlinked c hm
    refine ⟨h1, ?_⟩
    by_cases hqp : c.2 = p
    · simpa [hqp] using hd (hqp ▸ h2)
    · rwa [he _ hqp]
  case failedBlocks =>
    intro f hm
    have ⟨h1, h2⟩ := h.failedBlocks f hm
    refine ⟨h1, ?_⟩
    by_cases hqp : f = p
    · simpa [hqp] using hf (hqp ▸ hm)
    · rwa [he _ hqp]
  case candidates => exact fun c hm => hc c (h.candidates c hm)

lemma Tree.insertCandidateIf {c : Bool} (h : Tree genesis s)
    (hp : c → (s.entry p).nChainTx ≠ 0) : Tree genesis (s.insertCandidateIf verdict c p) := by
  cases c
  case false => exact h
  have hc q (hq : q ∈ (s.insertCandidate verdict p).candidates) : (s.entry q).nChainTx ≠ 0 := by
    cases KeyedSet.eq_or_mem_of_mem_insert hq
    case inl he => exact he ▸ hp rfl
    case inr hq => exact h.candidates q hq
  exact ⟨h.nodup, h.rooted, h.parent, h.data, h.counted, h.complete, h.unlinked, h.failedBlocks, hc⟩

omit [DecidableEq β] in
lemma Tree.setUnlinked (h : Tree genesis s)
    (hu : ∀ c ∈ u, c.1 = c.2.tail ∧ (s.entry c.2).haveData) :
    Tree genesis { s with unlinked := u } :=
  { h with unlinked := hu }

omit [DecidableEq β] in
lemma Guarded.setUnlinked (h : Guarded verdict genesis s g)
    (hu : ∀ c ∈ u, c.1 = c.2.tail ∧ (s.entry c.2).haveData) :
    Guarded verdict genesis { s with unlinked := u } g :=
  h.of_tip_eq ⟨h.wf.of_tree (h.wf.setUnlinked hu) rfl, h.tip, h.good⟩
    (h.guard.of_le rfl (fun _ => id) (fun _ => id)) rfl id

lemma linkBlock_entry_ne (h : q ≠ p) : (s.linkBlock verdict p).entry q = s.entry q := by
  simp [linkBlock, setEntry_entry_ne s _ h]

lemma linkBlock_entry_self : (s.linkBlock verdict p).entry p = s.linkedEntry p := by
  simp [linkBlock]

omit [DecidableEq β] in
lemma linkedEntry_nChainTx (h : (s.entry p).nTx ≠ 0) : (s.linkedEntry p).nChainTx ≠ 0 := by
  simp [linkedEntry, h]

lemma linkBlock_lost (h : (s.linkBlock verdict p).lost = false) : s.lost = false := by
  have hs := insertCandidateIf_lost h
  exact hs

-- A block that can be linked: its data is there, and its parent is complete.
def Linkable (s : ChainState proof) (p : List β) : Prop :=
  (s.entry p).haveData ∧ (p.tail = [] ∨ (s.entry p.tail).nChainTx ≠ 0)

lemma Linkable.linkBlock (h : Linkable s q) (hp : (s.entry p).nTx ≠ 0) :
    Linkable (s.linkBlock verdict p) q := by
  refine ⟨?_, h.2.imp_right fun h => ?_⟩
  · by_cases hq : q = p
    · subst hq
      simpa [linkBlock_entry_self, linkedEntry] using h.1
    · simpa [linkBlock_entry_ne hq] using h.1
  by_cases hq : q.tail = p
  · rw [hq, linkBlock_entry_self]
    exact linkedEntry_nChainTx hp
  · rwa [linkBlock_entry_ne hq]

section

variable (h : Tree genesis s)
include h

lemma Tree.linkBlock (hp : Linkable s p) : Tree genesis (s.linkBlock verdict p) := by
  have ⟨hb, hx, hv⟩ := h.data p hp.1
  have he := linkedEntry_nChainTx hx
  have hs : Tree genesis (s.setEntry p (s.linkedEntry p)) := by
    refine h.setEntry hb id (fun _ => he) ?_ (fun _ => ⟨hx, hv⟩) (h.counted p) (fun _ => hp)
    exact fun hm => (h.failedBlocks p hm).2
  exact hs.insertCandidateIf fun _ => by simpa using he

lemma Tree.linkable_child (hp : (s.entry p).haveData) (hc : c ∈ (s.linkBlock verdict p).unlinked)
    (he : c.1 = p) : Linkable (s.linkBlock verdict p) c.2 := by
  rw [ChainState.linkBlock, insertCandidateIf_unlinked] at hc
  have ⟨ht, hd⟩ := h.unlinked c hc
  have hx := (h.data p hp).2.1
  refine ⟨?_, .inr ?_⟩
  · by_cases hq : c.2 = p
    · rw [hq, linkBlock_entry_self]
      exact hp
    · rwa [linkBlock_entry_ne hq]
  rw [← ht, he, linkBlock_entry_self]
  exact linkedEntry_nChainTx hx

-- Every block in the queue is linkable when its turn comes, since linking never takes data away.
lemma Tree.linkable_queue (hq : ∀ q ∈ p :: queue, Linkable s q) :
    ∀ q ∈ queue ++ ((s.linkBlock verdict p).unlinked.filter (·.1 = p)).map Prod.snd,
      Linkable (s.linkBlock verdict p) q := by
  intro q hm
  have hp := hq p mem_cons_self
  cases mem_append.mp hm
  case inl hm =>
    exact hq q (mem_cons_of_mem p hm) |>.linkBlock (h.data p hp.1).2.1
  rename_i hm
  have ⟨c, hc, hcq⟩ := mem_map.mp hm
  have ⟨hc, hcp⟩ := mem_filter.mp hc
  exact hcq ▸ h.linkable_child hp.1 hc (of_decide_eq_true hcp)

lemma Tree.linkBlocks (hq : ∀ p ∈ queue, Linkable s p) :
    Tree genesis (linkBlocks verdict fuel queue s) := by
  induction fuel generalizing queue s
  case zero => exact h
  case succ fuel hi =>
  cases queue
  case nil => exact h
  case cons p queue =>
  have hs : Tree genesis (s.linkBlock verdict p) := h.linkBlock (hq p mem_cons_self)
  refine hi (hs.setUnlinked fun c hc => ?_) (h.linkable_queue hq)
  exact hs.unlinked c (mem_filter.mp hc).1

end

lemma Guarded.linkBlock (h : Guarded verdict genesis s g) (hp : Linkable s p)
    (hl : (s.linkBlock verdict p).lost = false) :
    Guarded verdict genesis (s.linkBlock verdict p) g := by
  obtain ⟨_, hx, _⟩ := h.wf.data p hp.1
  let s' := s.setEntry p (s.linkedEntry p)
  have he := linkedEntry_nChainTx hx
  have hf q : s'.failed q = s.failed q := by
    by_cases hq : q = p
    · simp [s', failed, hq, linkedEntry, IndexEntry.failed]
    · simp [s', failed, setEntry_entry_ne s _ hq]
  have hgood q (hq : s.good verdict q) : s'.good verdict q := by
    obtain ⟨hq, hc⟩ := good_iff.mp hq
    refine good_iff.mpr ⟨fun r hr hn => ⟨(hf r).trans (hq r hr hn).1, ?_⟩, hc⟩
    by_cases hrp : r = p
    · simpa [s', hrp] using he
    rw [setEntry_entry_ne s _ hrp]
    exact (hq r hr hn).2
  have hlive q (hn : q ≠ p) (hq : s'.live verdict q) : s.live verdict q := by
    rwa [live_congr (hf q) (by rw [setEntry_entry_ne s _ hn])] at hq
  have hwf : WellFormed genesis (s.linkBlock verdict p) :=
    h.wf.of_tree (h.wf.linkBlock hp) insertCandidateIf_blocks
  refine h.of_tip_eq ⟨hwf, ?_, ?_⟩ ?_ ?_ insertCandidateIf_displaced
  · simpa [ChainState.linkBlock] using h.tip
  · simpa [ChainState.linkBlock, s'] using hgood _ h.good
  · refine h.guard.insertCandidateIf rfl hgood hlive (fun _ hw => ?_) hl
    have := h.above
    simp only [Bool.or_eq_true, decide_eq_true_eq]
    exact .inr (this.trans (Nat.le_of_lt hw))
  · simp [ChainState.linkBlock]

lemma linkBlocks_lost (h : (linkBlocks verdict fuel queue s).lost = false) : s.lost = false := by
  induction fuel generalizing queue s
  case zero => exact h
  case succ fuel hi =>
  cases queue
  case nil => exact h
  case cons p queue =>
  have hs := hi h
  exact linkBlock_lost hs

lemma Guarded.linkBlocks (h : Guarded verdict genesis s g) (hq : ∀ p ∈ queue, Linkable s p)
    (hl : (linkBlocks verdict fuel queue s).lost = false) :
    Guarded verdict genesis (linkBlocks verdict fuel queue s) g := by
  induction fuel generalizing queue s
  case zero => exact h
  case succ fuel hi =>
  cases queue
  case nil => exact h
  case cons p queue =>
  simp only [ChainState.linkBlocks] at hl ⊢
  have hls := linkBlocks_lost hl
  have hs := h.linkBlock (hq p mem_cons_self) hls
  refine hi (hs.setUnlinked fun c hc => ?_) (h.wf.linkable_queue hq) hl
  exact hs.wf.unlinked c (mem_filter.mp hc).1

lemma raiseValidity_spec (e : IndexEntry) (n) (hf : e.failed = false) :
    e.raiseValidity n = { e with validity := max e.validity n } := by
  simp [IndexEntry.raiseValidity, hf]

def receivedEntry (s : ChainState proof) (p : List β) (nTx : Nat) : IndexEntry :=
  let e := { s.entry p with nTx := nTx, nChainTx := 0, haveData := true }
  e.raiseValidity BLOCK_VALID_TRANSACTIONS

omit [DecidableEq β] in
lemma receivedEntry_eq (hf : s.failed p = false) :
    s.receivedEntry p nTx =
    { s.entry p with
      nTx := nTx
      nChainTx := 0
      haveData := true
      validity := max (s.entry p).validity BLOCK_VALID_TRANSACTIONS } :=
  raiseValidity_spec _ _ hf

variable {nTx : Nat}

lemma Tree.receive (h : Tree genesis s) (hp : p ∈ s.blocks) (hf : s.failed p = false)
    (hd : (s.entry p).haveData = false) (hx : nTx ≠ 0) :
    Tree genesis (s.setEntry p (s.receivedEntry p nTx)) := by
  have hc : (s.entry p).nChainTx = 0 := by
    by_contra hc
    simp [(h.complete p hc).1] at hd
  rw [receivedEntry_eq hf]
  refine h.setEntry hp ?_ ?_ (fun hm => (h.failedBlocks p hm).2) ?_ ?_ ?_
  · simp [hd]
  · simp [hc]
  · simp [hx]
  · simp
  · simp

lemma receivedBlockTransactions_cases (verdict) (hs : s' = s.setEntry p (s.receivedEntry p nTx)) :
    (p.tail = [] ∨ (s'.entry p.tail).nChainTx ≠ 0) ∧ s.receivedBlockTransactions verdict p nTx =
        linkBlocks verdict (s'.unlinked.length + 1) [p] s' ∨
    (p.tail ≠ [] ∧ (s'.entry p.tail).nChainTx = 0 ∧ (s'.entry p.tail).isValid BLOCK_VALID_TREE) ∧
      s.receivedBlockTransactions verdict p nTx =
        { s' with unlinked := s'.unlinked ++ [(p.tail, p)] } ∨
    (p.tail ≠ [] ∧ (s'.entry p.tail).nChainTx = 0 ∧
        (s'.entry p.tail).isValid BLOCK_VALID_TREE = false) ∧
      s.receivedBlockTransactions verdict p nTx = s' := by
  have hr : s.receivedBlockTransactions verdict p nTx =
      if p.tail = [] || (s'.entry p.tail).nChainTx ≠ 0 then
        linkBlocks verdict (s'.unlinked.length + 1) [p] s'
      else if (s'.entry p.tail).isValid BLOCK_VALID_TREE then
        { s' with unlinked := s'.unlinked ++ [(p.tail, p)] }
      else s' := hs ▸ rfl
  rw [hr]
  split
  case isTrue hq => exact .inl ⟨by simpa using hq, rfl⟩
  rename_i hq
  have ⟨ht, hc⟩ : p.tail ≠ [] ∧ (s'.entry p.tail).nChainTx = 0 := by simpa using hq
  split
  case isTrue hv => exact .inr <| .inl ⟨⟨ht, hc, hv⟩, rfl⟩
  case isFalse hv => exact .inr <| .inr ⟨⟨ht, hc, by simpa using hv⟩, rfl⟩

lemma Tree.receivedBlockTransactions (h : Tree genesis s) (hp : p ∈ s.blocks)
    (hf : s.failed p = false) (hd : (s.entry p).haveData = false) (hx : nTx ≠ 0) :
    Tree genesis (s.receivedBlockTransactions verdict p nTx) := by
  have hs := h.receive hp hf hd hx
  have hd' : ((s.setEntry p (s.receivedEntry p nTx)).entry p).haveData := by
    rw [setEntry_entry_self, receivedEntry_eq hf]
  rcases receivedBlockTransactions_cases verdict rfl with ⟨ht, he⟩ | ⟨_, he⟩ | ⟨_, he⟩
  all_goals rw [he]
  · refine hs.linkBlocks fun q hq => ?_
    rw [mem_singleton.mp hq]
    exact ⟨hd', ht⟩
  · refine hs.setUnlinked fun c hm => ?_
    cases mem_append.mp hm
    case inl hm => exact hs.unlinked c hm
    case inr hm => exact mem_singleton.mp hm ▸ ⟨rfl, hd'⟩
  · exact hs

lemma Guarded.receivedBlockTransactions (h : Guarded verdict genesis s g) (hp : p ∈ s.blocks)
    (hf : s.failed p = false) (hd : (s.entry p).haveData = false) (hx : nTx ≠ 0)
    (hl : (s.receivedBlockTransactions verdict p nTx).lost = false) :
    Guarded verdict genesis (s.receivedBlockTransactions verdict p nTx) g := by
  have hc : (s.entry p).nChainTx = 0 := by
    by_contra hc
    simp [(h.wf.complete p hc).1] at hd
  let s' := s.setEntry p (s.receivedEntry p nTx)
  have he : s.receivedEntry p nTx = _ := receivedEntry_eq hf
  have hfail q : s'.failed q = s.failed q := by
    by_cases hq : q = p
    · simp [s', failed, hq, he, IndexEntry.failed]
    · simp [s', failed, setEntry_entry_ne s _ hq]
  have hcount q : (s'.entry q).nChainTx = (s.entry q).nChainTx := by
    by_cases hq : q = p
    · simp [s', hq, he, hc]
    · simp [s', setEntry_entry_ne s _ hq]
  have hgood q : s'.good verdict q = s.good verdict q :=
    good_congr (fun r _ _ => hfail r) (fun r _ _ => hcount r)
  have hlive q : s'.live verdict q = s.live verdict q := live_congr (hfail q) (hcount q)
  have hs : Guarded verdict genesis s' g := by
    have hwf := h.wf.of_tree (h.wf.receive hp hf hd hx) rfl
    refine h.of_tip_eq ⟨hwf, h.tip, ?_⟩ (h.guard.of_le rfl ?_ ?_) rfl id
    · exact (hgood _).trans h.good
    · exact fun q => (hgood q ▸ id)
    · exact fun q => (hlive q ▸ id)
  have hd' : (s'.entry p).haveData := by simp [s', he]
  rcases receivedBlockTransactions_cases verdict rfl with ⟨ht, hr⟩ | ⟨_, hr⟩ | ⟨_, hr⟩
  all_goals rw [hr] at hl ⊢
  · refine hs.linkBlocks (fun q hq => ?_) hl
    exact mem_singleton.mp hq ▸ ⟨hd', ht⟩
  · refine hs.setUnlinked fun c hm => ?_
    cases mem_append.mp hm
    case inl hm => exact hs.wf.unlinked c hm
    case inr hm => exact mem_singleton.mp hm ▸ ⟨rfl, hd'⟩
  · exact hs

lemma Guarded.markFailedValid (h : Guarded verdict genesis s g) (hp : p ∈ s.blocks)
    (hd : (s.entry p).haveData = false) :
    Guarded verdict genesis (s.setEntry p { s.entry p with failedValid := true }) g := by
  have hb : s.good verdict p = false := by
    by_contra hg
    have hc := (good_iff.mp (by simpa using hg)).1 p suffix_rfl (h.wf.ne_nil hp) |>.right
    simp [(h.wf.complete p hc).1] at hd
  exact h.demotes (.failedValid hb) (h.guard.mark hb (by simp [IndexEntry.failed])) rfl

end

end Taler.ChainState
