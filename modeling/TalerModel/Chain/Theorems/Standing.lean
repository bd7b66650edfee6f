import TalerModel.Chain.Theorems.Move

namespace Taler.ChainState

open ChainState

variable {β : Type} [DecidableEq β] {proof : β → Nat} {verdict : List β → List β → Verdict}
variable {genesis : β} {s s1 s2 s3 : ChainState proof} {p q t : List β}
variable {done order : List (List β)}

section

-- Only transaction counts differ, and no complete block becomes incomplete.
structure Counts (s1 s2 : ChainState proof) : Prop where
  blocks : s2.blocks = s1.blocks
  tip : s2.tip = s1.tip
  failedBlocks : s2.failedBlocks = s1.failedBlocks
  entry : ∀ q, ∃ n, s2.entry q = { s1.entry q with nChainTx := n } ∧
                   ((s1.entry q).nChainTx ≠ 0 → n ≠ 0)

namespace Counts

section

omit [DecidableEq β]

lemma refl (s : ChainState proof) : Counts s s :=
  ⟨rfl, rfl, rfl, fun _ => ⟨_, rfl, id⟩⟩

lemma trans (h1 : Counts s1 s2) (h2 : Counts s2 s3) : Counts s1 s3 := by
  refine ⟨h2.blocks.trans h1.blocks, h2.tip.trans h1.tip, h2.failedBlocks.trans h1.failedBlocks, ?_⟩
  intro q
  have ⟨n1, he1, hn1⟩ := h1.entry q
  have ⟨n2, he2, hn2⟩ := h2.entry q
  rw [he1] at he2 hn2
  exact ⟨n2, he2, fun h => hn2 (hn1 h)⟩

lemma failed (h : Counts s1 s2) (q) : s2.failed q = s1.failed q := by
  have ⟨_, he, _⟩ := h.entry q
  rw [ChainState.failed, he]
  rfl

lemma clean (h : Counts s1 s2) (hc : s1.Clean q) : s2.Clean q := by
  intro r hr hn
  have ⟨n, he, hx⟩ := h.entry r
  rw [h.failed, he]
  exact ⟨(hc r hr hn).1, hx (hc r hr hn).2⟩

end

end Counts

lemma insertCandidateIf_failedBlocks :
    (s.insertCandidateIf verdict c p).failedBlocks = s.failedBlocks := by
  cases c <;> rfl

lemma linkBlock_counts (hx : (s.entry p).nTx ≠ 0) : Counts s (s.linkBlock verdict p) := by
  refine ⟨insertCandidateIf_blocks, insertCandidateIf_tip, insertCandidateIf_failedBlocks, ?_⟩
  intro q
  by_cases hq : q = p
  · subst hq
    exact ⟨_, linkBlock_entry_self, fun _ => linkedEntry_nChainTx hx⟩
  · exact ⟨_, linkBlock_entry_ne hq, id⟩

lemma linkBlocks_counts (h : Tree genesis s) (hq : ∀ p ∈ queue, Linkable s p) :
    Counts s (linkBlocks verdict fuel queue s) := by
  induction fuel generalizing queue s
  case zero => exact .refl s
  case succ fuel hi =>
  cases queue
  case nil => exact .refl s
  case cons p queue =>
  have hp := hq p List.mem_cons_self
  let s' := s.linkBlock verdict p
  have hs : Tree genesis s' := h.linkBlock hp
  have hc : Counts s s' := linkBlock_counts (h.data p hp.1).2.1
  have hu : Tree genesis { s' with unlinked := s'.unlinked.filter (·.1 ≠ p) } :=
    hs.setUnlinked fun c hc => hs.unlinked c (List.mem_filter.mp hc).1
  have hl := hi hu (h.linkable_queue hq)
  exact hc.trans ⟨hl.blocks, hl.tip, hl.failedBlocks, hl.entry⟩

lemma receivedBlockTransactions_counts (verdict : List β → List β → Verdict) (h : Tree genesis s)
    (hp : p ∈ s.blocks) (hf : s.failed p = false) (hd : (s.entry p).haveData = false) (hx : nTx ≠ 0) :
    Counts (s.setEntry p (s.receivedEntry p nTx)) (s.receivedBlockTransactions verdict p nTx) := by
  let s' := s.setEntry p (s.receivedEntry p nTx)
  have hd' : (s'.entry p).haveData := by
    rw [setEntry_entry_self, receivedEntry_eq hf]
  rcases receivedBlockTransactions_cases verdict rfl with ⟨ht, he⟩ | ⟨_, he⟩ | ⟨_, he⟩
  all_goals rw [he]
  · refine linkBlocks_counts (h.receive hp hf hd hx) fun q hq => ?_
    rw [List.mem_singleton.mp hq]
    exact ⟨hd', ht⟩
  · exact ⟨rfl, rfl, rfl, (Counts.refl s').entry⟩
  · exact .refl s'

omit [DecidableEq β] in
lemma Standing.not_suffix_of_no_data (h : Standing genesis s) (hn : p ≠ [])
    (hd : (s.entry p).haveData = false) : ¬p <:+ s.tip := by
  intro hp
  have hd' := h.complete p (h.clean p hp hn).2 |>.left
  simp [hd] at hd'

lemma Standing.receivedBlockTransactions (h : Standing genesis s) (hp : p ∈ s.blocks)
    (hf : s.failed p = false) (hd : (s.entry p).haveData = false) (hx : nTx ≠ 0) :
    Standing genesis (s.receivedBlockTransactions verdict p nTx) := by
  have hc := receivedBlockTransactions_counts verdict h.toTree hp hf hd hx
  refine ⟨h.toTree.receivedBlockTransactions hp hf hd hx, hc.tip ▸ h.tip, hc.clean ?_⟩
  rw [hc.tip]
  exact h.clean.setEntry _ (h.not_suffix_of_no_data (h.ne_nil hp) hd)

lemma Standing.markFailedValid (h : Standing genesis s) (hp : p ∈ s.blocks)
    (hd : (s.entry p).haveData = false) :
    Standing genesis (s.setEntry p { s.entry p with failedValid := true }) := by
  have hr : Reflagged s (s.setEntry p { s.entry p with failedValid := true }) :=
    .setEntry rfl rfl rfl (Nat.le_refl _) fun _ => rfl
  exact h.setEntry (h.not_suffix_of_no_data (h.ne_nil hp) hd) (hr.tree h.toTree)

lemma Standing.addToBlockIndex (h : Standing genesis s) (hp : p ∉ s.blocks)
    (ht : p.tail ∈ s.blocks) : Standing genesis (s.addToBlockIndex p flags) := by
  have hn : p ≠ [] := fun he => h.ne_nil ht (by simp [he])
  refine ⟨h.toTree.addToBlockIndex hp ht, h.tip, h.clean.setEntry _ fun hs => hp ?_⟩
  exact h.suffix_mem h.tip_mem hs hn

lemma Standing.acceptHeader (h : Standing genesis s1) (hp : p ∉ s1.blocks)
    (ht : p.tail ∈ s1.blocks) (ho : failedOrder.Perm s1.failedBlocks)
    (hr : s1.acceptHeader failedOrder p flags = some s2) : Standing genesis s2 := by
  rcases acceptHeader_cases hr with hr | hr | hr
  · exact hr ▸ h
  · have hm : Moves (fun _ _ => .accept) s1 s2 := failedAncestor_moves h ho hr
    exact Moves.standing hm h
  · exact hr ▸ h.addToBlockIndex hp ht

end

section

lemma markInvalid_moves (ha : ¬p <:+ s.tip) (h : p <:+ t) :
    Moves verdict s (s.markInvalid p t) := by
  induction t generalizing s
  case nil => exact .refl
  case cons b t hi =>
  simp only [markInvalid]
  split
  · exact .refl
  rename_i hn
  have hp := List.suffix_cons_iff.mp h |>.resolve_left (Ne.symm hn)
  let s' := s.setEntry (b :: t) { s.entry (b :: t) with failedChild := true }
  have hm : Move verdict s s' := .mark fun hb => ha (h.trans hb)
  have hd : Move verdict s' { s' with candidates := s'.candidates.erase (b :: t) } :=
    .drop _ s'.lost (fun c hc => (KeyedSet.mem_erase.mp hc).1) id
  exact .head hm <| .head hd <| hi ha hp

lemma Standing.markFailed (h : Standing genesis s) (hp : p ∈ s.blocks) (ha : ¬p <:+ s.tip) :
    Standing genesis (s.markFailed p) := by
  have ⟨hr, _, he⟩ := markFailed_spec hp
  refine ⟨hr.tree h.toTree, h.tip, h.clean.congr (fun q hq => ?_) (fun q _ => hr.nChainTx q)⟩
  rw [failed, failed, he q fun hpq => ha (hpq.trans hq)]

lemma Standing.insertCandidateIf (h : Standing genesis s)
    (ht : Tree genesis (s.insertCandidateIf verdict c p)) :
    Standing genesis (s.insertCandidateIf verdict c p) := by
  refine ⟨ht, by simpa using h.tip, ?_⟩
  rw [insertCandidateIf_tip]
  exact h.clean.congr (fun q _ => by rw [failed, failed, insertCandidateIf_entry])
    (fun q _ => by rw [insertCandidateIf_entry])

lemma Standing.readdCandidates (h : Standing genesis s) :
    Standing genesis (order.foldl (readdCandidate verdict) s) := by
  induction order generalizing s
  case nil => exact h
  case cons q order hi => exact hi (h.insertCandidateIf h.toTree.readdCandidate)

omit [DecidableEq β] in
lemma disconnectWhile_done (hn : t ≠ []) (h : (disconnectWhile again t).2 = true) :
    again (disconnectWhile again t).1 = false := by
  induction t
  case nil => exact absurd rfl hn
  case cons b t hi =>
  cases t
  case nil => simpa [disconnectWhile] using h
  case cons c t =>
  simp only [disconnectWhile] at h ⊢
  split
  case isTrue hb =>
    rw [if_pos hb] at h
    exact hi (by simp) h
  case isFalse hb => simpa using hb

lemma invalidateBlock_cases (verdict order p) (hs : Standing genesis s1)
    (h : (s1.invalidateBlock verdict order p).2 = s2) :
    ∃ t, t <:+ s1.tip ∧ t ≠ [] ∧ (s2 = { s1 with tip := t } ∨ ¬p <:+ t ∧ ∃ walk, p <:+ walk ∧
        (walk = if s1.contains p then s1.tip else p) ∧ s2 = order.foldl (readdCandidate verdict)
          (({ s1 with tip := t }.markInvalid p walk).markFailed p)) := by
  have ⟨ht, hn⟩ := disconnectWhile_suffix (p.isSuffixOf ·) hs.tip
  refine ⟨_, ht, hn, ?_⟩
  simp only [invalidateBlock] at h
  split at h
  · exact .inl h.symm
  rename_i hd
  refine .inr ⟨?_, _, ?_, rfl, h.symm⟩
  · have ha := disconnectWhile_done hs.tip (by simpa using hd)
    exact fun hp => Bool.eq_false_iff.mp ha (List.isSuffixOf_iff_suffix.mpr hp)
  split
  case isTrue hc => exact (contains_iff.mp hc).2
  · exact List.suffix_rfl

lemma Standing.invalidateBlock (h : Standing genesis s) (hp : p ∈ s.blocks) :
    Standing genesis (s.invalidateBlock verdict order p).2 := by
  have ⟨t, ht, hn, hc⟩ := invalidateBlock_cases verdict order p h rfl
  have hs := h.setTip ht hn
  rcases hc with he | ⟨ha, walk, hw, _, he⟩
  · exact he ▸ hs
  rw [he]
  have hm : Moves verdict { s with tip := t } _ := markInvalid_moves ha hw
  have ⟨hr, htip, _⟩ := markInvalid_spec (s := { s with tip := t }) hw
  have hp' : p ∈ ({ s with tip := t }.markInvalid p walk).blocks := by
    rw [hr.blocks]
    exact hp
  exact (Moves.standing hm hs).markFailed hp' (htip ▸ ha) |>.readdCandidates

lemma Clean.clearFailed (h : s.Clean q) : (s.clearFailed p).Clean q := by
  intro r hr hn
  rw [clearFailed_nChainTx]
  exact ⟨clearFailed_failed (h r hr hn).1, (h r hr hn).2⟩

section

variable (h : Standing genesis s)
include h

lemma Standing.clearFailed (hp : p ∈ s.blocks) : Standing genesis (s.clearFailed p) :=
  ⟨h.toTree.clearFailed hp, h.tip, h.clean.clearFailed⟩

lemma Standing.resetDescendant (hq : q ∈ s.blocks) :
    Standing genesis (s.resetDescendant verdict p q) := by
  have ht : Tree genesis (s.resetDescendant verdict p q) := h.toTree.resetDescendant hq
  simp only [ChainState.resetDescendant] at ht ⊢
  split at ht
  case isTrue hc =>
    rw [if_pos hc]
    exact (h.clearFailed hq).insertCandidateIf ht
  case isFalse hc =>
  rw [if_neg hc]
  exact h

lemma Standing.resetDescendants (ho : ∀ q ∈ order, q ∈ s.blocks) :
    Standing genesis (order.foldl (ChainState.resetDescendant verdict p) s) := by
  induction order generalizing s
  case nil => exact h
  case cons q order hi =>
  refine hi (h.resetDescendant (ho q List.mem_cons_self)) fun r hr => ?_
  rw [resetDescendant_blocks]
  exact ho r (List.mem_cons_of_mem q hr)

lemma Standing.resetAncestors (hp : p = [] ∨ p ∈ s.blocks) :
    Standing genesis (s.resetAncestors p) := by
  induction p generalizing s
  case nil => exact h
  case cons b p hi =>
  have hb := hp.resolve_left (by simp)
  have ht := h.parent_or_nil hb
  simp only [resetAncestors]
  split
  · exact hi (h.clearFailed hb) ht
  · exact hi h ht

lemma Standing.resetBlockFailureFlags (hp : p ∈ s.blocks) (ho : ∀ q ∈ order, q ∈ s.blocks) :
    Standing genesis (s.resetBlockFailureFlags verdict order p) := by
  refine (h.resetDescendants ho).resetAncestors (.inr ?_)
  rwa [foldl_resetDescendant_blocks]

end

section

variable (h : Standing genesis s1) (hr : s1.preciousBlock verdict fuel p = some (b, s2))
include h hr

lemma preciousBlock_moves :
    s2 = s1 ∨ ∃ c, Standing genesis (s1.replaceCandidate verdict c p) ∧
      Moves verdict (s1.replaceCandidate verdict c p) s2 := by
  simp only [preciousBlock] at hr
  split at hr
  · cases hr
    exact .inl rfl
  let c := (s1.entry p).isValid BLOCK_VALID_TRANSACTIONS && (s1.entry p).nChainTx ≠ 0
  have hc : c → (s1.entry p).nChainTx ≠ 0 := by
    intro hc
    simp only [c, Bool.and_eq_true, decide_eq_true_eq] at hc
    exact hc.2
  have hs : Standing genesis (s1.replaceCandidate verdict c p) :=
    ⟨h.toTree.replaceCandidate hc, h.tip, h.clean⟩
  refine .inr ⟨c, hs, ?_⟩
  split at hr
  · split at hr
    case h_1 => simp at hr
    case h_2 s hp =>
    have hm : Move verdict _ s := prune_move hp
    exact .head hm (activateBestChain_moves (hm.standing hs) hr)
  · exact activateBestChain_moves hs hr

lemma Standing.preciousBlock : Standing genesis s2 := by
  rcases preciousBlock_moves h hr with he | ⟨c, hs, hm⟩
  · exact he ▸ h
  · exact Moves.standing hm hs

end

end

section

lemma Standing.load (verdict) (h : Standing genesis s) (ho : order.Perm s.blocks)
    (hs : order.Pairwise (·.length ≤ ·.length)) :
    ∃ done, Reloading genesis (order.foldl (loadEntry verdict) s.reloaded) done ∧
      ∀ p ∈ s.blocks, p ∈ done :=
  load_rule verdict (fun _ _ _ h hp hd ht => h.loadEntry hp hd ht) (h.reloading h.tip_mem h.clean)
    h.toTree.reloaded ho hs

omit [DecidableEq β] in
lemma Reloading.standing (h : Reloading genesis s done) (hd : ∀ p ∈ s.blocks, p ∈ done) :
    Standing genesis s where
  toTree := h.tree
  tip := h.tree.ne_nil h.tip
  clean q hq hn :=
    ⟨(h.unflagged q hq hn).1, h.linked q hq hn (hd q (h.tree.suffix_mem h.tip hq hn))⟩

lemma Standing.restart (h : Standing genesis s1) (ho : order.Perm s1.blocks)
    (hs : order.Pairwise (·.length ≤ ·.length)) (hr : s1.restart verdict order = some s2) :
    Standing genesis s2 := by
  have ⟨done, hl, hd⟩ := h.load verdict ho hs
  have hm : Move verdict _ s2 := prune_move hr
  refine hm.standing (hl.standing fun p hp => hd p ?_)
  rwa [foldl_loadEntry_blocks] at hp

end

lemma Standing.perform (h : Standing genesis s1) (he : e.Legal s1)
    (hr : s1.perform verdict e = some s2) : Standing genesis s2 := by
  cases e <;>
    simp only [ChainState.perform, Option.some.injEq, Option.map_eq_some_iff, Prod.exists] at hr
  case header =>
    obtain ⟨hp, ht, ho⟩ := he
    exact h.acceptHeader hp ht ho hr
  case block =>
    obtain ⟨hp, hx, hf, hd⟩ := he
    exact hr ▸ h.receivedBlockTransactions hp hf hd hx
  case invalidData =>
    obtain ⟨hp, _, hd⟩ := he
    exact hr ▸ h.markFailedValid hp hd
  case activate =>
    obtain ⟨b, s, hr', hs⟩ := hr
    subst hs
    exact Moves.standing (activateBestChain_moves h hr') h
  case invalidate => exact hr ▸ h.invalidateBlock he.1
  case reset =>
    obtain ⟨hp, ho⟩ := he
    exact hr ▸ h.resetBlockFailureFlags hp fun q hq => ho.mem_iff.mp hq
  case precious =>
    obtain ⟨b, s, hr', hs⟩ := hr
    subst hs
    exact h.preciousBlock hr'
  case restart => exact h.restart he.1 he.2 hr

lemma init_standing (hx : nTx ≠ 0) : Standing genesis (init proof genesis nTx) := by
  refine ⟨init_tree hx, by simp [init], fun q hq hn => ?_⟩
  have hq : q = [genesis] := (List.suffix_cons_iff.mp hq).resolve_right (by simpa using hn)
  rw [failed, hq, init_entry_self]
  exact ⟨rfl, hx⟩

end Taler.ChainState
