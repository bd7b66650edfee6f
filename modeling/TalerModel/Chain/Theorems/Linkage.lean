import TalerModel.Chain.Theorems.Quarantine

namespace Taler.ChainState

open List

variable {β : Type} [DecidableEq β] {proof : β → Nat} {verdict : List β → List β → Verdict}
variable {genesis : β} {s s1 s2 : ChainState proof} {p q t : List β}
variable {done order : List (List β)} {events : List (Event β)}

-- What `nChainTx` stands for: the transactions up to a block, if all have been received.
def chainTx (s : ChainState proof) : List β → Nat
  | [] => 0
  | b :: pprev =>
    if (s.entry (b :: pprev)).nTx ≠ 0 ∧ (pprev = [] ∨ s.chainTx pprev ≠ 0) then
      s.chainTx pprev + (s.entry (b :: pprev)).nTx
    else 0

-- The counts while `queue` is to be linked. No one in `mapBlocksUnlinked` has a complete parent.
structure Linking (s : ChainState proof) (queue : List (List β)) : Prop where
  sum : ∀ p, (s.entry p).nChainTx ≠ 0 →
             (s.entry p).nChainTx =
             (if p.tail = [] then 0 else (s.entry p.tail).nChainTx) + (s.entry p).nTx
  parked : ∀ p, (s.entry p).nTx ≠ 0 → (s.entry p).nChainTx = 0 →
             (p.tail, p) ∈ s.unlinked ∨ p ∈ queue
  waits : ∀ c ∈ s.unlinked, c.1 ≠ [] ∧ (s.entry c.1).nChainTx = 0
  header : ∀ p ∈ s.blocks, BLOCK_VALID_TREE ≤ (s.entry p).validity

omit [DecidableEq β] in
lemma Linking.nChainTx_eq (h : Linking s []) (ht : Tree genesis s) (p) (hn : p ≠ []) :
    (s.entry p).nChainTx = s.chainTx p := by
  induction p
  case nil => exact absurd rfl hn
  case cons b p hi =>
  have hp (hpn : p ≠ []) := hi hpn
  simp only [chainTx]
  by_cases hc : (s.entry (b :: p)).nChainTx = 0
  · rw [hc, if_neg]
    intro ⟨hx, ht⟩
    have hm := (h.parked _ hx hc).resolve_right (by simp)
    have ⟨hpn, hz⟩ := h.waits _ hm
    exact ht.elim hpn (hp hpn ▸ absurd hz)
  have ⟨hd, hpar⟩ := ht.complete _ hc
  have hx := (ht.data _ hd).2.1
  rw [h.sum _ hc]
  by_cases hpn : p = []
  · simp [hpn, chainTx]
  have hpc := hpar.resolve_left hpn
  rw [tail_cons, if_neg hpn, if_pos ⟨hx, .inr (hp hpn ▸ hpc)⟩, hp hpn]

section

lemma Linking.linkBlock (h : Linking s (p :: queue)) (ht : Tree genesis s) (hp : Linkable s p) :
    Linking { s.linkBlock verdict p with
        unlinked := (s.linkBlock verdict p).unlinked.filter (·.1 ≠ p) }
      (queue ++ ((s.linkBlock verdict p).unlinked.filter (·.1 = p)).map Prod.snd) := by
  have ⟨hb, hx, _⟩ := ht.data p hp.1
  have hn := ht.ne_nil hb
  have hu : (s.linkBlock verdict p).unlinked = s.unlinked := insertCandidateIf_unlinked
  have hself : ((s.linkBlock verdict p).entry p).nChainTx =
      (if p.tail = [] then 0 else (s.entry p.tail).nChainTx) + (s.entry p).nTx := by
    rw [linkBlock_entry_self]
    rfl
  have hsame (hc : (s.entry p).nChainTx ≠ 0) :
      ((s.linkBlock verdict p).entry p).nChainTx = (s.entry p).nChainTx :=
    hself.trans (h.sum p hc).symm
  have hx' : ((s.linkBlock verdict p).entry p).nTx = (s.entry p).nTx := by
    rw [linkBlock_entry_self]
    rfl
  have hne q (hq : q ≠ p) : (s.linkBlock verdict p).entry q = s.entry q := linkBlock_entry_ne hq
  refine ⟨fun q hq => ?_, fun q hq hc => ?_, fun c hc => ?_, fun q hq => ?_⟩
  · by_cases hqp : q = p
    · subst hqp
      refine hself.trans ?_
      rw [hne _ (tail_ne_self hn), hx']
    rw [hne q hqp] at hq ⊢
    rw [h.sum q hq]
    by_cases hqt : q.tail = p
    · have hc := (ht.complete q hq).2.resolve_left (hqt ▸ hn)
      rw [hqt] at hc ⊢
      rw [hsame hc]
    · rw [hne _ hqt]
  · have hqp : q ≠ p := by
      rintro rfl
      have : ((s.linkBlock verdict q).entry q).nChainTx = 0 := hc
      omega
    rw [hne q hqp] at hq hc
    rw [hu]
    rcases h.parked q hq hc with hm | hm
    · by_cases hqt : q.tail = p
      · refine .inr <| mem_append_right _ <| mem_map.mpr ⟨(q.tail, q), ?_, rfl⟩
        exact mem_filter.mpr ⟨hm, by simpa using hqt⟩
      · exact .inl <| mem_filter.mpr ⟨hm, by simpa using hqt⟩
    · exact .inr <| mem_append_left _ <| mem_of_ne_of_mem hqp hm
  · have ⟨hm, hcp⟩ := mem_filter.mp (hu ▸ hc)
    have hcp : c.1 ≠ p := by simpa using hcp
    rw [hne _ hcp]
    exact h.waits c hm
  have hq : q ∈ s.blocks := insertCandidateIf_blocks (s := s.setEntry p _) ▸ hq
  refine (h.header q hq).trans (Nat.le_of_eq ?_)
  by_cases hqp : q = p
  · rw [hqp]
    rw [linkBlock_entry_self]
    rfl
  rw [hne q hqp]

-- Every round takes a block from the queue, and only `mapBlocksUnlinked` feeds the queue.
lemma Linking.linkBlocks (h : Linking s queue) (ht : Tree genesis s)
    (hq : ∀ p ∈ queue, Linkable s p) (hf : queue.length + s.unlinked.length ≤ fuel) :
    Linking (linkBlocks verdict fuel queue s) [] := by
  induction fuel generalizing queue s
  case zero =>
    have hl : queue = [] := length_eq_zero_iff.mp (by omega)
    exact hl ▸ h
  case succ fuel hi =>
  cases queue
  case nil => exact h
  case cons p queue =>
  have hp := hq p mem_cons_self
  have hs : Tree genesis (s.linkBlock verdict p) := ht.linkBlock hp
  refine hi (h.linkBlock ht hp) (hs.setUnlinked fun c hc => ?_) (ht.linkable_queue hq) ?_
  · exact hs.unlinked c (mem_filter.mp hc).1
  have hu : (s.linkBlock verdict p).unlinked = s.unlinked := insertCandidateIf_unlinked
  have hlen := length_eq_length_filter_add (l := s.unlinked) (·.1 = p)
  simp only [length_append, length_map, hu, length_cons] at hf ⊢
  simp only [decide_not]
  omega

end

section

-- The index and its counts are the same, and no entry is less valid.
structure SameCounts (s1 s2 : ChainState proof) : Prop where
  blocks : s2.blocks = s1.blocks
  unlinked : s2.unlinked = s1.unlinked
  nTx : ∀ p, (s2.entry p).nTx = (s1.entry p).nTx
  nChainTx : ∀ p, (s2.entry p).nChainTx = (s1.entry p).nChainTx
  validity : ∀ p, (s1.entry p).validity ≤ (s2.entry p).validity

namespace SameCounts

omit [DecidableEq β] in
lemma trans (h1 : SameCounts s1 s2) (h2 : SameCounts s2 s3) : SameCounts s1 s3 where
  blocks := h2.blocks.trans h1.blocks
  unlinked := h2.unlinked.trans h1.unlinked
  nTx p := (h2.nTx p).trans (h1.nTx p)
  nChainTx p := (h2.nChainTx p).trans (h1.nChainTx p)
  validity p := (h1.validity p).trans (h2.validity p)

omit [DecidableEq β] in
lemma of_entry (hb : s2.blocks = s1.blocks) (hu : s2.unlinked = s1.unlinked)
    (he : s2.entry = s1.entry) : SameCounts s1 s2 :=
  ⟨hb, hu, fun _ => by rw [he], fun _ => by rw [he], fun _ => by rw [he]⟩

lemma setEntry (hx : e.nTx = (s.entry p).nTx) (hc : e.nChainTx = (s.entry p).nChainTx)
    (hv : (s.entry p).validity ≤ e.validity) : SameCounts s (s.setEntry p e) where
  blocks := rfl
  unlinked := rfl
  nTx q := setEntry_field s p e IndexEntry.nTx hx q
  nChainTx q := setEntry_field s p e IndexEntry.nChainTx hc q
  validity q := by
    by_cases hq : q = p
    · rwa [hq, setEntry_entry_self]
    · rw [setEntry_entry_ne s e hq]

omit [DecidableEq β] in
lemma linking (h : SameCounts s1 s2) (hl : Linking s1 queue) : Linking s2 queue where
  sum p hc := by
    rw [h.nChainTx] at hc
    rw [h.nChainTx, h.nTx, h.nChainTx]
    exact hl.sum p hc
  parked p hx hc := by
    rw [h.unlinked]
    exact hl.parked p (h.nTx p ▸ hx) (h.nChainTx p ▸ hc)
  waits c hc := by
    rw [h.nChainTx]
    exact hl.waits c (h.unlinked ▸ hc)
  header p hp := (hl.header p (h.blocks ▸ hp)).trans (h.validity p)

lemma insertCandidateIf : SameCounts s (s.insertCandidateIf verdict c p) :=
  .of_entry insertCandidateIf_blocks insertCandidateIf_unlinked insertCandidateIf_entry

lemma clearFailed : SameCounts s (s.clearFailed p) := by
  have h : SameCounts s (s.setEntry p (s.entry p).clearFailed) := setEntry rfl rfl (Nat.le_refl _)
  exact h.trans (.of_entry rfl rfl rfl)

end SameCounts

omit [DecidableEq β] in
lemma foldl_sameCounts (h : ∀ s p, SameCounts s (f s p)) : SameCounts s (order.foldl f s) := by
  induction order generalizing s
  case nil => exact .of_entry rfl rfl rfl
  case cons p order hi => exact (h s p).trans hi

lemma resetAncestors_sameCounts : SameCounts s (s.resetAncestors p) := by
  induction p generalizing s
  case nil => exact .of_entry rfl rfl rfl
  case cons b p hi =>
  simp only [resetAncestors]
  split
  · exact SameCounts.clearFailed.trans hi
  · exact hi

omit [DecidableEq β] in
lemma Reflagged.sameCounts (h : Reflagged s1 s2) : SameCounts s1 s2 :=
  ⟨h.blocks, h.unlinked, h.nTx, h.nChainTx, h.validity⟩

lemma Moves.linking (hm : Moves verdict s1 s2) (hs : Standing genesis s1)
    (h : Linking s1 queue) : Linking s2 queue :=
  hm.invariant hs (fun _ _ hs hm => (hm.reflagged hs.toTree).sameCounts.linking) h

lemma Linking.addToBlockIndex (h : Linking s []) (hs : Tree genesis s) (hp : p ∉ s.blocks) :
    Linking (s.addToBlockIndex p flags) [] := by
  have ⟨hx, hc, _⟩ := addToBlockIndex_entry_self s p flags
  have he q (hq : q ≠ p) : (s.addToBlockIndex p flags).entry q = s.entry q :=
    addToBlockIndex_entry_ne hq
  have hz : (s.entry p).nChainTx = 0 := by
    by_contra hc
    exact hp (hs.mem_of_complete hc)
  have hcount q : ((s.addToBlockIndex p flags).entry q).nChainTx = (s.entry q).nChainTx := by
    by_cases hq : q = p
    · rw [hq, hc, hz]
    · rw [he q hq]
  refine ⟨fun q hq => ?_, fun q hq hc => ?_, fun c hm => ?_, fun q hq => ?_⟩
  · have hqp : q ≠ p := fun he => hq (he ▸ hc)
    rw [hcount] at hq
    rw [hcount, hcount, he q hqp]
    exact h.sum q hq
  · have hqp : q ≠ p := fun he => hq (he ▸ hx)
    exact h.parked q (he q hqp ▸ hq) (hcount q ▸ hc)
  · rw [hcount]
    exact h.waits c hm
  by_cases hqp : q = p
  · simp [hqp, ChainState.addToBlockIndex]
  rw [he q hqp]
  exact h.header q ((mem_append.mp hq).resolve_right (by simpa using hqp))

lemma Linking.acceptHeader (h : Linking s1 []) (hs : Standing genesis s1) (hp : p ∉ s1.blocks)
    (ho : failedOrder.Perm s1.failedBlocks) (hr : s1.acceptHeader failedOrder p flags = some s2) :
    Linking s2 [] := by
  rcases acceptHeader_cases hr with hr | hr | hr
  · exact hr ▸ h
  · have hm : Moves (fun _ _ => .accept) s1 s2 := failedAncestor_moves hs ho hr
    exact Moves.linking hm hs h
  · exact hr ▸ h.addToBlockIndex hs.toTree hp

lemma Linking.receive (h : Linking s []) (hs : Tree genesis s) (hf : s.failed p = false)
    (hd : (s.entry p).haveData = false) : Linking (s.setEntry p (s.receivedEntry p nTx)) [p] := by
  have hz : (s.entry p).nChainTx = 0 := by
    by_contra hc
    simp [(hs.complete p hc).1] at hd
  have he : s.receivedEntry p nTx = _ := receivedEntry_eq hf
  have hcount := setEntry_field s p (s.receivedEntry p nTx) IndexEntry.nChainTx (by rw [he, hz])
  have hne q (hq : q ≠ p) := setEntry_entry_ne s (s.receivedEntry p nTx) hq
  refine ⟨fun q hq => ?_, fun q hq hc => ?_, fun c hm => ?_, fun q hq => ?_⟩
  · rw [hcount] at hq
    have hqp : q ≠ p := fun he => hq (he ▸ hz)
    rw [hcount, hcount, hne q hqp]
    exact h.sum q hq
  · by_cases hqp : q = p
    · exact .inr (hqp ▸ mem_singleton_self p)
    rw [hcount] at hc
    exact (h.parked q (hne q hqp ▸ hq) hc).imp_right (by simp)
  · rw [hcount]
    exact h.waits c hm
  by_cases hqp : q = p
  · rw [hqp, setEntry_entry_self, he]
    exact (h.header p (hqp ▸ hq)).trans (Nat.le_max_left ..)
  rw [hne q hqp]
  exact h.header q hq

lemma Linking.receivedBlockTransactions (h : Linking s []) (hs : Tree genesis s)
    (hp : p ∈ s.blocks) (hf : s.failed p = false) (hd : (s.entry p).haveData = false) (hx : nTx ≠ 0)
    (hc : (s.entry p.tail).nChainTx ≠ 0 ∨ s.failed p.tail = false) :
    Linking (s.receivedBlockTransactions verdict p nTx) [] := by
  let s' := s.setEntry p (s.receivedEntry p nTx)
  have hl : Linking s' [p] := h.receive hs hf hd
  have ht := hs.receive hp hf hd hx
  have hd' : (s'.entry p).haveData := by
    rw [setEntry_entry_self, receivedEntry_eq hf]
  rcases receivedBlockTransactions_cases verdict (rfl : s' = _) with ⟨hq, he⟩ | ⟨hq, he⟩ | ⟨hq, _⟩
  · rw [he]
    refine hl.linkBlocks ht (fun q hm => ?_) (by simp; omega)
    rw [mem_singleton.mp hm]
    exact ⟨hd', hq⟩
  · rw [he]
    refine ⟨hl.sum, fun q hq hc => .inl ?_, fun c hm => ?_, hl.header⟩
    · rcases hl.parked q hq hc with hm | hm
      · exact mem_append_left _ hm
      rw [mem_singleton.mp hm]
      exact mem_append_right _ mem_cons_self
    cases mem_append.mp hm
    case inl hm => exact hl.waits c hm
    case inr hm =>
    rw [mem_singleton.mp hm]
    exact ⟨hq.1, hq.2.1⟩
  have ⟨hn, hz, hv⟩ := hq
  have htail : s'.entry p.tail = s.entry p.tail :=
    setEntry_entry_ne s _ (tail_ne_self (hs.ne_nil hp))
  rw [htail] at hz hv
  have hf := hc.resolve_left (absurd hz)
  have hb := h.header _ (hs.parent p hp hn)
  simp only [failed] at hf
  simp [IndexEntry.isValid, hf, Nat.not_lt.mpr hb] at hv

lemma invalidateBlock_sameCounts (hs : Standing genesis s) (hp : p ∈ s.blocks) :
    SameCounts s (s.invalidateBlock verdict order p).2 := by
  have ⟨t, _, _, hc⟩ := invalidateBlock_cases verdict order p hs rfl
  rcases hc with he | ⟨_, walk, hw, _, he⟩
  · rw [he]
    exact .of_entry rfl rfl rfl
  rw [he]
  have hr := (markInvalid_spec (s := { s with tip := t }) hw).1
  have hp' : p ∈ ({ s with tip := t }.markInvalid p walk).blocks := by
    rw [hr.blocks]
    exact hp
  have ht : SameCounts s { s with tip := t } := .of_entry rfl rfl rfl
  have hm := ht.trans <| hr.sameCounts.trans (markFailed_spec hp').1.sameCounts
  exact hm.trans <| foldl_sameCounts fun _ _ => .insertCandidateIf

lemma resetBlockFailureFlags_sameCounts :
    SameCounts s (s.resetBlockFailureFlags verdict order p) := by
  refine SameCounts.trans (foldl_sameCounts fun s q => ?_) resetAncestors_sameCounts
  simp only [resetDescendant]
  split
  · exact SameCounts.clearFailed.trans .insertCandidateIf
  · exact .of_entry rfl rfl rfl

-- The counts in the loop of `LoadBlockIndex`, which starts from `s0`.
structure Recounting (s0 s : ChainState proof) (done : List (List β)) : Prop where
  nTx : ∀ q, (s.entry q).nTx = (s0.entry q).nTx
  validity : ∀ q, (s.entry q).validity = (s0.entry q).validity
  closed : ∀ q ∈ done, q.tail = [] ∨ q.tail ∈ done
  sum : ∀ p ∈ done, (s.entry p).nChainTx ≠ 0 →
               (s.entry p).nChainTx =
               (if p.tail = [] then 0 else (s.entry p.tail).nChainTx) + (s.entry p).nTx
  parked : ∀ p ∈ done, (s.entry p).nTx ≠ 0 → (s.entry p).nChainTx = 0 → (p.tail, p) ∈ s.unlinked
  waits : ∀ c ∈ s.unlinked, c.1 ≠ [] ∧ c.1 ∈ done ∧ (s.entry c.1).nChainTx = 0

lemma Recounting.loadEntry (h : Recounting s0 s done) (hn : p ≠ []) (hd : p ∉ done)
    (ht : p.tail = [] ∨ p.tail ∈ done) : Recounting s0 (s.loadEntry verdict p) (p :: done) := by
  have hne q (hq : q ≠ p) : (s.loadEntry verdict p).entry q = s.entry q := by
    rw [loadEntry_entry, countEntry_entry_ne hq]
  have hself : (s.loadEntry verdict p).entry p = s.loadedEntry p := by
    rw [loadEntry_entry, countEntry_entry_self]
  have hdone q (hq : q ∈ done) : q ≠ p := fun he => hd (he ▸ hq)
  have hu : (s.loadEntry verdict p).unlinked =
      if (s.entry p).nTx ≠ 0 && !s.parentComplete p then s.unlinked ++ [(p.tail, p)]
      else s.unlinked := insertCandidateIf_unlinked
  have hsub c (hc : c ∈ s.unlinked) : c ∈ (s.loadEntry verdict p).unlinked := by
    rw [hu]
    split
    · exact mem_append_left _ hc
    · exact hc
  constructor
  case nTx => exact fun q => (loadEntry_field rfl q).trans (h.nTx q)
  case validity => exact fun q => (loadEntry_field rfl q).trans (h.validity q)
  case closed => exact closed_cons h.closed ht
  case sum =>
    intro q hq hc
    cases mem_cons.mp hq
    case inl he =>
      subst he
      rw [hself] at hc
      rw [hself, hne _ (tail_ne_self hn)]
      have hl := loadedEntry_nChainTx.mp hc
      have hpc : s.parentComplete q := by simpa [parentComplete] using hl.2
      simp [loadedEntry, linkedEntry, hl.1, hpc]
    case inr hq =>
    rw [hne q (hdone q hq)] at hc ⊢
    rw [h.sum q hq hc]
    by_cases hqt : q.tail = []
    · simp [hqt]
    · rw [hne _ (hdone _ ((h.closed q hq).resolve_left hqt))]
  case parked =>
    intro q hq hx hc
    cases mem_cons.mp hq
    case inl he =>
      subst he
      rw [hself] at hx hc
      have hx : (s.entry q).nTx ≠ 0 := hx
      have hpc : s.parentComplete q = false := by
        by_contra hpc
        refine loadedEntry_nChainTx.mpr ⟨hx, or_iff_not_imp_left.mpr ?_⟩ hc
        simpa [parentComplete] using hpc
      rw [hu, if_pos (by simp [hx, hpc])]
      exact mem_append_right _ mem_cons_self
    case inr hq =>
    rw [hne q (hdone q hq)] at hx hc
    exact hsub _ (h.parked q hq hx hc)
  case waits =>
  intro c hc
  have hold (hc : c ∈ s.unlinked) :
      c.1 ≠ [] ∧ c.1 ∈ p :: done ∧ ((s.loadEntry verdict p).entry c.1).nChainTx = 0 := by
    obtain ⟨hcn, hcd, hcz⟩ := h.waits c hc
    rw [hne _ (hdone _ hcd)]
    exact ⟨hcn, mem_cons_of_mem p hcd, hcz⟩
  rw [hu] at hc
  split at hc
  case isFalse => exact hold hc
  rename_i hw
  cases mem_append.mp hc
  case inl hc => exact hold hc
  rename_i hc
  obtain ⟨_, htn, htz⟩ : (s.entry p).nTx ≠ 0 ∧ p.tail ≠ [] ∧ (s.entry p.tail).nChainTx = 0 := by
    simpa [parentComplete] using hw
  rw [mem_singleton.mp hc, hne _ (tail_ne_self hn)]
  exact ⟨htn, mem_cons_of_mem p (ht.resolve_left htn), htz⟩

lemma Standing.recount (verdict) (h : Standing genesis s)
    (ho : order.Perm s.blocks) (hs : order.Pairwise (·.length ≤ ·.length)) :
    ∃ done, Reloading genesis (order.foldl (loadEntry verdict) s.reloaded) done ∧
      Recounting s (order.foldl (loadEntry verdict) s.reloaded) done ∧
      ∀ p ∈ s.blocks, p ∈ done := by
  have ⟨done, ⟨hr, hc⟩, hd⟩ := load_rule verdict
    (P := fun s' done => Reloading genesis s' done ∧ Recounting s s' done)
    (fun s done p h hp hd ht =>
      ⟨h.1.loadEntry hp hd ht, h.2.loadEntry (h.1.tree.ne_nil hp) hd ht⟩)
    ⟨h.reloading h.tip_mem h.clean, fun _ => rfl, fun _ => rfl, by simp, by simp, by simp,
      by simp [ChainState.reloaded]⟩
    h.toTree.reloaded ho hs
  exact ⟨done, hr, hc, hd⟩

lemma Linking.load (verdict) (h : Linking s []) (hs : Standing genesis s) (ho : order.Perm s.blocks)
    (hsort : order.Pairwise (·.length ≤ ·.length)) :
    Linking (order.foldl (loadEntry verdict) s.reloaded) [] := by
  have ⟨done, hr, hc, hd⟩ := hs.recount verdict ho hsort
  have hb : (order.foldl (loadEntry verdict) s.reloaded).blocks = s.blocks := foldl_loadEntry_blocks
  have hmem p (hx : ((order.foldl (loadEntry verdict) s.reloaded).entry p).nTx ≠ 0) : p ∈ done :=
    hd p <| hb ▸ (hr.tree.data p (hr.tree.counted p hx)).1
  refine ⟨fun p hp => hc.sum p ?_ hp, fun p hx hz => .inl (hc.parked p (hmem p hx) hx hz), ?_, ?_⟩
  · exact hd p <| hb ▸ hr.tree.mem_of_complete hp
  · intro c hm
    have ⟨hn, _, hz⟩ := hc.waits c hm
    exact ⟨hn, hz⟩
  intro p hp
  rw [hc.validity]
  exact h.header p (hb ▸ hp)

end

section

-- No block is forgotten: the parent of arriving data is complete or has not failed.
def Event.Linked (s : ChainState proof) : Event β → Prop
  | .block pindex _ => (s.entry pindex.tail).nChainTx ≠ 0 ∨ s.failed pindex.tail = false
  | _ => True

instance (s : ChainState proof) : (e : Event β) → Decidable (e.Linked s)
  | .block .. => inferInstanceAs (Decidable (_ ∨ _))
  | .header .. | .invalidData .. | .activate .. | .invalidate .. | .reset .. | .precious ..
  | .restart .. => inferInstanceAs (Decidable True)

lemma Linking.perform (h : Linking s1 []) (hs : Standing genesis s1) (he : e.Legal s1)
    (hc : e.Linked s1) (hr : s1.perform verdict e = some s2) : Linking s2 [] := by
  cases e <;>
    simp only [ChainState.perform, Option.some.injEq, Option.map_eq_some_iff, Prod.exists] at hr
  case header =>
    obtain ⟨hp, _, ho⟩ := he
    exact h.acceptHeader hs hp ho hr
  case block =>
    obtain ⟨hp, hx, hf, hd⟩ := he
    exact hr ▸ h.receivedBlockTransactions hs.toTree hp hf hd hx hc
  case invalidData p =>
    have hs : SameCounts s1 (s1.setEntry p { s1.entry p with failedValid := true }) :=
      .setEntry rfl rfl (Nat.le_refl _)
    exact hr ▸ hs.linking h
  case activate =>
    obtain ⟨b, s, hr', hs'⟩ := hr
    subst hs'
    exact Moves.linking (activateBestChain_moves hs hr') hs h
  case invalidate => exact hr ▸ (invalidateBlock_sameCounts hs he.1).linking h
  case reset => exact hr ▸ resetBlockFailureFlags_sameCounts.linking h
  case precious p =>
    obtain ⟨b, s, hr', hs'⟩ := hr
    subst hs'
    rcases preciousBlock_moves hs hr' with he | ⟨c, hs, hm⟩
    · exact he ▸ h
    have hc : SameCounts s1 (s1.replaceCandidate verdict c p) := .of_entry rfl rfl rfl
    exact Moves.linking hm hs (hc.linking h)
  case restart =>
  have hl := h.load verdict hs he.1 he.2
  exact (Reflagged.prune hr).sameCounts.linking hl

lemma init_linking : Linking (init proof genesis nTx) [] := by
  have he p (hp : (init proof genesis nTx).entry p ≠ {}) : p = [genesis] := by
    by_contra hn
    exact hp (init_entry_ne hn)
  refine ⟨fun p hp => ?_, fun p hx hz => ?_, by simp [init], fun p hp => ?_⟩
  · have hp := he p fun h => by simp [h] at hp
    simp [hp, init_entry_self]
  · have hp := he p fun h => by simp [h] at hx
    subst hp
    rw [init_entry_self] at hx hz
    exact absurd hz hx
  rw [init_blocks hp, init_entry_self]
  simp [BLOCK_VALID_TREE, BLOCK_VALID_SCRIPTS]

def Received (s : ChainState proof) (p : List β) : Prop :=
  ∀ q ∈ p.tails, q ≠ [] → 0 < (s.entry q).nTx

instance (s : ChainState proof) (p : List β) : Decidable (Received s p) :=
  inferInstanceAs (Decidable (∀ q ∈ p.tails, _))

end

end Taler.ChainState
