import TalerModel.Chain.Theorems.Guard

namespace Taler.ChainState

variable {β : Type} {proof : β → Nat} {genesis : β} {s s1 s2 s3 : ChainState proof} {p q : List β}

structure Tree (genesis : β) (s : ChainState proof) : Prop where
  nodup : s.blocks.Nodup
  rooted : ∀ p ∈ s.blocks, [genesis] <:+ p
  parent : ∀ p ∈ s.blocks, p.tail ≠ [] → p.tail ∈ s.blocks
  data : ∀ p, (s.entry p).haveData →
                   p ∈ s.blocks ∧ (s.entry p).nTx ≠ 0 ∧ BLOCK_VALID_TRANSACTIONS ≤ (s.entry p).validity
  counted : ∀ p, (s.entry p).nTx ≠ 0 → (s.entry p).haveData
  complete : ∀ p, (s.entry p).nChainTx ≠ 0 →
                   (s.entry p).haveData ∧ (p.tail = [] ∨ (s.entry p.tail).nChainTx ≠ 0)
  unlinked : ∀ c ∈ s.unlinked, c.1 = c.2.tail ∧ (s.entry c.2).haveData
  failedBlocks : ∀ f ∈ s.failedBlocks, f ∈ s.blocks ∧ (s.entry f).failedValid
  candidates : ∀ c ∈ s.candidates, (s.entry c).nChainTx ≠ 0

namespace Tree

section

variable (h : Tree genesis s)
include h

lemma ne_nil (hp : p ∈ s.blocks) : p ≠ [] := by
  intro he
  simpa [he] using h.rooted p hp

lemma eq_genesis (hp : p ∈ s.blocks) (ht : p.tail = []) : p = [genesis] := by
  have ⟨b, r, hb⟩ := List.exists_cons_of_ne_nil (h.ne_nil hp)
  subst hb
  have hr := h.rooted _ hp
  rw [List.tail_cons] at ht
  simpa [ht, List.suffix_cons_iff, eq_comm] using hr

lemma mem_of_complete (hp : (s.entry p).nChainTx ≠ 0) : p ∈ s.blocks :=
  h.data p (h.complete p hp).1 |>.left

lemma mem_of_candidate (hp : p ∈ s.candidates) : p ∈ s.blocks :=
  h.mem_of_complete <| h.candidates p hp

lemma complete_suffix (hp : (s.entry p).nChainTx ≠ 0) (hq : q <:+ p) (hn : q ≠ []) :
    (s.entry q).nChainTx ≠ 0 := by
  refine ancestor_rule (P := fun p => (s.entry p).nChainTx ≠ 0) (fun b p hn hp => ?_) hp hq hn
  exact (h.complete _ hp).2.resolve_left hn

lemma suffix_mem (hp : p ∈ s.blocks) (hq : q <:+ p) (hn : q ≠ []) : q ∈ s.blocks :=
  ancestor_rule (fun _ _ hn hp => h.parent _ hp hn) hp hq hn

end

end Tree

structure WellFormed (genesis : β) (s : ChainState proof) : Prop extends Tree genesis s where
  grows : ∀ p ∈ s.blocks, p.tail ≠ [] → nChainWork proof p.tail < nChainWork proof p

namespace WellFormed

lemma of_tree (h : WellFormed genesis s1) (ht : Tree genesis s2) (hb : s2.blocks = s1.blocks) :
    WellFormed genesis s2 :=
  ⟨ht, hb ▸ h.grows⟩

lemma work_le (h : WellFormed genesis s) (hp : p ∈ s.blocks) (hq : q <:+ p) :
    nChainWork proof q ≤ nChainWork proof p := by
  induction p
  case nil => rw [List.suffix_nil.mp hq]
  case cons b p hi =>
  cases List.suffix_cons_iff.mp hq
  case inl he => rw [he]
  rename_i hq
  by_cases ht : p = []
  · rw [ht] at hq
    simp [List.suffix_nil.mp hq, nChainWork]
  · exact (hi (h.parent _ hp ht) hq).trans <| Nat.le_of_lt <| h.grows _ hp ht

lemma work_lt (h : WellFormed genesis s) (hp : p ∈ s.blocks) (hq : q <:+ p) (hn : q ≠ [])
    (he : q ≠ p) : nChainWork proof q < nChainWork proof p := by
  cases p
  case nil => exact absurd (List.suffix_nil.mp hq) hn
  case cons b p =>
  have hq := (List.suffix_cons_iff.mp hq).resolve_left he
  have ht := hq.ne_nil hn
  exact Nat.lt_of_le_of_lt (h.work_le (h.parent _ hp ht) hq) (h.grows _ hp ht)

end WellFormed

-- `s2` is `s1` with another tip, other failure flags and validity levels, and fewer candidates.
structure Reflagged (s1 s2 : ChainState proof) : Prop where
  blocks : s2.blocks = s1.blocks
  unlinked : s2.unlinked = s1.unlinked
  nTx : ∀ p, (s2.entry p).nTx = (s1.entry p).nTx
  nChainTx : ∀ p, (s2.entry p).nChainTx = (s1.entry p).nChainTx
  haveData : ∀ p, (s2.entry p).haveData = (s1.entry p).haveData
  validity : ∀ p, (s1.entry p).validity ≤ (s2.entry p).validity
  failedBlocks : (∀ f ∈ s1.failedBlocks, f ∈ s1.blocks ∧ (s1.entry f).failedValid) →
                   ∀ f ∈ s2.failedBlocks, f ∈ s2.blocks ∧ (s2.entry f).failedValid
  candidates : ∀ c ∈ s2.candidates, c ∈ s1.candidates
  lost : s2.lost = false → s1.lost = false
  displaced : s2.displaced = s1.displaced

namespace Reflagged

lemma refl (s : ChainState proof) : Reflagged s s := by
  constructor <;> simp

lemma trans (h1 : Reflagged s1 s2) (h2 : Reflagged s2 s3) : Reflagged s1 s3 where
  blocks := h2.blocks.trans h1.blocks
  unlinked := h2.unlinked.trans h1.unlinked
  nTx p := (h2.nTx p).trans (h1.nTx p)
  nChainTx p := (h2.nChainTx p).trans (h1.nChainTx p)
  haveData p := (h2.haveData p).trans (h1.haveData p)
  validity p := (h1.validity p).trans (h2.validity p)
  failedBlocks := fun h => h2.failedBlocks (h1.failedBlocks h)
  candidates c := fun h => h1.candidates c (h2.candidates c h)
  lost := fun h => h1.lost (h2.lost h)
  displaced := h2.displaced.trans h1.displaced

lemma tree (h : Reflagged s1 s2) (hw : Tree genesis s1) : Tree genesis s2 where
  nodup := h.blocks ▸ hw.nodup
  rooted := h.blocks ▸ hw.rooted
  parent := h.blocks ▸ hw.parent
  data p hd := by
    have ⟨hm, ht, hv⟩ := hw.data p (h.haveData p ▸ hd)
    exact ⟨h.blocks ▸ hm, h.nTx p ▸ ht, hv.trans (h.validity p)⟩
  counted p ht := h.haveData p ▸ hw.counted p (h.nTx p ▸ ht)
  complete p ht := by
    rw [h.haveData, h.nChainTx]
    exact hw.complete p (h.nChainTx p ▸ ht)
  unlinked c hc := h.haveData c.2 ▸ hw.unlinked c (h.unlinked ▸ hc)
  failedBlocks := h.failedBlocks hw.failedBlocks
  candidates c hc := h.nChainTx c ▸ hw.candidates c (h.candidates c hc)

lemma wellFormed (h : Reflagged s1 s2) (hw : WellFormed genesis s1) : WellFormed genesis s2 :=
  hw.of_tree (h.tree hw.toTree) h.blocks

lemma setEntry [DecidableEq β] (ht : e.nTx = (s.entry p).nTx)
    (hc : e.nChainTx = (s.entry p).nChainTx) (hd : e.haveData = (s.entry p).haveData)
    (hv : (s.entry p).validity ≤ e.validity) (hf : (s.entry p).failedValid → e.failedValid) :
    Reflagged s (s.setEntry p e) := by
  constructor
  case failedBlocks =>
    intro h f hm
    have ⟨hb, hv⟩ := h f hm
    by_cases hp : f = p
    · exact ⟨hb, by simpa [hp] using hf (hp ▸ hv)⟩
    · exact ⟨hb, by simpa [setEntry_entry_ne s e hp] using hv⟩
  case blocks | unlinked | candidates | lost | displaced => simp [ChainState.setEntry]
  all_goals
    intro q
    by_cases hq : q = p
    · subst hq; simp [*]
    · simp [setEntry_entry_ne s e hq]

lemma setTip (s : ChainState proof) (tip) : Reflagged s { s with tip := tip } := by
  constructor <;> simp

lemma eraseCandidate [DecidableEq β] (s : ChainState proof) (p) :
    Reflagged s (s.eraseCandidate verdict p) := by
  constructor
  case candidates => exact fun c hc => (KeyedSet.mem_erase.mp hc).1
  case lost => exact eraseCandidate_lost
  all_goals simp [ChainState.eraseCandidate]

lemma prune (h : s1.pruneBlockIndexCandidates = some s2) : Reflagged s1 s2 := by
  cases pruneBlockIndexCandidates_eq h
  constructor
  case candidates => exact fun c hc => (KeyedSet.mem_pruneBelow.mp hc).1
  all_goals simp

end Reflagged

variable {verdict : List β → List β → Verdict}

structure Demotes (verdict : List β → List β → Verdict) (s1 s2 : ChainState proof) : Prop
    extends Reflagged s1 s2 where
  good : ∀ q, s1.good verdict q → s2.good verdict q

namespace Demotes

lemma refl (s : ChainState proof) : Demotes verdict s s :=
  ⟨.refl s, fun _ => id⟩

lemma trans (h1 : Demotes verdict s1 s2) (h2 : Demotes verdict s2 s3) : Demotes verdict s1 s3 :=
  ⟨h1.toReflagged.trans h2.toReflagged, fun q h => h2.good q (h1.good q h)⟩

lemma setTip (s : ChainState proof) (tip) : Demotes verdict s { s with tip := tip } :=
  ⟨.setTip s tip, fun _ => id⟩

lemma prune (h : s1.pruneBlockIndexCandidates = some s2) : Demotes verdict s1 s2 :=
  ⟨.prune h, fun _ h' => pruneBlockIndexCandidates_eq h ▸ h'⟩

variable [DecidableEq β]

lemma eraseCandidate (s : ChainState proof) (p) : Demotes verdict s (s.eraseCandidate verdict p) :=
  ⟨.eraseCandidate s p, fun _ => id⟩

section

variable (hp : s.good verdict p = false)
include hp

lemma mark (h : Reflagged s (s.setEntry p e)) : Demotes verdict s (s.setEntry p e) :=
  ⟨h, fun _ => good_of_mark hp⟩

lemma failedChild : Demotes verdict s (s.setEntry p { s.entry p with failedChild := true }) :=
  mark hp <| .setEntry rfl rfl rfl (Nat.le_refl _) id

lemma failedValid : Demotes verdict s (s.setEntry p { s.entry p with failedValid := true }) :=
  mark hp <| .setEntry rfl rfl rfl (Nat.le_refl _) fun _ => rfl

end

end Demotes

end Taler.ChainState
