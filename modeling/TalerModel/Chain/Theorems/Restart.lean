import TalerModel.Chain.Theorems.Operator

namespace Taler.ChainState

open List

variable {β : Type} [DecidableEq β] {proof : β → Nat} {verdict : List β → List β → Verdict}
variable {genesis : β} {s s1 s2 : ChainState proof} {g p q t : List β}
variable {done order : List (List β)}

structure Reloading (genesis : β) (s : ChainState proof) (done : List (List β)) : Prop where
  tree : Tree genesis s
  tip : s.tip ∈ s.blocks
  pending : ∀ p, p ∉ done → (s.entry p).nChainTx = 0
  unflagged : ∀ q, q <:+ s.tip → q ≠ [] → s.failed q = false ∧ (s.entry q).nTx ≠ 0
  linked : ∀ q, q <:+ s.tip → q ≠ [] → q ∈ done → (s.entry q).nChainTx ≠ 0

-- If every block adds work, then the set of candidates is rebuilt as well.
structure Loading (verdict : List β → List β → Verdict) (genesis : β) (s : ChainState proof)
    (done : List (List β)) : Prop extends Reloading genesis s done where
  grows : ∀ p ∈ s.blocks, p.tail ≠ [] → nChainWork proof p.tail < nChainWork proof p
  connectable : connectable verdict s.tip
  represented : ∀ p ∈ done, s.live verdict p → Represented verdict s p
  tip_mem : s.displaced = false → s.tip ∈ done → s.tip ∈ s.candidates

section

omit [DecidableEq β]

lemma Tree.reloaded (h : Tree genesis s) : Tree genesis s.reloaded where
  nodup := h.nodup
  rooted := h.rooted
  parent := h.parent
  data := h.data
  counted := h.counted
  complete := by simp [ChainState.reloaded]
  unlinked := by simp [ChainState.reloaded]
  failedBlocks := by simp [ChainState.reloaded]
  candidates := by simp [ChainState.reloaded]

lemma Tree.reloading (h : Tree genesis s) (ht : s.tip ∈ s.blocks) (hc : s.Clean s.tip) :
    Reloading genesis s.reloaded [] where
  tree := h.reloaded
  tip := ht
  pending _ _ := rfl
  unflagged q hq hn := by
    have ⟨hf, hc⟩ := hc q hq hn
    exact ⟨hf, h.data q (h.complete q hc).1 |>.right.1⟩
  linked _ _ _ := by simp

lemma Active.reloaded (h : Active verdict genesis s) : Loading verdict genesis s.reloaded [] where
  toReloading := h.wf.reloading h.tip_mem (good_iff_clean.mp h.good).1
  grows := h.wf.grows
  connectable := (good_iff.mp h.good).2
  represented := by simp
  tip_mem := by simp

end

section

lemma countEntry_entry_ne (h : q ≠ p) : (s.countEntry p).entry q = s.entry q :=
  setEntry_entry_ne s _ h

lemma countEntry_entry_self : (s.countEntry p).entry p = s.loadedEntry p :=
  setEntry_entry_self s ..

omit [DecidableEq β] in
lemma loadedEntry_nChainTx :
    (s.loadedEntry p).nChainTx ≠ 0 ↔
    (s.entry p).nTx ≠ 0 ∧ (p.tail = [] ∨ (s.entry p.tail).nChainTx ≠ 0) := by
  simp only [loadedEntry]
  split
  case isTrue h =>
    have hx : (s.entry p).nTx ≠ 0 := by simpa using (Bool.and_eq_true_iff.mp h).1
    exact iff_of_true (linkedEntry_nChainTx hx) (by simpa [parentComplete] using h)
  case isFalse h => exact iff_of_false (by simp) (by simpa [parentComplete] using h)

omit [DecidableEq β] in
lemma Reloading.genesis_nTx (h : Reloading genesis s done) : (s.entry [genesis]).nTx ≠ 0 :=
  h.unflagged [genesis] (h.tree.rooted _ h.tip) (by simp) |>.right

lemma Tree.countEntry (h : Tree genesis s) (hp : p ∈ s.blocks)
    (hc : (s.entry p).nChainTx = 0) : Tree genesis (s.countEntry p) := by
  have hs : Tree genesis (s.setEntry p (s.loadedEntry p)) := by
    refine h.setEntry hp id (absurd hc) ?_ (fun hd => (h.data p hd).2) (h.counted p) ?_
    · exact fun hm => (h.failedBlocks p hm).2
    intro ht
    have ⟨hx, ht⟩ := loadedEntry_nChainTx.mp ht
    exact ⟨h.counted p hx, ht⟩
  refine hs.setUnlinked fun c hm => ?_
  split at hm
  case isTrue hw =>
    cases mem_append.mp hm
    case inl hm => exact hs.unlinked c hm
    case inr hm =>
    rw [mem_singleton.mp hm, setEntry_entry_self]
    exact ⟨rfl, h.counted p (by simpa using (Bool.and_eq_true_iff.mp hw).1)⟩
  · exact hs.unlinked c hm

lemma good_countEntry (hp : p ≠ []) (hc : (s.entry p).nChainTx = 0) (hq : s.good verdict q) :
    (s.countEntry p).good verdict q := by
  have hbad : s.good verdict p = false := by
    by_contra hg
    exact (good_iff.mp (by simpa using hg)).1 p suffix_rfl hp |>.right hc
  exact good_of_mark hbad hq

lemma countEntry_failed (hf : s.failed p = false)
    (ht : p.tail ≠ [] → s.failed p.tail = false) : (s.countEntry p).failed p = false := by
  have hf : (s.entry p).failed = false := hf
  have ⟨h1, h2⟩ : (s.entry p).failedValid = false ∧ (s.entry p).failedChild = false := by
    simpa [IndexEntry.failed] using hf
  simp only [failed, countEntry_entry_self, loadedEntry, IndexEntry.failed, h1, h2]
  by_cases hn : p.tail = []
  · simp [hn]
  · simpa [failed, IndexEntry.failed, hn] using ht hn

lemma Reloading.unflagged_count (h : Reloading genesis s done) (hq : q <:+ s.tip)
    (hn : q ≠ []) : (s.countEntry p).failed q = false ∧ ((s.countEntry p).entry q).nTx ≠ 0 := by
  have ⟨hf, hx⟩ := h.unflagged q hq hn
  by_cases he : q = p
  · subst he
    refine ⟨countEntry_failed hf fun ht => ?_, by simpa [countEntry_entry_self, loadedEntry] using hx⟩
    exact h.unflagged q.tail ((tail_suffix q).trans hq) ht |>.left
  rw [failed, countEntry_entry_ne he]
  exact ⟨hf, hx⟩

lemma Reloading.linked_count (h : Reloading genesis s done)
    (ht : p.tail = [] ∨ p.tail ∈ done) (hq : q <:+ s.tip) (hn : q ≠ [])
    (hm : q ∈ p :: done) : ((s.countEntry p).entry q).nChainTx ≠ 0 := by
  by_cases he : q = p
  · subst he
    rw [countEntry_entry_self, loadedEntry_nChainTx]
    refine ⟨(h.unflagged q hq hn).2, or_iff_not_imp_left.mpr fun hn => ?_⟩
    exact h.linked q.tail ((tail_suffix q).trans hq) hn (ht.resolve_left hn)
  rw [countEntry_entry_ne he]
  exact h.linked q hq hn (mem_of_ne_of_mem he hm)

def loadsCandidate (s : ChainState proof) (p : List β) : Bool :=
  (s.loadedEntry p).isValid BLOCK_VALID_TRANSACTIONS &&
    ((s.loadedEntry p).nChainTx ≠ 0 || p.tail = [])

lemma Reloading.candidate_complete (h : Reloading genesis s done) (hp : p ∈ s.blocks)
    (hi : s.loadsCandidate p) : ((s.countEntry p).entry p).nChainTx ≠ 0 := by
  simp only [loadsCandidate, Bool.and_eq_true, Bool.or_eq_true, decide_eq_true_eq] at hi
  rw [countEntry_entry_self]
  cases hi.2
  case inl hi => exact hi
  case inr hi =>
  refine loadedEntry_nChainTx.mpr ⟨?_, .inl hi⟩
  exact h.tree.eq_genesis hp hi ▸ h.genesis_nTx

lemma loadEntry_entry : (s.loadEntry verdict p).entry = (s.countEntry p).entry :=
  insertCandidateIf_entry

lemma loadEntry_tip : (s.loadEntry verdict p).tip = s.tip :=
  insertCandidateIf_tip

lemma loadEntry_blocks : (s.loadEntry verdict p).blocks = s.blocks :=
  insertCandidateIf_blocks

omit [DecidableEq β] in
lemma closed_cons (h : ∀ q ∈ done, q.tail = [] ∨ q.tail ∈ done)
    (ht : p.tail = [] ∨ p.tail ∈ done) : ∀ q ∈ p :: done, q.tail = [] ∨ q.tail ∈ p :: done := by
  intro q hq
  cases mem_cons.mp hq
  case inl he =>
    rw [he]
    exact ht.imp_right (mem_cons_of_mem p)
  case inr hq => exact (h q hq).imp_right (mem_cons_of_mem p)

lemma Reloading.loadEntry (h : Reloading genesis s done) (hp : p ∈ s.blocks) (hd : p ∉ done)
    (ht : p.tail = [] ∨ p.tail ∈ done) :
    Reloading genesis (s.loadEntry verdict p) (p :: done) := by
  have hs : Tree genesis ((s.countEntry p).insertCandidateIf verdict (s.loadsCandidate p) p) :=
    (h.tree.countEntry hp (h.pending p hd)).insertCandidateIf (h.candidate_complete hp)
  constructor
  case tree =>
    exact ⟨hs.nodup, hs.rooted, hs.parent, hs.data, hs.counted, hs.complete, hs.unlinked,
      hs.failedBlocks, hs.candidates⟩
  case tip =>
    rw [loadEntry_tip, loadEntry_blocks]
    exact h.tip
  case pending =>
    intro q hq
    have ⟨hq, hq'⟩ := ne_and_not_mem_of_not_mem_cons hq
    rw [loadEntry_entry, countEntry_entry_ne hq]
    exact h.pending q hq'
  case unflagged =>
    intro q hq hn
    rw [failed, loadEntry_entry]
    rw [loadEntry_tip] at hq
    exact h.unflagged_count hq hn
  case linked =>
  intro q hq hn hm
  rw [loadEntry_tip] at hq
  rw [loadEntry_entry]
  exact h.linked_count ht hq hn hm

lemma Loading.loadEntry (h : Loading verdict genesis s done) (hp : p ∈ s.blocks)
    (hd : p ∉ done) (ht : p.tail = [] ∨ p.tail ∈ done)
    (hl : (s.loadEntry verdict p).lost = false) :
    Loading verdict genesis (s.loadEntry verdict p) (p :: done) := by
  have hc := h.pending p hd
  have hn := h.tree.ne_nil hp
  let c := s.loadsCandidate p
  let s' := (s.countEntry p).insertCandidateIf verdict c p
  have htip : s'.tip = s.tip := insertCandidateIf_tip
  -- Every complete block that has not failed is inserted.
  have hinsert (hv : (s.countEntry p).live verdict p) : c := by
    have ⟨h1, h2⟩ := isValid_of_live (h.tree.countEntry hp hc) hv
    rw [countEntry_entry_self] at h1 h2
    simp [c, loadsCandidate, h1, h2]
  constructor
  case toReloading => exact h.toReloading.loadEntry hp hd ht
  case grows =>
    rw [loadEntry_blocks]
    exact h.grows
  case connectable => exact htip ▸ h.connectable
  case represented =>
    intro q hq hv
    have hv : (s.countEntry p).live verdict q := by
      have hv : s'.live verdict q := hv
      rwa [insertCandidateIf_live] at hv
    by_cases hqp : q = p
    · subst hqp
      exact insertCandidateIf_represented (hinsert hv) hv hl
    have hl : (s.countEntry p).live verdict q = s.live verdict q :=
      live_congr (by rw [failed, failed, countEntry_entry_ne hqp]) (by rw [countEntry_entry_ne hqp])
    have hr := h.represented q (mem_of_ne_of_mem hqp hq) (hl ▸ hv)
    have hr : Represented verdict (s.countEntry p) q :=
      hr.mono (fun _ hr _ => hr) (fun _ => good_countEntry hn hc)
    have hr : Represented verdict s' q := hr.insertCandidateIf
    exact hr
  case tip_mem =>
  intro hs hm
  change s'.tip ∈ s'.candidates
  rw [htip]
  by_cases hqp : s.tip = p
  · subst hqp
    have hv : (s.countEntry s.tip).live verdict s.tip := by
      refine live_iff.mpr ⟨?_, ?_, h.connectable⟩
      · exact h.unflagged_count suffix_rfl hn |>.left
      · exact h.linked_count ht suffix_rfl hn mem_cons_self
    have hs : s'.displaced = false := hs
    simp only [s', insertCandidateIf, hinsert hv, if_true] at hs ⊢
    exact tip_mem_insertCandidate hs
  have hs := insertCandidateIf_displaced hs
  have hm := mem_of_ne_of_mem hqp (htip ▸ hm)
  exact mem_insertCandidateIf_of_mem (h.tip_mem hs hm)

lemma loadEntry_lost (h : (s.loadEntry verdict p).lost = false) : s.lost = false := by
  have hs := insertCandidateIf_lost h
  exact hs

end

omit [DecidableEq β] in
-- A loop over entries that come by height: a parent always comes before its children.
lemma height_rule {f : σ → List β → σ} {P : σ → List (List β) → Prop} {st : σ}
    {blocks : List (List β)}
    (hstep : ∀ st done p, P st done → p ∈ blocks → p ∉ done → (p.tail = [] ∨ p.tail ∈ done) →
      P (f st p) (p :: done))
    (h : P st done) (hne : ∀ p ∈ blocks, p ≠ [])
    (hparent : ∀ p ∈ blocks, p.tail ≠ [] → p.tail ∈ blocks) (ho : ∀ p ∈ order, p ∈ blocks)
    (hall : ∀ p ∈ blocks, p ∈ done ∨ p ∈ order) (hn : order.Nodup) (hd : ∀ p ∈ order, p ∉ done)
    (hs : order.Pairwise (·.length ≤ ·.length)) :
    ∃ done, P (order.foldl f st) done ∧ ∀ p ∈ blocks, p ∈ done := by
  induction order generalizing st done
  case nil => exact ⟨done, h, fun p hp => (hall p hp).resolve_right (by simp)⟩
  case cons p order hi =>
  have hp := ho p mem_cons_self
  have ⟨hpo, hn⟩ := nodup_cons.mp hn
  have ⟨hps, hs⟩ := pairwise_cons.mp hs
  have ht : p.tail = [] ∨ p.tail ∈ done := by
    refine or_iff_not_imp_left.mpr fun ht => (hall _ (hparent p hp ht)).resolve_right ?_
    intro hm
    have hm := mem_of_ne_of_mem (tail_ne_self (hne p hp)) hm
    have := hps _ hm
    have := length_pos_of_ne_nil (hne p hp)
    simp at *
    omega
  have hs' := hstep st done p h hp (hd p mem_cons_self) ht
  refine hi hs' (fun q hq => ho q (mem_cons_of_mem p hq)) (fun q hq => ?_) hn
    (fun q hq hm => ?_) hs
  · cases hall q hq
    case inl hm => exact .inl (mem_cons_of_mem p hm)
    case inr hm =>
    cases mem_cons.mp hm
    case inl he => exact .inl (he ▸ mem_cons_self)
    case inr hm => exact .inr hm
  cases mem_cons.mp hm
  case inl he => exact hpo (he ▸ hq)
  case inr hm => exact hd q (mem_cons_of_mem p hq) hm

lemma load_rule (verdict : List β → List β → Verdict)
    {P : ChainState proof → List (List β) → Prop}
    (hstep : ∀ s done p, P s done → p ∈ s.blocks → p ∉ done → (p.tail = [] ∨ p.tail ∈ done) →
      P (s.loadEntry verdict p) (p :: done))
    (h : P s []) (ht : Tree genesis s) (ho : order.Perm s.blocks)
    (hs : order.Pairwise (·.length ≤ ·.length)) :
    ∃ done, P (order.foldl (ChainState.loadEntry verdict) s) done ∧ ∀ p ∈ s.blocks, p ∈ done := by
  have ⟨done, ⟨hp, _⟩, hm⟩ := height_rule
    (P := fun s' done => P s' done ∧ s'.blocks = s.blocks)
    (fun s' done p ⟨h, hb⟩ hp hd ht =>
      ⟨hstep s' done p h (hb ▸ hp) hd ht, loadEntry_blocks.trans hb⟩)
    ⟨h, rfl⟩ (fun _ => ht.ne_nil) ht.parent (fun p hp => ho.mem_iff.mp hp)
    (fun p hp => .inr (ho.mem_iff.mpr hp)) (ho.nodup_iff.mpr ht.nodup) (by simp) hs
  exact ⟨done, hp, hm⟩

lemma foldl_loadEntry_blocks : (order.foldl (loadEntry verdict) s).blocks = s.blocks := by
  induction order generalizing s
  case nil => rfl
  case cons p order hi => exact hi.trans loadEntry_blocks

lemma Active.restart (h : Active verdict genesis s1) (ho : order.Perm s1.blocks)
    (hs : order.Pairwise (·.length ≤ ·.length)) (hr : s1.restart verdict order = some s2)
    (hl : s2.lost = false) : ∃ g, Guarded verdict genesis s2 g := by
  let s := order.foldl (loadEntry verdict) s1.reloaded
  have hl : s.lost = false := (Reflagged.prune hr).lost hl
  have ⟨done, hd, hall⟩ := load_rule verdict
    (P := fun s done => s.lost = false → Loading verdict genesis s done)
    (fun s done p h hp hd ht hl => (h (loadEntry_lost hl)).loadEntry hp hd ht hl)
    (fun _ => h.reloaded) h.wf.reloaded ho hs
  have hd := hd hl
  have hb : s.blocks = s1.blocks := foldl_loadEntry_blocks
  have htip := hd.tree.ne_nil hd.tip
  have hgood : s.good verdict s.tip := by
    refine good_iff.mpr ⟨fun q hq hn => ⟨(hd.unflagged q hq hn).1, ?_⟩, hd.connectable⟩
    exact hd.linked q hq hn <| hall q <| hb ▸ hd.tree.suffix_mem hd.tip hq hn
  have ha : Active verdict genesis s := ⟨⟨hd.tree, hd.grows⟩, htip, hgood⟩
  have hlive p (hp : s.live verdict p) : p ∈ done :=
    hall p <| hb ▸ hd.tree.mem_of_complete (live_iff.mp hp).2.1
  have ⟨g, hg⟩ := ha.exists_guard (fun p hp _ => hd.represented p (hlive p hp) hp)
    (fun hs => hd.tip_mem hs (hall _ (hb ▸ hd.tip)))
  have ht : s2.tip = s.tip := by rw [pruneBlockIndexCandidates_eq hr]
  exact ⟨g, hg.demotes (.prune hr) (hg.guard.prune hg.above hr) ht⟩

end Taler.ChainState
