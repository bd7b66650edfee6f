import TalerModel.Chain.Theorems.Flags
import TalerModel.Validation.Accept
import TalerModel.Validation.Theorems.CheckBlock

namespace Taler

open ChainState Relation NodeChain Check CBlockIndex

variable {s s1 s2 : NodeChain} {hash : Uint256} {p : CBlockIndex} {genesis : IndexHeader}

namespace NodeChain

lemma lookupBlockIndex_mem (h : lookupBlockIndex s hash ≠ []) :
    lookupBlockIndex s hash ∈ s.blocks ∧ getBlockHash (lookupBlockIndex s hash) = hash := by
  cases hf : s.blocks.find? (getBlockHash · = hash)
  case none => simp [lookupBlockIndex, hf] at h
  case some p =>
  simp only [lookupBlockIndex, hf, Option.getD_some]
  exact ⟨List.mem_of_find?_eq_some hf, by simpa using List.find?_some hf⟩

lemma lookupBlockIndex_ne_nil (h : Tree genesis s) (hp : p ∈ s.blocks) :
    lookupBlockIndex s p.getBlockHash ≠ [] := by
  have hs : (s.blocks.find? (getBlockHash · = p.getBlockHash)).isSome :=
    List.find?_isSome.mpr ⟨p, hp, by simp⟩
  have ⟨q, hq⟩ := Option.isSome_iff_exists.mp hs
  simp only [lookupBlockIndex, hq, Option.getD_some]
  exact h.ne_nil (List.mem_of_find?_eq_some hq)

end NodeChain

lemma ChainState.Standing.genesis_mem (h : Standing genesis s) : [genesis] ∈ s.blocks :=
  h.suffix_mem h.tip_mem (h.rooted _ h.tip_mem) (by simp)

lemma ChainState.Standing.genesis_haveData (h : Standing genesis s) :
    (s.entry [genesis]).haveData :=
  (h.complete _ (h.clean _ (h.rooted _ h.tip_mem) (by simp)).2).1

-- A node's chain state: an entry of the index is found by its hash.
structure Indexed (genesis : IndexHeader) (s : NodeChain) : Prop extends Standing genesis s where
  unique : ∀ p ∈ s.blocks, ∀ q ∈ s.blocks, getBlockHash p = getBlockHash q → p = q

lemma Indexed.lookup (h : Indexed genesis s) (hp : p ∈ s.blocks) :
    lookupBlockIndex s p.getBlockHash = p := by
  have ⟨hm, hh⟩ := lookupBlockIndex_mem (lookupBlockIndex_ne_nil h.toTree hp)
  exact h.unique _ hm _ hp hh

namespace AcceptContext

variable [Crypto] {ctx : AcceptContext} {block : CBlockHeader} {params : Params}
variable {Arrives : CBlockHeader → Prop}

-- Whether `AcceptBlockHeader` makes this call. `Arrives` says which headers there are.
def Accepts (ctx : AcceptContext) (Arrives : CBlockHeader → Prop) (s : NodeChain) :
    Event IndexHeader → Prop
  | .header failedOrder pindex flags =>
    failedOrder = ctx.failedOrder ∧ ∃ block : CBlockHeader, Arrives block ∧
      lookupBlockIndex s block.getHash = [] ∧ ctx.checkNewHeader s block = .ok () ∧
      pindex = newIndex s block ∧ flags = headerFlags block
  | _ => True

-- A call on the chain state of a node. Every new entry comes from a header that was accepted.
inductive NodeStep (params : Params) (Arrives : CBlockHeader → Prop) : NodeChain → NodeChain → Prop
  | intro {s s' : NodeChain} (ctx : AcceptContext) (e : Event IndexHeader)
      (same : ctx.params = params) (legal : e.Legal s) (accepts : ctx.Accepts Arrives s e)
      (result : s.perform ctx.verdict e = some s') : NodeStep params Arrives s s'

abbrev NodeSteps (params : Params) (Arrives : CBlockHeader → Prop) :=
  ReflTransGen (NodeStep params Arrives)

lemma NodeStep.index (h : NodeStep params Arrives s1 s2) (hs : Standing genesis s1) :
    SameIndex s1 s2 ∨ ∃ (ctx : AcceptContext) (block : CBlockHeader), ctx.params = params ∧
      Arrives block ∧ lookupBlockIndex s1 block.getHash = [] ∧
      ctx.checkNewHeader s1 block = .ok () ∧
      s2 = s1.addToBlockIndex (newIndex s1 block) (headerFlags block) := by
  obtain ⟨ctx, e, hp, hl, ha, hr⟩ := h
  rcases perform_sameIndex hs hl hr with h | ⟨failedOrder, p, flags, rfl, rfl⟩
  · exact .inl h
  obtain ⟨_, block, hb, hn, hc, rfl, rfl⟩ := ha
  exact .inr ⟨ctx, block, hp, hb, hn, hc, rfl⟩

lemma NodeStep.indexed (h : NodeStep params Arrives s1 s2) (hs : Indexed genesis s1) :
    Indexed genesis s2 := by
  have ⟨ctx, e, _, hl, _, hr⟩ := h
  refine ⟨hs.perform hl hr, ?_⟩
  rcases h.index hs.toStanding with hi | ⟨_, block, _, _, hn, _, rfl⟩
  · rw [hi.blocks]
    exact hs.unique
  -- Nothing in the index has the hash of the new entry.
  have hnew (p : CBlockIndex) (hp : p ∈ s1.blocks) :
      p.getBlockHash ≠ (newIndex s1 block).getBlockHash :=
    fun he => lookupBlockIndex_ne_nil hs.toTree hp (he ▸ hn)
  intro p hp q hq he
  simp only [addToBlockIndex, List.mem_append, List.mem_singleton] at hp hq
  rcases hp with hp | rfl <;> rcases hq with hq | rfl
  · exact hs.unique p hp q hq he
  · exact absurd he (hnew p hp)
  · exact absurd he.symm (hnew q hq)
  · rfl

lemma NodeSteps.indexed (h : NodeSteps params Arrives s1 s2) (hs : Indexed genesis s1) :
    Indexed genesis s2 := by
  induction h
  case refl => exact hs
  case tail _ h hi => exact h.indexed hi

lemma checkNewHeader_parent (h : ctx.checkNewHeader s block = .ok ()) :
    lookupBlockIndex s block.hashPrevBlock ≠ [] ∧
      s.failed (lookupBlockIndex s block.hashPrevBlock) = false := by
  simp only [checkNewHeader, seq_eq_ok, rejectIf_dos_eq_ok, decide_eq_false_iff_not] at h
  exact ⟨h.1, h.2.1⟩

lemma header_legal (hs : Standing genesis s) (ho : ctx.failedOrder.Perm s.failedBlocks)
    (hn : lookupBlockIndex s block.getHash = [])
    (hc : ctx.checkNewHeader s block = .ok ()) (flags) :
    (Event.header ctx.failedOrder (newIndex s block) flags).Legal s := by
  refine ⟨fun hm => ?_, ?_, ho⟩
  · exact lookupBlockIndex_ne_nil hs.toTree hm hn
  · exact (lookupBlockIndex_mem (checkNewHeader_parent hc).1).1

omit [Crypto] in
lemma markFailedChild_failedBlocks (s : NodeChain) (f t : CBlockIndex) :
    (s.markFailedChild f t).failedBlocks = s.failedBlocks := by
  induction t generalizing s
  case nil => rfl
  case cons b t hi =>
  simp only [markFailedChild]
  split
  · rfl
  · exact hi _

lemma acceptBlockHeader_ok (h : (ctx.acceptBlockHeader s block).1 = .ok p) :
    lookupBlockIndex s block.getHash ≠ [] ∧
        ctx.acceptBlockHeader s block = (.ok (lookupBlockIndex s block.getHash), s) ∨
      lookupBlockIndex s block.getHash = [] ∧
        ctx.acceptBlockHeader s block = addHeader s block ∧
        (block.getHash ≠ ctx.params.hashGenesisBlock → ctx.checkNewHeader s block = .ok ()) := by
  rw [acceptBlockHeader] at h ⊢
  by_cases hk : lookupBlockIndex s block.getHash = []
  case neg =>
    refine .inl ⟨hk, ?_⟩
    simp only [hk, ne_eq, not_false_eq_true, if_true] at h ⊢
    split at h
    case isTrue hg => rw [if_pos hg]
    rename_i hg
    split at h
    · nomatch h
    case isFalse hf => rw [if_neg hg, if_neg hf]
  case pos =>
  refine .inr ⟨hk, ?_⟩
  simp only [hk, ne_eq, not_true_eq_false, if_false] at h ⊢
  split at h
  case isTrue hg => exact ⟨if_pos hg, fun hn => absurd hg hn⟩
  rename_i hg
  rw [if_neg hg]
  split at h
  case h_1 => nomatch h
  rename_i hc
  split at h
  case h_1 => nomatch h
  case h_2 => nomatch h
  case h_3 hf => exact ⟨rfl, fun _ => hc⟩

lemma acceptBlockHeader_spec (hs : Indexed genesis s)
    (hg : genesis.hash = ctx.params.hashGenesisBlock)
    (ho : ctx.failedOrder.Perm s.failedBlocks) (hb : Arrives block) :
    NodeSteps ctx.params Arrives s (ctx.acceptBlockHeader s block).2 ∧
    (ctx.acceptBlockHeader s block).2.failedBlocks = s.failedBlocks ∧
    ∀ p, (ctx.acceptBlockHeader s block).1 = .ok p →
      p ∈ (ctx.acceptBlockHeader s block).2.blocks ∧ p.getBlockHash = block.getHash ∧
      (p = [genesis] ∨ (ctx.acceptBlockHeader s block).2.failed p = false) := by
  have hgen : lookupBlockIndex s ctx.params.hashGenesisBlock ≠ [] :=
    hg ▸ lookupBlockIndex_ne_nil hs.toTree hs.toStanding.genesis_mem
  have hknown (h : lookupBlockIndex s block.getHash ≠ []) := lookupBlockIndex_mem h
  simp only [acceptBlockHeader]
  split
  case isTrue he =>
    rw [if_pos (he ▸ hgen)]
    refine ⟨.refl, rfl, fun p hp => ?_⟩
    obtain rfl := Except.ok.inj hp
    obtain ⟨hm, hh⟩ := hknown (he ▸ hgen)
    exact ⟨hm, hh, .inl (hs.unique _ hm _ hs.genesis_mem (hh.trans (he.trans hg.symm)))⟩
  split
  case isTrue hn =>
    obtain ⟨hm, hh⟩ := hknown hn
    split
    · exact ⟨.refl, rfl, fun p hp => by simp [dos] at hp⟩
    rename_i hf
    refine ⟨.refl, rfl, fun p hp => ?_⟩
    obtain rfl := Except.ok.inj hp
    exact ⟨hm, hh, .inr (by simpa using hf)⟩
  case isFalse hn =>
  have hn : lookupBlockIndex s block.getHash = [] := by simpa using hn
  cases hc : ctx.checkNewHeader s block
  case error e => exact ⟨.refl, rfl, fun p hp => by simp at hp⟩
  obtain ⟨hpn, hpf⟩ := checkNewHeader_parent hc
  have hl := header_legal hs.toStanding ho hn hc (headerFlags block)
  have ha : ctx.Accepts Arrives s
      (.header ctx.failedOrder (newIndex s block) (headerFlags block)) :=
    ⟨rfl, block, hb, hn, hc, rfl, rfl⟩
  cases hfa : s.failedAncestor ctx.failedOrder
    (lookupBlockIndex s block.hashPrevBlock)
  case none => exact ⟨.refl, rfl, fun p hp => by simp [fault] at hp⟩
  rename_i r
  cases r
  case some s' =>
    have hr : s.acceptHeader ctx.failedOrder (newIndex s block) (headerFlags block) = some s' := by
      simp [acceptHeader, newIndex, hpf, hfa]
    obtain ⟨f, _, _, _, he⟩ := failedAncestor_eq_some hfa
    refine ⟨.single ⟨ctx, _, rfl, hl, ha, hr⟩, ?_, fun p hp => by simp [dos] at hp⟩
    exact he ▸ markFailedChild_failedBlocks s f _
  case none =>
  have hr : s.acceptHeader ctx.failedOrder (newIndex s block) (headerFlags block) =
      some (s.addToBlockIndex (newIndex s block) (headerFlags block)) := by
    simp [acceptHeader, newIndex, hpf, hfa]
  refine ⟨.single ⟨ctx, _, rfl, hl, ha, hr⟩, rfl, fun p hp => ?_⟩
  obtain rfl := Except.ok.inj hp
  refine ⟨by simp [addHeader, addToBlockIndex], rfl, .inr ?_⟩
  simp [addHeader, addToBlockIndex, failed, IndexEntry.failed, setEntry]

lemma vtx_ne_nil_of_checkBlock {block : CBlock}
    (h : (checkBlock c block p fCheckPOW fMerkle).1 = .ok ()) (hf : block.fChecked → block.vtx ≠ []) :
    block.vtx ≠ [] := by
  rw [checkBlock] at h
  split at h
  case isTrue hc => exact hf hc
  cases hm : checkBeforeMemo c block p fCheckPOW fMerkle
  case error e => simp [hm] at h
  simp only [checkBeforeMemo, seq_eq_ok] at hm
  have hcontents : checkContents block = .ok () := by
    have := hm.2
    split at this
    · exact (seq_eq_ok.mp this).2
    · exact this
  simp only [checkContents, seq_eq_ok, rejectIf_dos_eq_ok, Bool.or_eq_false_iff] at hcontents
  simpa using hcontents.1.1.1

section

variable (hs : Indexed genesis s) (hg : genesis.hash = ctx.params.hashGenesisBlock)
  (ho : ctx.failedOrder.Perm s.failedBlocks)
include hs hg ho

lemma acceptBlock_steps {block : CBlock} (ha : Arrives block.getBlockHeader)
    (hb : block.fChecked → block.vtx ≠ []) (fRequested) :
    NodeSteps ctx.params Arrives s (ctx.acceptBlock s block fRequested).2 := by
  have ⟨hsteps, _, hok⟩ := acceptBlockHeader_spec hs hg ho ha
  rw [acceptBlock]
  generalize ctx.acceptBlockHeader s block.getBlockHeader = r at hsteps hok ⊢
  obtain ⟨r, s'⟩ := r
  cases r
  case error e => exact hsteps
  rename_i pindex
  have ⟨hm, _, hfail⟩ := hok pindex rfl
  have hs' : Indexed genesis s' := NodeSteps.indexed hsteps hs
  simp only
  split
  · exact hsteps
  rename_i hi
  have hd : (s'.entry pindex).haveData = false := by
    simp only [ignoresBlock, Bool.or_eq_true, not_or, Bool.not_eq_true] at hi
    exact hi.1
  have hne : pindex ≠ [genesis] := fun he => by
    simp [he, hs'.toStanding.genesis_haveData] at hd
  have hf := hfail.resolve_left hne
  cases ctx.checkFormat block pindex
  case error e => exact hsteps
  cases hc : ctx.checkData s' block pindex
  case error e =>
    simp only
    split
    · have hl : (Event.invalidData pindex).Legal s' := ⟨hm, hf, hd⟩
      exact hsteps.tail ⟨ctx, _, rfl, hl, trivial, rfl⟩
    · exact hsteps
  case ok =>
  have hh : nHeight pindex > 0 := by
    rw [nHeight]
    by_contra hz
    refine hne (hs'.eq_genesis hm (List.eq_nil_of_length_eq_zero ?_))
    rw [List.length_tail]
    omega
  rw [checkData, if_pos hh] at hc
  have hx := mt List.length_eq_zero_iff.mp
    (vtx_ne_nil_of_checkBlock (seq_eq_ok.mp hc).1 hb)
  have hl : (Event.block pindex block.vtx.length).Legal s' := ⟨hm, hx, hf, hd⟩
  exact hsteps.tail ⟨ctx, _, rfl, hl, trivial, rfl⟩

-- Every call of the network code is a sequence of calls on the chain state.

lemma processNewBlockHeaders_steps (ha : ∀ header ∈ headers, Arrives header) :
    NodeSteps ctx.params Arrives s (ctx.processNewBlockHeaders headers s).2 := by
  induction headers generalizing s
  case nil => exact .refl
  case cons header headers hi =>
  have ⟨hsteps, hfailed, _⟩ := acceptBlockHeader_spec hs hg ho (ha header (List.mem_cons_self ..))
  rw [processNewBlockHeaders]
  generalize ctx.acceptBlockHeader s header = r at hsteps hfailed ⊢
  obtain ⟨r, s'⟩ := r
  cases r
  case error e => exact hsteps
  exact hsteps.trans (hi (NodeSteps.indexed hsteps hs) (hfailed ▸ ho)
    fun header hm => ha header (List.mem_cons_of_mem _ hm))

lemma processNewBlock_steps {block : CBlock} (ha : Arrives block.getBlockHeader)
    (hb : block.fChecked → block.vtx ≠ [])
    (h : ctx.processNewBlock s block fForceProcessing fuel = some (b, s2)) :
    NodeSteps ctx.params Arrives s s2 := by
  have hx (hc : (checkBlock (ctx.checkContext s) block [] true true).1 = .ok ()) :=
    vtx_ne_nil_of_checkBlock hc hb
  have hv : (checkBlock (ctx.checkContext s) block [] true true).2.vtx = block.vtx ∧
      (checkBlock (ctx.checkContext s) block [] true true).2.getBlockHeader =
        block.getBlockHeader := by
    rw [checkBlock]
    split
    · exact ⟨rfl, rfl⟩
    · split <;> exact ⟨rfl, rfl⟩
  rw [processNewBlock] at h
  generalize checkBlock (ctx.checkContext s) block [] true true = r at h hx hv
  obtain ⟨r, block'⟩ := r
  cases r
  case error e =>
    cases e
    case fault => simp at h
    case returned =>
    obtain ⟨_, rfl⟩ := Prod.mk.inj (Option.some.inj h)
    exact .refl
  have hb' : block'.fChecked → block'.vtx ≠ [] := fun _ => by
    have hv := hv.1
    exact hv ▸ hx rfl
  have ha' : Arrives block'.getBlockHeader := hv.2.symm ▸ ha
  have hsteps := acceptBlock_steps hs hg ho ha' hb' fForceProcessing
  simp only at h
  generalize ctx.acceptBlock s block' fForceProcessing = r at h hsteps
  obtain ⟨r, s'⟩ := r
  cases r
  case error e =>
    cases e
    case fault => simp at h
    case returned =>
    obtain ⟨_, rfl⟩ := Prod.mk.inj (Option.some.inj h)
    exact hsteps
  have hact := h
  have hr : s'.perform ctx.verdict (.activate fuel) = some s2 := by
    simp [ChainState.perform, hact]
  have hl : (Event.activate fuel : Event IndexHeader).Legal s' := trivial
  exact hsteps.tail ⟨ctx, _, rfl, hl, trivial, hr⟩

end

end AcceptContext

end Taler
