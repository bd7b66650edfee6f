import TalerModel.Chain.Theorems.DiskIndex
import TalerModel.Chain.Theorems.Linkage
import TalerModel.Validation.Load
import TalerModel.Validation.Theorems.Earned

open Codec

namespace Taler

open ChainState AcceptContext CBlockIndex IndexHeader LoadState NodeState Function List IndexEntry

section

variable {β : Type} {proof : β → Nat} {s s0 t : ChainState proof} {g : β}
variable {a c : List β} {done order : List (List β)} {verdict : List β → List β → Verdict}

def coreOf (e : IndexEntry) : IndexEntry :=
  { e with haveUndo := false, stakeModifier := false, newFormat := false }

-- The same index, in another order, and with nothing but its own entries.
structure Restricted (s t : ChainState proof) : Prop where
  blocks : t.blocks.Perm s.blocks
  tip : t.tip = s.tip
  unlinked : t.unlinked = s.unlinked
  failedBlocks : t.failedBlocks = s.failedBlocks
  candidates : t.candidates = s.candidates
  core : ∀ p ∈ s.blocks, coreOf (t.entry p) = coreOf (s.entry p)
  rest : ∀ p, p ∉ s.blocks → t.entry p = {}

namespace Restricted

lemma field (h : Restricted s t) (g : IndexEntry → γ) (hn : g (t.entry a) ≠ g {})
    (hg : ∀ e, g (coreOf e) = g e := by exact fun _ => rfl) :
    a ∈ s.blocks ∧ g (t.entry a) = g (s.entry a) := by
  by_cases ha : a ∈ s.blocks
  · refine ⟨ha, ?_⟩
    rw [← hg (t.entry a), h.core a ha, hg]
  · exact absurd (by rw [h.rest a ha]) hn

lemma field_mem (h : Restricted s t) (g : IndexEntry → γ) (ha : a ∈ s.blocks)
    (hg : ∀ e, g (coreOf e) = g e := by exact fun _ => rfl) : g (t.entry a) = g (s.entry a) := by
  rw [← hg (t.entry a), h.core a ha, hg]

lemma tree (h : Restricted s t) (hs : Tree g s) : Tree g t := by
  have hdata {p : List β} (hd : (t.entry p).haveData) :=
    h.field (·.haveData) (show (t.entry p).haveData ≠ false by simp [hd])
  have hcount {p : List β} (hc : (t.entry p).nChainTx ≠ 0) := h.field (·.nChainTx) hc
  constructor
  case nodup => exact h.blocks.nodup_iff.mpr hs.nodup
  case rooted => exact fun p hp => hs.rooted p (h.blocks.mem_iff.mp hp)
  case parent =>
    intro p hp hn
    exact h.blocks.mem_iff.mpr (hs.parent p (h.blocks.mem_iff.mp hp) hn)
  case data =>
    intro p hd
    have ⟨hm, he⟩ := hdata hd
    have ⟨_, hx, hv⟩ := hs.data p (he ▸ hd)
    rw [h.field_mem (·.nTx) hm, h.field_mem (·.validity) hm]
    exact ⟨h.blocks.mem_iff.mpr hm, hx, hv⟩
  case counted =>
    intro p hx
    have ⟨hm, he⟩ := h.field (·.nTx) hx
    rw [h.field_mem (·.haveData) hm]
    exact hs.counted p (he ▸ hx)
  case complete =>
    intro p hc
    have ⟨hm, he⟩ := hcount hc
    have ⟨hd, ht⟩ := hs.complete p (he ▸ hc)
    rw [h.field_mem (·.haveData) hm]
    refine ⟨hd, ht.imp_right fun hc => ?_⟩
    rw [h.field_mem (·.nChainTx) (hs.mem_of_complete hc)]
    exact hc
  case unlinked =>
    intro c hc
    have ⟨he, hd⟩ := hs.unlinked c (h.unlinked ▸ hc)
    rw [h.field_mem (·.haveData) (hs.data _ hd).1]
    exact ⟨he, hd⟩
  case failedBlocks =>
    intro f hf
    have ⟨hm, hv⟩ := hs.failedBlocks f (h.failedBlocks ▸ hf)
    rw [h.field_mem (·.failedValid) hm]
    exact ⟨h.blocks.mem_iff.mpr hm, hv⟩
  case candidates =>
  intro c hc
  have hn := hs.candidates c (h.candidates ▸ hc)
  rw [h.field_mem (·.nChainTx) (hs.mem_of_complete hn)]
  exact hn

lemma standing (h : Restricted s t) (hs : Standing g s) : Standing g t := by
  refine ⟨h.tree hs.toTree, h.tip ▸ hs.tip, ?_⟩
  rw [h.tip]
  intro q hq hn
  have hm := hs.suffix_mem hs.tip_mem hq hn
  rw [ChainState.failed, h.field_mem failed hm, h.field_mem (·.nChainTx) hm]
  exact hs.clean q hq hn

lemma linking (h : Restricted s t) (hs : Tree g s) (hl : Linking s []) : Linking t [] := by
  constructor
  case sum =>
    intro p hc
    have ⟨hm, he⟩ := h.field (·.nChainTx) hc
    rw [he, h.field_mem (·.nTx) hm, hl.sum p (he ▸ hc)]
    by_cases ht : p.tail = []
    · simp [ht]
    · rw [if_neg ht, if_neg ht, h.field_mem (·.nChainTx) (hs.parent p hm ht)]
  case parked =>
    intro p hx hz
    have ⟨hm, he⟩ := h.field (·.nTx) hx
    rw [h.field_mem (·.nChainTx) hm] at hz
    rw [h.unlinked]
    exact hl.parked p (he ▸ hx) hz
  case waits =>
    intro c hc
    have ⟨hn, hz⟩ := hl.waits c (h.unlinked ▸ hc)
    refine ⟨hn, by_contra fun hc => ?_⟩
    have ⟨_, he⟩ := h.field (·.nChainTx) hc
    exact hc (he.trans hz)
  case header =>
  intro p hp
  have hm := h.blocks.mem_iff.mp hp
  rw [h.field_mem (·.validity) hm]
  exact hl.header p hm

end Restricted

-- The loop counts anew and adds marks below failed blocks, and every possible tip is in the set.
structure Reindexing (s0 s : ChainState proof) (done : List (List β)) : Prop where
  entry : ∀ a, ∃ nChainTx failedChild,
                 s.entry a = { s0.entry a with nChainTx := nChainTx, failedChild := failedChild } ∧
                 ((s0.entry a).failedChild → failedChild) ∧
                 (failedChild → (s0.entry a).failedChild ∨ ∃ f, f <:+ a.tail ∧ f ≠ [] ∧ s0.failed f)
  candidates : ∀ a ∈ done, (s.entry a).isValid BLOCK_VALID_TRANSACTIONS →
                 (s.entry a).nChainTx ≠ 0 →
                 ∃ c ∈ s.candidates, nChainWork proof c = nChainWork proof a

lemma Reindexing.failed (h : Reindexing s0 s done) (ha : a ≠ []) (hf : s.failed a) :
    ∃ f, f <:+ a ∧ f ≠ [] ∧ s0.failed f := by
  have ⟨n, fc, he, _, hc⟩ := h.entry a
  rw [ChainState.failed, he, IndexEntry.failed, Bool.or_eq_true] at hf
  rcases hf with hv | hfc
  · have hv : (s0.entry a).failedValid := hv
    exact ⟨a, suffix_rfl, ha, by simp [ChainState.failed, IndexEntry.failed, hv]⟩
  rcases hc hfc with hc | ⟨f, hs, hn, hf⟩
  · exact ⟨a, suffix_rfl, ha, by simp [ChainState.failed, IndexEntry.failed, hc]⟩
  · exact ⟨f, hs.trans (tail_suffix a), hn, hf⟩

variable [DecidableEq β]

lemma Reindexing.loadEntry (h : Reindexing s0 s done) (hd : a ∉ done) :
    Reindexing s0 (s.loadEntry verdict a) (a :: done) := by
  have hne b (hb : b ≠ a) : (s.loadEntry verdict a).entry b = s.entry b := by
    rw [loadEntry_entry, countEntry_entry_ne hb]
  have hself : (s.loadEntry verdict a).entry a = s.loadedEntry a := by
    rw [loadEntry_entry, countEntry_entry_self]
  constructor
  case entry =>
    intro b
    by_cases hb : b = a
    case neg =>
      rw [hne b hb]
      exact h.entry b
    subst hb
    obtain ⟨n, fc, he, hold, hnew⟩ := h.entry b
    let mark := !(s.entry b).failed && decide (b.tail ≠ []) && s.failed b.tail
    have hl : s.loadedEntry b = { s0.entry b with
        nChainTx := (s.loadedEntry b).nChainTx, failedChild := fc || mark } := by
      simp [loadedEntry, mark, he]
    refine ⟨_, _, hself.trans hl, fun hc => by simp [hold hc], fun hc => ?_⟩
    rcases Bool.or_eq_true_iff.mp hc with hc | hc
    · exact hnew hc
    simp only [mark, Bool.and_eq_true, decide_eq_true_eq] at hc
    exact .inr (h.failed hc.1.2 hc.2)
  case candidates =>
  intro b hb hv hc
  have hcand : (s.loadEntry verdict a).candidates =
      ((s.countEntry a).insertCandidateIf verdict (s.loadsCandidate a) a).candidates := rfl
  rw [hcand]
  by_cases he : b = a
  · subst he
    rw [hself] at hv hc
    have hl : s.loadsCandidate b := by
      simp [loadsCandidate, hv, hc]
    rw [hl]
    exact KeyedSet.exists_mem_insert _ b
  rw [hne b he] at hv hc
  obtain ⟨c, hm, hw⟩ := h.candidates b ((mem_cons.mp hb).resolve_left he) hv hc
  exact ⟨c, mem_insertCandidateIf_of_mem hm, hw⟩

lemma Reindexing.of_standing (verdict) (hs : Standing g s)
    (ho : order.Perm s.blocks) (hsort : order.Pairwise (·.length ≤ ·.length)) :
    ∃ done, Reindexing s.reloaded (order.foldl (ChainState.loadEntry verdict) s.reloaded) done ∧
      ∀ p ∈ s.blocks, p ∈ done := by
  have h0 : Reindexing s.reloaded s.reloaded [] :=
    ⟨fun a => ⟨_, _, rfl, id, .inl⟩, fun a ha => absurd ha not_mem_nil⟩
  exact load_rule verdict (fun s done p h _ hd _ => h.loadEntry hd) h0 hs.toTree.reloaded ho hsort

end

variable {params : Params} {st st1 st2 : NodeState} {p q : CBlockIndex}
variable {genesis : CBlockHeader} {root : IndexHeader} {hash : Uint256} {f : FilePart}
variable {Meets : NodeChain → Event IndexHeader → Prop}
variable {b : IndexHeader} {pprev : CBlockIndex} {ld : LoadState} {done : List CBlockIndex}
variable {verdict : CBlockIndex → CBlockIndex → Verdict}

section

lemma wordBits (validity : Fin 8) (haveData haveUndo failedValid failedChild fProofOfStake
    stakeModifier newFormat) : let e : IndexEntry :=
      { validity := validity, haveData := haveData, failedValid := failedValid,
        failedChild := failedChild, stakeModifier := stakeModifier, newFormat := newFormat }
    let word := statusWord fProofOfStake e { haveUndo := haveUndo }
    (word &&& BLOCK_VALID_MASK).toNat = validity ∧
      (word &&& BLOCK_HAVE_DATA ≠ 0 : Bool) = haveData ∧
      (word &&& BLOCK_HAVE_UNDO ≠ 0 : Bool) = haveUndo ∧
      (word &&& BLOCK_FAILED_VALID ≠ 0 : Bool) = failedValid ∧
      (word &&& BLOCK_FAILED_CHILD ≠ 0 : Bool) = failedChild ∧
      (word &&& STATUS_PROOF_OF_STAKE ≠ 0 : Bool) = fProofOfStake ∧
      (word &&& STATUS_STAKE_MODIFIER ≠ 0 : Bool) = stakeModifier ∧
      (word &&& STATUS_NEW_FORMAT ≠ 0 : Bool) = newFormat := by
  decide +revert +kernel

-- The bits of `nStatus`, as an object tests them.
structure StatusOf (o : IndexObject) (fProofOfStake : Bool) (e : IndexEntry) (f : FilePart) : Prop where
  validity : (o.nStatus &&& BLOCK_VALID_MASK).toNat = e.validity
  haveData : o.hasStatus BLOCK_HAVE_DATA = e.haveData
  haveUndo : o.hasStatus BLOCK_HAVE_UNDO = f.haveUndo
  failedValid : o.hasStatus BLOCK_FAILED_VALID = e.failedValid
  failedChild : o.hasStatus BLOCK_FAILED_CHILD = e.failedChild
  fProofOfStake : o.hasStatus STATUS_PROOF_OF_STAKE = fProofOfStake
  stakeModifier : o.hasStatus STATUS_STAKE_MODIFIER = (e.stakeModifier || f.generated)
  newFormat : o.hasStatus STATUS_NEW_FORMAT = e.newFormat

lemma statusOf_statusWord {fProofOfStake : Bool} (hv : e.validity < 8)
    (h : o.nStatus = statusWord fProofOfStake e f) : StatusOf o fProofOfStake e f := by
  have hb := wordBits ⟨e.validity, hv⟩ e.haveData f.haveUndo e.failedValid e.failedChild fProofOfStake
    (e.stakeModifier || f.generated) e.newFormat
  have he : statusWord fProofOfStake e f = statusWord fProofOfStake
      { validity := e.validity, haveData := e.haveData, failedValid := e.failedValid,
        failedChild := e.failedChild, stakeModifier := e.stakeModifier || f.generated,
        newFormat := e.newFormat } { haveUndo := f.haveUndo } := by
    simp [statusWord]
  simp only [← he, ← h] at hb
  obtain ⟨h1, h2, h3, h4, h5, h6, h7, h8⟩ := hb
  exact ⟨h1, h2, h3, h4, h5, h6, h7, h8⟩

lemma statusWord_congr {fProofOfStake : Bool}
    (hc : coreOf { e1 with nChainTx := 0 } = coreOf { e2 with nChainTx := 0 })
    (hn : e1.newFormat = e2.newFormat) (hu : f1.haveUndo = f2.haveUndo)
    (hm : (e1.stakeModifier || f1.generated) = (e2.stakeModifier || f2.generated)) :
    statusWord fProofOfStake e1 f1 = statusWord fProofOfStake e2 f2 := by
  simp only [coreOf, IndexEntry.mk.injEq] at hc
  simp [statusWord, hc.2.2.1, hc.2.2.2.1, hu, hc.2.2.2.2.2.1, hc.2.2.2.2.2.2.1, hm, hn]

lemma statusWord_failedChild (fProofOfStake e f) :
    statusWord fProofOfStake { e with failedChild := true } f =
      statusWord fProofOfStake e f ||| BLOCK_FAILED_CHILD := by
  apply BitVec.eq_of_getLsbD_eq
  intro i _
  simp only [statusWord, BitVec.getLsbD_or, if_true]
  cases e.failedChild <;> simp [Bool.or_comm, Bool.or_left_comm]

lemma hasStatus_or (o : IndexObject) (h : o.hasStatus BLOCK_HAVE_DATA) :
    o.hasStatus (BLOCK_HAVE_DATA ||| BLOCK_HAVE_UNDO) := by
  simp only [IndexObject.hasStatus, decide_eq_true_eq] at h ⊢
  intro hz
  refine h ?_
  have hm : BLOCK_HAVE_DATA = (BLOCK_HAVE_DATA ||| BLOCK_HAVE_UNDO) &&& BLOCK_HAVE_DATA := by decide
  rw [hm, ← BitVec.and_assoc, hz]
  exact BitVec.zero_and

structure Ranged (st : NodeState) (p : CBlockIndex) : Prop where
  nHeight : nHeight p ≤ 2 ^ 31 - 1
  nTx : (st.chain.entry p).nTx ≤ 2 ^ 32 - 1
  nFile : (st.files p).nFile ≤ 2 ^ 31 - 1
  nDataPos : (st.files p).nDataPos ≤ 2 ^ 32 - 1
  nUndoPos : (st.files p).nUndoPos ≤ 2 ^ 32 - 1
  validity : (st.chain.entry p).validity < 8

lemma nPowHeight_le (p : CBlockIndex) : p.nPowHeight ≤ nHeight p := by
  fun_induction nPowHeight p
  case case1 => exact Nat.zero_le _
  case case2 => exact Nat.zero_le _
  case case3 b pprev hn hi =>
  have hl := length_pos_of_ne_nil hn
  simp only [Taler.nHeight, length_cons] at hi ⊢
  split <;> omega

lemma blockMap_mem (hk : Indexed root st.chain) (hp : p ∈ st.chain.blocks) :
    st.blockMap p.getBlockHash = some (st.node p) := by
  rw [blockMap, hk.lookup hp, if_neg (hk.ne_nil hp)]

lemma blockMap_eq_some {node : IndexNode} (h : st.blockMap hash = some node) :
    ∃ p ∈ st.chain.blocks, getBlockHash p = hash ∧ node = st.node p := by
  simp only [blockMap] at h
  split at h
  · nomatch h
  case isFalse hn =>
  have ⟨hm, hh⟩ := NodeChain.lookupBlockIndex_mem hn
  exact ⟨_, hm, hh, (Option.some.inj h).symm⟩

lemma blockMap_nHeight (hk : Indexed root st.chain) (hp : p ∈ st.chain.blocks) :
    st.blockMap.nHeight p.getBlockHash = nHeight p := by
  rw [BlockMap.nHeight, blockMap_mem hk hp]
  cases p
  case nil => exact absurd rfl (hk.ne_nil hp)
  case cons b pprev => rfl

lemma statusOf_node (hr : Ranged st (b :: pprev)) :
    StatusOf (st.node (b :: pprev)).toIndexObject (b.fProofOfStake && !b.isNewestFormat)
      (st.chain.entry (b :: pprev)) (st.files (b :: pprev)) :=
  statusOf_statusWord hr.validity rfl

lemma node_hashPrev : (st.node (b :: pprev)).hashPrev = getBlockHash pprev := by
  simp only [IndexNode.hashPrev, node]
  split
  case isTrue he =>
    rw [he]
    rfl
  · rfl

lemma chainTx_congr {s t : NodeChain}
    (h : ∀ q, q <:+ p → q ≠ [] → (s.entry q).nTx = (t.entry q).nTx) : s.chainTx p = t.chainTx p := by
  induction p
  case nil => rfl
  case cons b p hi =>
  have hp := hi fun q hq => h q (hq.trans (suffix_cons b p))
  simp [chainTx, hp, h _ suffix_rfl (cons_ne_nil b p)]

end

section

-- The data of a block is written to a file when it arrives.
def arrivedFiles (files : CBlockIndex → FilePart) (nFile nDataPos : Nat) :
    Event IndexHeader → CBlockIndex → FilePart
  | .block p _ =>
    update files p { files p with nFile := nFile, nDataPos := nDataPos, nUndoPos := 0 }
  | _ => files

-- An entry has a position only if its status announces it.
structure Filed (st : NodeState) : Prop where
  data : ∀ p, (st.chain.entry p).haveData = false →
           (st.files p).nFile = 0 ∧ (st.files p).nDataPos = 0 ∧ (st.files p).haveUndo = false
  undo : ∀ p, (st.files p).haveUndo = false → (st.files p).nUndoPos = 0

lemma Filed.update (h : Filed st) {chain : NodeChain}
    (hd : ∀ q ≠ p, (chain.entry q).haveData = (st.chain.entry q).haveData)
    (hp : (chain.entry p).haveData = false → f.nFile = 0 ∧ f.nDataPos = 0 ∧ f.haveUndo = false)
    (hu : f.haveUndo = false → f.nUndoPos = 0) : Filed ⟨chain, update st.files p f⟩ := by
  constructor
  case data =>
    intro q hq
    by_cases he : q = p
    · simpa [he] using hp (he ▸ hq)
    · simpa [he] using h.data q ((hd q he).symm.trans hq)
  case undo =>
  intro q hq
  by_cases he : q = p
  · simpa [he] using hu (by simpa [he] using hq)
  · simpa [he] using h.undo q (by simpa [he] using hq)

lemma Filed.call {chain : NodeChain} {ctx : AcceptContext} (h : Filed st)
    (hs : Standing root st.chain) (hl : e.Legal st.chain)
    (hr : st.chain.perform ctx.verdict e = some chain) :
    Filed ⟨chain, arrivedFiles st.files nFile nDataPos e⟩ := by
  by_cases hb : ∃ p nTx, e = .block p nTx
  · obtain ⟨p, nTx, rfl⟩ := hb
    have hd := receivedBlockTransactions_sameData ctx.verdict hs hl
    obtain rfl := Option.some.inj hr
    refine h.update (fun q hq => ?_) (fun hp => ?_) (fun _ => rfl)
    · rw [hd.haveData, setEntry_entry_ne _ _ hq]
    rw [hd.haveData, setEntry_entry_self, receivedEntry_eq hl.2.2.1] at hp
    nomatch hp
  have hfiles : arrivedFiles st.files nFile nDataPos e = st.files := by
    cases e
    case block p nTx => exact absurd ⟨p, nTx, rfl⟩ hb
    all_goals rfl
  rw [hfiles]
  push Not at hb
  rcases perform_sameData hs hl hb hr with hd | ⟨_, p, flags, rfl, rfl⟩
  · exact ⟨fun q hq => h.data q ((hd.haveData q).symm.trans hq), h.undo⟩
  rw [← update_eq_self p st.files]
  refine h.update (fun q hq => ?_) (fun _ => h.data p ?_) (h.undo p)
  · simp [addToBlockIndex, setEntry_entry_ne _ _ hq]
  · exact Bool.eq_false_iff.mpr fun hd => hl.1 (hs.data p hd).1

end

section

-- The work and the skip pointers that the loop has computed so far.
structure Linked (ld : LoadState) (done : List CBlockIndex) : Prop where
  ne_nil : ∀ q ∈ done, q ≠ []
  closed : ∀ q ∈ done, q.tail = [] ∨ q.tail ∈ done
  nChainWork : ∀ q ∈ done, ld.nChainWork q = nChainWork blockProof q
  pskip : ∀ q ∈ done, SkipsTo ld.pskip q
  pending : ∀ q, q ∉ done → ld.pskip q = []

lemma Linked.suffix_mem (h : Linked ld done) (hq : q ∈ done) (hp : p <:+ q) (hn : p ≠ []) :
    p ∈ done :=
  ancestor_rule (fun _ _ hn hq => (h.closed _ hq).resolve_left hn) hq hp hn

lemma Linked.load (h : Linked ld done) (hn : p ≠ []) (hd : p ∉ done)
    (ht : p.tail = [] ∨ p.tail ∈ done) : Linked (ld.load verdict p) (p :: done) := by
  constructor
  case ne_nil => exact forall_mem_cons.mpr ⟨hn, h.ne_nil⟩
  case closed =>
    intro q hq
    rcases mem_cons.mp hq with rfl | hq
    · exact ht.imp_right (mem_cons_of_mem _)
    · exact (h.closed q hq).imp_right (mem_cons_of_mem _)
  case nChainWork =>
    intro q hq
    simp only [LoadState.load]
    rcases mem_cons.mp hq with rfl | hq
    · rw [update_self]
      cases q
      case nil => exact absurd rfl hn
      case cons b q =>
      by_cases hq : q = []
      · rw [tail_cons, if_pos hq, hq]
        rfl
      rw [tail_cons, if_neg hq, h.nChainWork q (ht.resolve_left hq)]
      rfl
    have hne : q ≠ p := fun he => hd (he ▸ hq)
    rw [update_of_ne hne]
    exact h.nChainWork q hq
  case pskip =>
    intro q hq
    rcases mem_cons.mp hq with rfl | hq
    · refine SkipsTo.buildSkip ?_ (h.pending q hd) hn
      rcases ht with ht | ht
      · intro r hr
        rw [ht] at hr
        rw [suffix_nil.mp hr]
        exact .inl (h.pending [] fun hm => h.ne_nil _ hm rfl)
      · exact h.pskip _ ht
    -- The entry is no ancestor of one that was loaded before.
    intro r hr
    have hne : r ≠ p := fun he => hd (h.suffix_mem hq (he ▸ hr) hn)
    simp only [LoadState.load, update_of_ne hne]
    exact h.pskip q hq r hr
  case pending =>
  intro q hq
  have ⟨hqp, hqd⟩ := ne_and_not_mem_of_not_mem_cons hq
  simp only [LoadState.load, update_of_ne hqp]
  exact h.pending q hqd

lemma Linked.of_tree (verdict) (ht : Tree root ld.chain)
    (hw : ld.pskip = fun _ => []) (hsort : ld.chain.blocks.Pairwise (·.length ≤ ·.length)) :
    ∃ done, Linked (ld.chain.blocks.foldl (LoadState.load verdict) ld) done ∧
      ∀ p ∈ ld.chain.blocks, p ∈ done := by
  have h0 : Linked ld [] := ⟨by simp, by simp, by simp, by simp, fun q _ => by rw [hw]⟩
  exact height_rule (fun ld done p h hp hd ht' => h.load (ht.ne_nil hp) hd ht') h0
    (fun p hp => ht.ne_nil hp) ht.parent (fun p hp => hp) (fun p hp => .inr hp) ht.nodup
    (fun p _ => not_mem_nil) hsort

lemma foldl_load (verdict ld) (order : List CBlockIndex) :
    (order.foldl (load verdict) ld).chain = order.foldl (loadEntry verdict) ld.chain ∧
      (order.foldl (load verdict) ld).files = ld.files ∧
      (order.foldl (load verdict) ld).objects = ld.objects := by
  induction order generalizing ld
  case nil => exact ⟨rfl, rfl, rfl⟩
  case cons p order hi => exact hi (ld.load verdict p)

end

variable [Crypto]

section

-- A header that can be stored. `InsertBlockIndex` takes the null hash for the null pointer.
structure Storable (header : CBlockHeader) : Prop extends header.Wired where
  hash : header.getHash ≠ 0

-- The calls on the chain state that meet a condition, and what connecting adds to an entry.
inductive IndexStep (params : Params) (Meets : NodeChain → Event IndexHeader → Prop) :
    NodeState → NodeState → Prop
  | call {st : NodeState} {chain : NodeChain} (ctx : AcceptContext) (e : Event IndexHeader)
      (nFile nDataPos : Nat) (same : ctx.params = params) (legal : e.Legal st.chain)
      (accepts : ctx.Accepts Storable st.chain e) (meets : Meets st.chain e)
      (result : st.chain.perform ctx.verdict e = some chain) :
      IndexStep params Meets st ⟨chain, arrivedFiles st.files nFile nDataPos e⟩
  | undo {st : NodeState} (p : CBlockIndex) (nUndoPos : Nat)
      (data : (st.chain.entry p).haveData) :
      IndexStep params Meets st ⟨st.chain, update st.files p
        { st.files p with nUndoPos := nUndoPos, haveUndo := true }⟩
  | modifier {st : NodeState} (p : CBlockIndex) :
      IndexStep params Meets st
        ⟨st.chain, update st.files p { st.files p with generated := true }⟩

abbrev IndexSteps (params : Params) (Meets : NodeChain → Event IndexHeader → Prop) :=
  Relation.ReflTransGen (IndexStep params Meets)

def startState (genesis : CBlockHeader) (nTx nFile nDataPos : Nat) : NodeState where
  chain := init blockProof (.ofHeader genesis) nTx
  files := update (fun _ => {}) [.ofHeader genesis] { nFile := nFile, nDataPos := nDataPos }

structure Kept (root : IndexHeader) (st : NodeState) : Prop extends Indexed root st.chain where
  arrived : ArrivedIndex Storable st.chain
  filed : Filed st

lemma IndexStep.kept (h : IndexStep params Meets st1 st2) (hk : Kept root st1) : Kept root st2 := by
  cases h
  case call ctx e nFile nDataPos hp hl ha _ hr =>
    have hn : NodeStep params Storable st1.chain _ := ⟨ctx, e, hp, hl, ha, hr⟩
    exact ⟨hn.indexed hk.toIndexed, NodeStep.arrivedIndex hn hk.toIndexed hk.arrived,
      hk.filed.call hk.toStanding hl hr⟩
  case undo p nUndoPos hd =>
    refine ⟨hk.toIndexed, hk.arrived, hk.filed.update (fun _ _ => rfl) (fun hz => ?_) nofun⟩
    nomatch hd.symm.trans hz
  case modifier p =>
  exact ⟨hk.toIndexed, hk.arrived,
    hk.filed.update (fun _ _ => rfl) (hk.filed.data p) (hk.filed.undo p)⟩

lemma IndexSteps.kept (h : IndexSteps params Meets st1 st2) (hk : Kept root st1) :
    Kept root st2 := by
  induction h
  case refl => exact hk
  case tail _ h hi => exact h.kept hi

lemma startState_kept {nTx : Nat} (hg : GenesisHeader Storable genesis) (hx : nTx ≠ 0)
    (nFile nDataPos) : Kept (.ofHeader genesis) (startState genesis nTx nFile nDataPos) := by
  have hempty : Filed ⟨init blockProof (.ofHeader genesis) nTx, fun _ => {}⟩ :=
    ⟨fun _ _ => ⟨rfl, rfl, rfl⟩, fun _ _ => rfl⟩
  refine ⟨init_indexed hx, init_arrivedIndex hg nTx, hempty.update (fun _ _ => rfl) (fun h => ?_)
    fun _ => rfl⟩
  simp [init] at h

lemma IndexSteps.linking (h : IndexSteps params (fun s e => e.Linked s) st1 st2)
    (hk : Kept root st1) (hl : Linking st1.chain []) : Linking st2.chain [] := by
  induction h
  case refl => exact hl
  case tail hb h hi =>
  cases h
  case call ctx e _ _ _ hlegal _ hm hr =>
    exact hi.perform (IndexSteps.kept hb hk).toStanding hlegal hm hr
  case undo => exact hi
  case modifier => exact hi

end

section

lemma Kept.cons (hk : Kept root st) (hp : p ∈ st.chain.blocks) :
    ∃ (header : CBlockHeader) (pprev : CBlockIndex), p = ofHeader header :: pprev ∧
      Storable header ∧ getBlockHash pprev = header.hashPrevBlock ∧
      (pprev ≠ [] → pprev ∈ st.chain.blocks) := by
  have ⟨header, hs, _, he⟩ := hk.arrived p hp
  have hparent := hk.parent p hp
  cases p
  case nil => nomatch he.head
  case cons b pprev =>
  obtain rfl : b = ofHeader header := Option.some.inj he.head
  exact ⟨header, pprev, rfl, hs, he.parent, hparent⟩

lemma Kept.hash_ne_zero (hk : Kept root st) (hp : p ∈ st.chain.blocks) : p.getBlockHash ≠ 0 := by
  obtain ⟨header, pprev, rfl, hs, _⟩ := hk.cons hp
  exact hs.hash

lemma node_fits (hk : Kept root st) (hp : p ∈ st.chain.blocks) (hr : Ranged st p) :
    (st.node p).Fits := by
  obtain ⟨header, pprev, rfl, hs, _⟩ := hk.cons hp
  have hf := hs.fits
  exact {
    nHeight := hr.nHeight, nPowHeight := (nPowHeight_le _).trans hr.nHeight, nFile := hr.nFile
    nDataPos := hr.nDataPos, nUndoPos := hr.nUndoPos, nTx := hr.nTx
    hashMerkleRoot := hf.hashMerkleRoot, nTime := hf.nTime, nBits := hf.nBits, nNonce := hf.nNonce }

lemma node_blockHash (hk : Kept root st) (hp : p ∈ st.chain.blocks) (hr : Ranged st p) :
    (st.node p).blockHash = p.getBlockHash := by
  obtain ⟨header, pprev, rfl, hs, hprev, _⟩ := hk.cons hp
  rw [IndexNode.blockHash, node_hashPrev, hprev]
  have hstake := (statusOf_node hr).fProofOfStake
  rw [IndexObject.hasStatus_proofOfStake] at hstake
  have hnew : (ofHeader header).isNewestFormat = header.isNewestFormat := rfl
  have hpos : (ofHeader header).fProofOfStake = header.isProofOfStake := rfl
  have hpre : (st.node (ofHeader header :: pprev)).identity header.hashPrevBlock =
      header.hashPreimage := by
    have hflag : (!header.isNewestFormat && (header.isProofOfStake && !header.isNewestFormat)) =
        (!header.isNewestFormat && decide (header.nFlags &&& BLOCK_PROOF_OF_STAKE ≠ 0)) := by
      rw [CBlockHeader.isProofOfStake]
      cases header.isNewestFormat <;> simp
    rw [IndexObject.identity, hstake, CBlockHeader.hashPreimage, ← hflag]
    rfl
  rw [hpre]
  rfl

lemma blockMap_keyed (hk : Kept root st) (hr : ∀ p ∈ st.chain.blocks, Ranged st p) :
    st.blockMap.Keyed := by
  constructor
  case fits =>
    intro hash node hn
    obtain ⟨p, hp, _, rfl⟩ := blockMap_eq_some hn
    exact node_fits hk hp (hr p hp)
  case prev =>
    intro hash node hn
    obtain ⟨p, hp, _, rfl⟩ := blockMap_eq_some hn
    obtain ⟨header, pprev, rfl, hs, hprev, _⟩ := hk.cons hp
    rw [node_hashPrev, hprev]
    exact hs.fits.hashPrevBlock
  case hash =>
    intro hash node hn
    obtain ⟨p, hp, rfl, rfl⟩ := blockMap_eq_some hn
    exact node_blockHash hk hp (hr p hp)
  case parent =>
  intro hash node hn k hkey
  obtain ⟨p, hp, _, rfl⟩ := blockMap_eq_some hn
  obtain ⟨header, pprev, rfl, _, _, hparent⟩ := hk.cons hp
  simp only [node] at hkey
  split at hkey
  · nomatch hkey
  rename_i hpn
  obtain rfl := Option.some.inj hkey
  rw [blockMap_mem hk.toIndexed (hparent hpn)]
  rfl

lemma node_reload (hk : Kept root st) (hp : p ∈ st.chain.blocks) (hr : Ranged st p) :
    (st.node p).reload = st.node p := by
  obtain ⟨header, pprev, rfl, _, hprev, hparent⟩ := hk.cons hp
  have hs := statusOf_node hr
  have hd := hk.filed.data (ofHeader header :: pprev)
  have hu := hk.filed.undo (ofHeader header :: pprev)
  let node := st.node (ofHeader header :: pprev)
  have hpprev : (if node.hashPrev = 0 then none else some node.hashPrev) = node.pprev := by
    rw [node_hashPrev]
    by_cases hpn : pprev = []
    · simp [node, hpn, NodeState.node, getBlockHash]
    rw [if_neg (hk.hash_ne_zero (hparent hpn))]
    simp [node, NodeState.node, hpn]
  have h1 : (if node.hasStatus (BLOCK_HAVE_DATA ||| BLOCK_HAVE_UNDO) then node.nFile else 0) =
      node.nFile := by
    refine ite_eq_left_iff.mpr fun hc => ?_
    have hz := hs.haveData.symm.trans (Bool.eq_false_iff.mpr (mt (hasStatus_or _) hc))
    exact (hd hz).1.symm
  have h2 : (if node.hasStatus BLOCK_HAVE_DATA then node.nDataPos else 0) = node.nDataPos := by
    refine ite_eq_left_iff.mpr fun hc => ?_
    exact (hd (hs.haveData.symm.trans (Bool.eq_false_iff.mpr hc))).2.1.symm
  have h3 : (if node.hasStatus BLOCK_HAVE_UNDO then node.nUndoPos else 0) = node.nUndoPos := by
    refine ite_eq_left_iff.mpr fun hc => ?_
    exact (hu (hs.haveUndo.symm.trans (Bool.eq_false_iff.mpr hc))).symm
  have he : node.reload = { node with
      nFile := if node.hasStatus (BLOCK_HAVE_DATA ||| BLOCK_HAVE_UNDO) then node.nFile else 0
      nDataPos := if node.hasStatus BLOCK_HAVE_DATA then node.nDataPos else 0
      nUndoPos := if node.hasStatus BLOCK_HAVE_UNDO then node.nUndoPos else 0
      pprev := if node.hashPrev = 0 then none else some node.hashPrev } := rfl
  rw [he, h1, h2, h3, hpprev]

lemma loadBlockIndexGuts_blockMap {keys : List Uint256} (hk : Kept root st)
    (hr : ∀ p ∈ st.chain.blocks, Ranged st p) (hv : clientVersion ≤ CDiskBlockIndex.INT_MAX)
    (hkeys : keys.Perm (st.chain.blocks.map getBlockHash)) :
    BlockMap.loadBlockIndexGuts (st.blockMap.writeBatch clientVersion keys) = some st.blockMap := by
  have hm := blockMap_keyed hk hr
  have hmem k : k ∈ keys ↔ (st.blockMap k).isSome := by
    rw [hkeys.mem_iff, mem_map]
    constructor
    · rintro ⟨p, hp, rfl⟩
      rw [blockMap_mem hk.toIndexed hp]
      rfl
    intro hs
    have ⟨node, hn⟩ := Option.isSome_iff_exists.mp hs
    have ⟨p, hp, hh, _⟩ := blockMap_eq_some hn
    exact ⟨p, hp, hh⟩
  have hz : ∀ k ∈ keys, k ≠ 0 := by
    intro k hmem
    obtain ⟨p, hp, rfl⟩ := mem_map.mp (hkeys.mem_iff.mp hmem)
    exact hk.hash_ne_zero hp
  have ⟨m1, hl⟩ := BlockMap.loadBlockIndexGuts_returns hm hv hz
  have he : m1 = st.blockMap := by
    funext k
    rw [BlockMap.loadBlockIndexGuts_eq hm hv hmem hl k]
    cases hn : st.blockMap k
    case none => rfl
    case some node =>
    obtain ⟨p, hp, _, rfl⟩ := blockMap_eq_some hn
    rw [Option.map_some, node_reload hk hp (hr p hp)]
  rw [hl, he]

lemma node_indexHeader (hk : Kept root st) (hp : b :: pprev ∈ st.chain.blocks)
    (hr : Ranged st (b :: pprev)) :
    (st.node (b :: pprev)).indexHeader (getBlockHash (b :: pprev)) = b := by
  obtain ⟨header, _, he, _⟩ := hk.cons hp
  obtain ⟨rfl, rfl⟩ := cons.inj he
  have hstake : (if header.isNewestFormat then decide (header.nVersion &&& 0x00020000 ≠ 0)
      else (st.node (ofHeader header :: pprev)).hasStatus STATUS_PROOF_OF_STAKE) =
        header.isProofOfStake := by
    have hnew : (ofHeader header).isNewestFormat = header.isNewestFormat := rfl
    have hpos : (ofHeader header).fProofOfStake = header.isProofOfStake := rfl
    rw [(statusOf_node hr).fProofOfStake, hnew, hpos, CBlockHeader.isProofOfStake]
    cases header.isNewestFormat <;> simp
  have hb : (st.node (ofHeader header :: pprev)).indexHeader
      (getBlockHash (ofHeader header :: pprev)) =
      { ofHeader header with
        fProofOfStake := if header.isNewestFormat then decide (header.nVersion &&& 0x00020000 ≠ 0)
          else (st.node (ofHeader header :: pprev)).hasStatus STATUS_PROOF_OF_STAKE } := by
    simp only [IndexNode.indexHeader, CBlockHeader.isNewestFormat, decide_eq_true_eq]
    rfl
  rw [hb, hstake]
  rfl

lemma pointer_blockMap (hk : Kept root st) (hr : ∀ p ∈ st.chain.blocks, Ranged st p)
    (hp : p ∈ st.chain.blocks) (hn : p.length ≤ n) :
    st.blockMap.pointer n (some p.getBlockHash) = p := by
  induction p generalizing n
  case nil => exact absurd rfl (hk.ne_nil hp)
  case cons b pprev hi =>
  cases n
  case zero => simp at hn
  case succ n =>
  rw [BlockMap.pointer, blockMap_mem hk.toIndexed hp]
  simp only [node_indexHeader hk hp (hr _ hp)]
  have hparent := hk.parent _ hp
  congr 1
  by_cases hpn : pprev = []
  · have : (st.node (b :: pprev)).pprev = none := by simp [node, hpn]
    rw [this, hpn]
    cases n <;> rfl
  have : (st.node (b :: pprev)).pprev = some (getBlockHash pprev) := by
    simp [node, hpn]
  rw [this]
  exact hi (hparent hpn) (by simpa using hn)

end

section

variable {keys cursor : List Uint256} {clientVersion : Nat}

lemma node_entry (hk : Kept root st) (hp : p ∈ st.chain.blocks) (hr : Ranged st p) :
    coreOf (st.node p).indexEntry = coreOf { st.chain.entry p with nChainTx := 0 } ∧
      (st.node p).indexEntry.newFormat = (st.chain.entry p).newFormat ∧
      (st.node p).indexEntry.stakeModifier =
        ((st.chain.entry p).stakeModifier || (st.files p).generated) ∧
      (st.node p).filePart = { st.files p with generated := false } := by
  obtain ⟨header, pprev, rfl, _⟩ := hk.cons hp
  have hs := statusOf_node hr
  refine ⟨?_, hs.newFormat, hs.stakeModifier, ?_⟩
  · simp only [coreOf, IndexNode.indexEntry, hs.validity, hs.haveData, hs.failedValid, hs.failedChild]
    rfl
  simp only [IndexNode.filePart, hs.haveUndo]
  rfl

lemma pointer_getBlockHash (hk : Kept root st) (hr : ∀ p ∈ st.chain.blocks, Ranged st p)
    (hp : p ∈ st.chain.blocks) :
    st.blockMap.pointer (st.blockMap.nHeight p.getBlockHash + 1) (some p.getBlockHash) = p := by
  refine pointer_blockMap hk hr hp ?_
  rw [blockMap_nHeight hk.toIndexed hp, nHeight]
  omega

section

variable (hk : Kept root st) (hr : ∀ p ∈ st.chain.blocks, Ranged st p)
  (hkeys : keys.Perm (st.chain.blocks.map getBlockHash)) (best : Uint256)
include hk hr hkeys best

lemma start_blocks : let ld := start st.blockMap (st.blockMap.sortedByHeight keys) best
    ld.chain.blocks.Perm st.chain.blocks ∧ ld.chain.blocks.Pairwise (·.length ≤ ·.length) := by
  let pointer (hash : Uint256) : CBlockIndex :=
    st.blockMap.pointer (st.blockMap.nHeight hash + 1) (some hash)
  have hpointer (p : CBlockIndex) (hp : p ∈ st.chain.blocks) : pointer p.getBlockHash = p :=
    pointer_getBlockHash hk hr hp
  have hsort : (st.blockMap.sortedByHeight keys).Perm (st.chain.blocks.map getBlockHash) :=
    (perm_insertionSort _ _).trans hkeys
  constructor
  · have hid : st.chain.blocks.map (pointer ∘ getBlockHash) = st.chain.blocks :=
      (map_congr_left hpointer).trans (map_id' _)
    have hmap := hsort.map pointer
    rw [map_map, hid] at hmap
    exact hmap
  refine pairwise_map.mpr (List.Pairwise.imp_of_mem ?_ (pairwise_insertionSort _ _))
  intro a b ha hb hab
  obtain ⟨p, hp, rfl⟩ := mem_map.mp (hsort.mem_iff.mp ha)
  obtain ⟨q, hq, rfl⟩ := mem_map.mp (hsort.mem_iff.mp hb)
  rw [blockMap_nHeight hk.toIndexed hp, blockMap_nHeight hk.toIndexed hq, nHeight, nHeight] at hab
  have hqos := length_pos_of_ne_nil (hk.ne_nil hq)
  change (pointer p.getBlockHash).length ≤ (pointer q.getBlockHash).length
  rw [hpointer p hp, hpointer q hq]
  omega

lemma start_entry : let ld := start st.blockMap (st.blockMap.sortedByHeight keys) best
    (∀ p ∈ st.chain.blocks, ld.chain.entry p = (st.node p).indexEntry ∧
      ld.files p = (st.node p).filePart) ∧
    ∀ p, p ∉ st.chain.blocks → ld.chain.entry p = {} := by
  have ⟨hperm, _⟩ := start_blocks hk hr hkeys best
  simp only [start] at hperm ⊢
  constructor
  · intro p hp
    rw [if_pos (hperm.mem_iff.mpr hp), blockMap_mem hk.toIndexed hp]
    exact ⟨rfl, rfl⟩
  intro p hp
  rw [if_neg (mt hperm.mem_iff.mp hp)]
  rfl

end

-- The index before the loop, with the counts that the disk does not keep.
def withCounts (st : NodeState) (chain : NodeChain) : NodeChain :=
  { st.chain with
    blocks := chain.blocks
    entry := fun p =>
      { chain.entry p with
        nChainTx := if p ∈ st.chain.blocks then (st.chain.entry p).nChainTx else 0 }
    lost := false
    displaced := false }

lemma withCounts_restricted (hk : Kept root st) (hr : ∀ p ∈ st.chain.blocks, Ranged st p)
    (hkeys : keys.Perm (st.chain.blocks.map getBlockHash)) (best) :
    let ld := start st.blockMap (st.blockMap.sortedByHeight keys) best
    Restricted st.chain (withCounts st ld.chain) := by
  have ⟨hperm, _⟩ := start_blocks hk hr hkeys best
  have ⟨hin, hout⟩ := start_entry hk hr hkeys best
  intro ld
  constructor
  case blocks => exact hperm
  case tip => rfl
  case unlinked => rfl
  case failedBlocks => rfl
  case candidates => rfl
  case core =>
    intro p hp
    have he := (node_entry hk hp (hr p hp)).1
    simp only [withCounts, if_pos hp, ld, (hin p hp).1]
    let count (e : IndexEntry) : IndexEntry := { e with nChainTx := (st.chain.entry p).nChainTx }
    exact congrArg count he
  case rest =>
  intro p hp
  simp [withCounts, if_neg hp, ld, hout p hp]

lemma start_reloaded (hk : Kept root st) (hr : ∀ p ∈ st.chain.blocks, Ranged st p) :
    let ld := start st.blockMap (st.blockMap.sortedByHeight keys)
      (getBlockHash st.chain.tip)
    ld.chain = (withCounts st ld.chain).reloaded := by
  simp only [start, withCounts, ChainState.reloaded, pointer_getBlockHash hk hr hk.tip_mem]
  congr 1

lemma loadBlockIndex_eq (hk : Kept root st) (hr : ∀ p ∈ st.chain.blocks, Ranged st p)
    (hv : clientVersion ≤ CDiskBlockIndex.INT_MAX)
    (hcursor : cursor.Perm (st.chain.blocks.map getBlockHash)) (best) :
    loadBlockIndex verdict (st.blockMap.writeBatch clientVersion cursor) keys best =
      let ld := start st.blockMap (st.blockMap.sortedByHeight keys) best
      some (ld.chain.blocks.foldl (load verdict) ld) := by
  rw [loadBlockIndex, loadBlockIndexGuts_blockMap hk hr hv hcursor]
  rfl

-- After a restart entries have the same headers and parents. The loop may add a status bit.
structure Rebuilt (st : NodeState) (ld : LoadState) : Prop where
  blocks : ∀ p, p ∈ ld.chain.blocks ↔ p ∈ st.chain.blocks
  objects : ∀ p ∈ st.chain.blocks, ld.objects (getBlockHash p) = some (st.node p)
  nTx : ∀ p ∈ st.chain.blocks, (ld.chain.entry p).nTx = (st.chain.entry p).nTx
  files : ∀ p ∈ st.chain.blocks, (ld.files p).nFile = (st.files p).nFile ∧
                 (ld.files p).nDataPos = (st.files p).nDataPos ∧
                 (ld.files p).nUndoPos = (st.files p).nUndoPos
  nStatus : ∀ p ∈ st.chain.blocks, ld.nStatus p = st.nStatus p ∨
                 ld.nStatus p = st.nStatus p ||| BLOCK_FAILED_CHILD ∧
                   ∃ f, f <:+ p.tail ∧ f ≠ [] ∧ st.chain.failed f
  nChainWork : ∀ p ∈ st.chain.blocks, ld.nChainWork p = Taler.nChainWork blockProof p
  nChainTx : ∀ p ∈ st.chain.blocks, (ld.chain.entry p).nChainTx = (st.chain.entry p).nChainTx
  ancestor : ∀ p ∈ st.chain.blocks, ∀ height, getAncestorBy ld.pskip p height = getAncestor p height
  candidates : ∀ p ∈ st.chain.blocks, (ld.chain.entry p).isValid BLOCK_VALID_TRANSACTIONS →
                 (ld.chain.entry p).nChainTx ≠ 0 → ∃ c ∈ ld.chain.candidates,
                   Taler.nChainWork blockProof p ≤ Taler.nChainWork blockProof c

lemma Reindexing.nStatus {t s : NodeChain} {files : CBlockIndex → FilePart} (hk : Kept root st)
    (hp : p ∈ st.chain.blocks) (hr : Ranged st p) (h : Reindexing t s done)
    (ht : t.entry p = (st.node p).indexEntry) (hf : files p = (st.node p).filePart)
    (hfailed : ∀ q, t.failed q → st.chain.failed q) :
    NodeState.nStatus ⟨s, files⟩ p = st.nStatus p ∨
      NodeState.nStatus ⟨s, files⟩ p = st.nStatus p ||| BLOCK_FAILED_CHILD ∧
        ∃ f, f <:+ p.tail ∧ f ≠ [] ∧ st.chain.failed f := by
  have ⟨hcore, hnew, hmod, hfile⟩ := node_entry hk hp hr
  have ⟨n, fc, he, hold, hmark⟩ := h.entry p
  let e := st.chain.entry p
  -- But for the mark, the status is the same.
  have hword fProofOfStake : statusWord fProofOfStake (s.entry p) (files p) =
      statusWord fProofOfStake { e with failedChild := fc } (st.files p) := by
    rw [he, ht, hf, hfile]
    refine statusWord_congr ?_ hnew rfl ?_
    · let mark (e : IndexEntry) : IndexEntry := { e with nChainTx := 0, failedChild := fc }
      exact congrArg mark hcore
    · exact (Bool.or_false _).trans hmod
  simp only [NodeState.nStatus, hword]
  cases hc : e.failedChild
  case true =>
    have hfc : fc = true := by
      refine hold ?_
      rw [ht]
      exact (congrArg failedChild hcore).trans hc
    have hsame : ({ e with failedChild := fc } : IndexEntry) = e := by rw [hfc, ← hc]
    exact .inl (by rw [hsame])
  case false =>
  cases hfc : fc
  case false =>
    have hsame : ({ e with failedChild := false } : IndexEntry) = e := by rw [← hc]
    exact .inl (by rw [hsame])
  refine .inr ⟨statusWord_failedChild .., ?_⟩
  have hm := (hmark hfc).resolve_left ?_
  · have ⟨f, hs, hn, hf⟩ := hm
    exact ⟨f, hs, hn, hfailed f hf⟩
  rw [ht]
  have := (congrArg failedChild hcore).trans hc
  exact fun hx => by simp [show (st.node p).indexEntry.failedChild = false from this] at hx

lemma Kept.rebuilt (verdict : CBlockIndex → CBlockIndex → Verdict) (hk : Kept root st)
    (hl : Linking st.chain []) (hr : ∀ p ∈ st.chain.blocks, Ranged st p)
    (hkeys : keys.Perm (st.chain.blocks.map getBlockHash)) :
    let ld := start st.blockMap (st.blockMap.sortedByHeight keys)
      (getBlockHash st.chain.tip)
    Rebuilt st (ld.chain.blocks.foldl (load verdict) ld) := by
  intro ld
  let t := withCounts st ld.chain
  have ⟨hperm, hsort⟩ := start_blocks hk hr hkeys (getBlockHash st.chain.tip)
  have ⟨hin, _⟩ := start_entry hk hr hkeys (getBlockHash st.chain.tip)
  have hres : Restricted st.chain t := withCounts_restricted hk hr hkeys _
  have hstart : ld.chain = t.reloaded := start_reloaded hk hr
  have hs := hres.standing hk.toStanding
  have hmem p : p ∈ ld.chain.blocks ↔ p ∈ st.chain.blocks := hperm.mem_iff
  -- The loop, as it runs on the chain state, and on the work and the skip pointers.
  have ⟨hchain, hfiles, hobjects⟩ := foldl_load verdict ld ld.chain.blocks
  have htree : Tree root ld.chain := hstart ▸ hs.toTree.reloaded
  have ⟨done, hlinked, hdone⟩ := Linked.of_tree verdict htree rfl hsort
  have ⟨done', hindex, hdone'⟩ := Reindexing.of_standing verdict hs (List.Perm.refl _) hsort
  have hlink := (hres.linking hk.toTree hl).load verdict hs (List.Perm.refl _) hsort
  have ⟨_, hreload, hcount, _⟩ := hs.recount verdict (List.Perm.refl _) hsort
  have hblocks : (ld.chain.blocks.foldl (loadEntry verdict) t.reloaded).blocks = ld.chain.blocks :=
    foldl_loadEntry_blocks
  generalize ld.chain.blocks.foldl (load verdict) ld = final at *
  have hchain :=
    hchain.trans (congrArg (fun c => ld.chain.blocks.foldl (loadEntry verdict) c) hstart)
  change Reindexing t.reloaded (ld.chain.blocks.foldl (loadEntry verdict) t.reloaded) done' at hindex
  change Linking (ld.chain.blocks.foldl (loadEntry verdict) t.reloaded) [] at hlink
  change Reloading root (ld.chain.blocks.foldl (loadEntry verdict) t.reloaded) _ at hreload
  change Recounting t (ld.chain.blocks.foldl (loadEntry verdict) t.reloaded) _ at hcount
  rw [← hchain] at hindex hlink hreload hcount hblocks
  have hnTx p (hp : p ∈ st.chain.blocks) :
      (final.chain.entry p).nTx = (st.chain.entry p).nTx :=
    (hcount.nTx p).trans (hres.field_mem (·.nTx) hp)
  constructor
  case blocks => exact fun p => hblocks ▸ hmem p
  case objects =>
    intro p hp
    rw [hobjects]
    exact blockMap_mem hk.toIndexed hp
  case nTx => exact hnTx
  case files =>
    intro p hp
    rw [hfiles, (hin p hp).2, (node_entry hk hp (hr p hp)).2.2.2]
    exact ⟨rfl, rfl, rfl⟩
  case nStatus =>
    intro p hp
    refine Reindexing.nStatus hk hp (hr p hp) hindex ?_ ?_ ?_
    · rw [← hstart]
      exact (hin p hp).1
    · rw [hfiles]
      exact (hin p hp).2
    intro q hq
    have hn := Bool.eq_false_iff.not_left.mpr hq
    exact (hres.field failed hn).2.symm.trans hq
  case nChainWork => exact fun p hp => hlinked.nChainWork p (hdone p ((hmem p).mpr hp))
  case nChainTx =>
    intro p hp
    rw [hlink.nChainTx_eq hreload.tree p (hk.ne_nil hp), hl.nChainTx_eq hk.toTree p (hk.ne_nil hp)]
    exact chainTx_congr fun q hq hn => hnTx q (hk.suffix_mem hp hq hn)
  case ancestor =>
    intro p hp height
    exact getAncestorBy_eq (hlinked.pskip p (hdone p ((hmem p).mpr hp))) (hk.ne_nil hp) height
  case candidates =>
  intro p hp hv hc
  have ⟨c, hm, hw⟩ := hindex.candidates p (hdone' p ((hmem p).mpr hp)) hv hc
  exact ⟨c, hm, hw.ge⟩

-- The index is read back as written if no block arrived on a failed incomplete parent.
theorem loadBlockIndex_rebuilds {nTx nFile nDataPos : Nat} (hg : GenesisHeader Storable genesis)
    (hx : nTx ≠ 0)
    (h : IndexSteps params (fun s e => e.Linked s) (startState genesis nTx nFile nDataPos) st)
    (hr : ∀ p ∈ st.chain.blocks, Ranged st p) (hv : clientVersion ≤ CDiskBlockIndex.INT_MAX)
    (hcursor : cursor.Perm (st.chain.blocks.map getBlockHash))
    (hkeys : keys.Perm (st.chain.blocks.map getBlockHash))
    (verdict : CBlockIndex → CBlockIndex → Verdict) :
    ∃ ld, loadBlockIndex verdict (st.blockMap.writeBatch clientVersion cursor) keys
        (getBlockHash st.chain.tip) = some ld ∧ Rebuilt st ld := by
  have hstart := startState_kept hg hx nFile nDataPos
  have hk := IndexSteps.kept h hstart
  have hl := IndexSteps.linking h hstart init_linking
  exact ⟨_, loadBlockIndex_eq hk hr hv hcursor _, hk.rebuilt verdict hl hr hkeys⟩

end

end Taler

namespace Taler

open ChainState AcceptContext

section

local instance instCryptoForgotten : Crypto :=
  greatKernels

lemma IndexStep.call_start {params : Params} {Meets : NodeChain → Event IndexHeader → Prop}
    {ctx : AcceptContext} (hp : ctx.params = params) (hl : e.Legal s)
    (ha : ctx.Accepts Storable s e) (hm : Meets s e) (hr : s.perform ctx.verdict e = some s') :
    IndexStep params Meets ⟨s, fun _ => {}⟩ ⟨s', fun _ => {}⟩ := by
  have hfiles : arrivedFiles (fun _ => {}) 0 0 e = fun _ => {} := by
    cases e
    case block p _ => exact Function.update_eq_self p _
    all_goals rfl
  have hstep : IndexStep params Meets ⟨s, fun _ => {}⟩ ⟨s', arrivedFiles _ 0 0 e⟩ :=
    .call ctx e 0 0 hp hl ha hm hr
  rw [hfiles] at hstep
  exact hstep

lemma IndexSteps.of_nodeSteps {params : Params} {s s' : NodeChain}
    (h : NodeSteps params Storable s s') :
    IndexSteps params (fun _ _ => True) ⟨s, fun _ => {}⟩ ⟨s', fun _ => {}⟩ := by
  induction h
  case refl => exact .refl
  case tail _ h hi =>
  have ⟨ctx, e, hp, hl, ha, hr⟩ := h
  exact hi.tail (IndexStep.call_start hp hl ha trivial hr)

lemma startState_testGenesis : startState testGenesis 1 0 0 = ⟨testStart, fun _ => {}⟩ := by
  simp only [startState, testStart]
  congr 1
  exact Function.update_eq_self _ _

-- The second of three blocks comes first and is invalid, then the third, and at last the first.

def secondBlock : CBlockIndex :=
  ((stakedHeaders.take 2).map IndexHeader.ofHeader).reverse ++ [IndexHeader.ofHeader testGenesis]

def beforeInvalid : List Message :=
  .headers testContext (stakedHeaders.take 3) ::
    ((stakedBlocks.drop 1).take 1).map (.block testContext · true 2)

def afterInvalid : List Message :=
  (((stakedBlocks.drop 2).take 1) ++ stakedBlocks.take 1).map
    (.block { testContext with failedOrder := [secondBlock] } · true 2)

def reloadedNode (s : NodeChain) : LoadState :=
  let st : NodeState := ⟨s, fun _ => {}⟩
  let keys := s.blocks.map CBlockIndex.getBlockHash
  let ld := LoadState.start st.blockMap (st.blockMap.sortedByHeight keys) (CBlockIndex.getBlockHash s.tip)
  ld.chain.blocks.foldl (LoadState.load testContext.verdict) ld

def SmallIndex (s : NodeChain) : Prop :=
  ∀ p ∈ s.blocks, nHeight p ≤ 10 ∧ (s.entry p).nTx ≤ 10 ∧ (s.entry p).validity < 8

instance (s : NodeChain) : Decidable (SmallIndex s) :=
  inferInstanceAs (Decidable (∀ p ∈ s.blocks, _))

lemma SmallIndex.ranged (h : SmallIndex s) (hp : p ∈ s.blocks) : Ranged ⟨s, fun _ => {}⟩ p :=
  have ⟨hh, hx, hv⟩ := h p hp
  ⟨hh.trans (by decide), hx.trans (by decide), Nat.zero_le _, Nat.zero_le _, Nat.zero_le _, hv⟩

lemma forgotten_run :
    ∃ s1, receiveAll beforeInvalid testStart = some s1 ∧
      (Event.invalidate s1.blocks secondBlock).Legal s1 ∧
      ∃ s2, receiveAll afterInvalid
          (s1.invalidateBlock testContext.verdict s1.blocks secondBlock).2 = some s2 ∧
        SmallIndex s2 ∧ ∃ p ∈ s2.blocks,
          ((reloadedNode s2).chain.entry p).nChainTx ≠ (s2.entry p).nChainTx := by
  decide +kernel

lemma storable_messages : ∀ m ∈ beforeInvalid ++ afterInvalid, ∀ header ∈ m.blockHeaders,
    Storable header := by
  have h : ∀ m ∈ beforeInvalid ++ afterInvalid, ∀ header ∈ m.blockHeaders, header.Fits ∧
      (header.isNewestFormat → header.nFlags = 0) ∧ header.getHash ≠ 0 := by
    decide +kernel
  intro m hm header hh
  have ⟨hf, hn, hz⟩ := h m hm header hh
  exact ⟨⟨hf, hn⟩, hz⟩

lemma testGenesis_storable : GenesisHeader Storable testGenesis :=
  ⟨⟨⟨by decide, fun _ => rfl⟩, by decide⟩, by decide, rfl, rfl⟩

lemma messages_params : ∀ m ∈ beforeInvalid ++ afterInvalid, m.context.params = Params.testNet := by
  intro m hm
  simp only [beforeInvalid, afterInvalid, List.cons_append, List.mem_cons, List.mem_append,
    List.mem_map] at hm
  rcases hm with rfl | ⟨_, _, rfl⟩ | ⟨_, _, rfl⟩ <;> rfl

-- The third block has no count in memory, and has one after it was loaded.
theorem loadBlockIndex_recounts :
    ∃ (st : NodeState) (keys : List Uint256),
      IndexSteps Params.testNet (fun _ _ => True) (startState testGenesis 1 0 0) st ∧
      (∀ p ∈ st.chain.blocks, Ranged st p) ∧
      keys.Perm (st.chain.blocks.map CBlockIndex.getBlockHash) ∧
      ∃ ld, loadBlockIndex testContext.verdict (st.blockMap.writeBatch 1 keys) keys
          (CBlockIndex.getBlockHash st.chain.tip) = some ld ∧
        ∃ p ∈ st.chain.blocks, (ld.chain.entry p).nChainTx ≠ (st.chain.entry p).nChainTx := by
  have ⟨s1, hr1, hlegal, s2, hr2, hsmall, hcount⟩ := forgotten_run
  have hinit : Indexed (.ofHeader testGenesis) testStart := init_indexed (by decide)
  have hsteps1 :=
    receiveAll_steps hinit rfl (fun m hm => messages_params m (List.mem_append_left _ hm))
      (fun m hm => storable_messages m (List.mem_append_left _ hm)) hr1
  have hinvalid :=
    hsteps1.tail ⟨testContext, .invalidate s1.blocks secondBlock, rfl, hlegal, trivial, rfl⟩
  have hsteps := hinvalid.trans (receiveAll_steps (NodeSteps.indexed hinvalid hinit) rfl
      (fun m hm => messages_params m (List.mem_append_right _ hm))
      (fun m hm => storable_messages m (List.mem_append_right _ hm)) hr2)
  have hindex : IndexSteps Params.testNet (fun _ _ => True) (startState testGenesis 1 0 0)
      ⟨s2, fun _ => {}⟩ := startState_testGenesis ▸ IndexSteps.of_nodeSteps hsteps
  have hk := IndexSteps.kept hindex (startState_kept testGenesis_storable (by decide) 0 0)
  have hr : ∀ p ∈ s2.blocks, Ranged ⟨s2, fun _ => {}⟩ p := fun p hp => hsmall.ranged hp
  exact ⟨⟨s2, fun _ => {}⟩, _, hindex, hr, List.Perm.refl _, _,
    loadBlockIndex_eq hk hr (by decide) (List.Perm.refl _) _, hcount⟩

theorem loadBlockIndex_rebuilds_child :
    ∃ (st : NodeState) (keys : List Uint256) (ld : LoadState), st.chain.blocks.length = 2 ∧
      loadBlockIndex testContext.verdict (st.blockMap.writeBatch 1 keys) keys
        (CBlockIndex.getBlockHash st.chain.tip) = some ld ∧ Rebuilt st ld := by
  let header := headerOn [IndexHeader.ofHeader testGenesis] false
  let p := newIndex testStart header
  let arrives : Event IndexHeader := .header [] p (AcceptContext.headerFlags header)
  have ⟨s1, hr1, hlinked, s2, hr2, hsmall, hlength⟩ :
      ∃ s1, testStart.step testContext.verdict arrives = some s1 ∧ (Event.block p 1).Linked s1 ∧
        ∃ s2, s1.step testContext.verdict (.block p 1) = some s2 ∧
          SmallIndex s2 ∧ s2.blocks.length = 2 := by
    decide +kernel
  rw [ChainState.step, Option.ite_none_right_eq_some] at hr1 hr2
  have hstorable : Storable header := ⟨⟨by decide +kernel, by decide +kernel⟩, by decide +kernel⟩
  have ha : testContext.Accepts Storable testStart arrives :=
    ⟨rfl, header, hstorable, by decide +kernel, by decide +kernel, rfl, rfl⟩
  have hstep1 : IndexStep Params.testNet (fun s e => e.Linked s) ⟨testStart, fun _ => {}⟩ _ :=
    .call_start rfl hr1.1 ha trivial hr1.2
  have hstep2 : IndexStep Params.testNet (fun s e => e.Linked s) ⟨s1, fun _ => {}⟩ _ :=
    .call_start (show testContext.params = _ from rfl) hr2.1 trivial hlinked hr2.2
  have hsteps := (Relation.ReflTransGen.single hstep1).tail hstep2
  rw [← startState_testGenesis] at hsteps
  have ⟨ld, hld, hrebuilt⟩ := loadBlockIndex_rebuilds testGenesis_storable (by decide) hsteps
    (fun p hp => hsmall.ranged hp) (show 1 ≤ CDiskBlockIndex.INT_MAX by decide) (List.Perm.refl _)
    (List.Perm.refl _) testContext.verdict
  exact ⟨_, _, ld, hlength, hld, hrebuilt⟩

end

end Taler
