import TalerModel.Validation.Theorems.Accept
import TalerModel.Validation.Theorems.StakeFlags

namespace Taler

open IndexHeader List Check ConnectContext

namespace Session

open AcceptContext

variable [Crypto] {params : Params} {genesis : CBlock} {s s' : Session} {p q : CBlockIndex}
  {block : CBlock} {header : CBlockHeader} {ctx : AcceptContext}

structure IsGenesis (params : Params) (genesis : CBlock) : Prop where
  hash : genesis.getHash = params.hashGenesisBlock
  format : genesis.isNewestFormat = false
  work : genesis.isProofOfStake = false

-- A possible index: every entry descends from genesis, and no stake is below the second fork.
structure Grown (params : Params) (root : CBlockIndex) (mem : CBlockIndex → Prop) : Prop where
  ne_nil : ∀ p, mem p → p ≠ []
  root : ∀ p, mem p → p.tail = [] → p = root
  parent : ∀ p, mem p → p.tail ≠ [] → mem p.tail
  unique : ∀ p q, mem p → mem q → p.getBlockHash = q.getBlockHash → p = q
  height : ∀ p, mem p → p.isProofOfStake → 2 ≤ params.forkNumber (nHeight p)

structure Inv (params : Params) (genesis : CBlock) (s : Session) : Prop where
  index : Grown params (rootOf genesis) (· ∈ s.index)
  disk : Grown params (rootOf genesis) fun p => (s.disk p).isSome
  kept : ∀ p, (s.disk p).isSome → p ∈ s.index
  dirty : ∀ p ∈ s.dirty, p ∈ s.index
  written : ∀ p ∈ s.index, p ∈ s.dirty ∨ (s.disk p).isSome
  files : ∀ p block, s.files p = some block → Vetted params block p
  -- The flag of the genesis block is there when it is needed: on disk, and once it is connected.
  stored : ∀ flag, s.disk (rootOf genesis) = some flag → flag = true
  flagged : s.chainActive ≠ [] → s.stake.generated (rootOf genesis)
  tip : s.chainActive ≠ [] → s.chainActive ∈ s.index

section

variable {root : CBlockIndex} {mem : CBlockIndex → Prop}

section

omit [Crypto]

lemma Grown.congr (h : Grown params root mem) (he : ∀ p, mem' p ↔ mem p) :
    Grown params root mem' := by
  obtain rfl : mem' = mem := funext fun p => propext (he p)
  exact h

lemma Grown.ancestor (h : Grown params root mem) (hp : mem p) (hq : q <:+ p) (hn : q ≠ []) :
    mem q :=
  ancestor_rule (fun _ _ hn hp => h.parent _ hp hn) hp hq hn

lemma Grown.root_suffix (h : Grown params root mem) (hp : mem p) : root <:+ p := by
  induction p
  case nil => exact absurd rfl (h.ne_nil [] hp)
  case cons b pprev hi =>
  by_cases hn : pprev = []
  · exact h.root _ hp hn ▸ suffix_refl _
  · exact (hi (h.parent _ hp hn)).trans (suffix_cons ..)

lemma Grown.insert (h : Grown params root mem) (hp : mem pprev)
    (hu : ∀ q, mem q → q.getBlockHash ≠ b.hash)
    (hh : b.fProofOfStake → 2 ≤ params.forkNumber (nHeight (b :: pprev))) :
    Grown params root fun q => mem q ∨ q = b :: pprev where
  ne_nil q hq := by
    rcases hq with hq | rfl
    · exact h.ne_nil q hq
    · exact cons_ne_nil b pprev
  root q hq ht := by
    rcases hq with hq | rfl
    · exact h.root q hq ht
    · exact absurd ht (h.ne_nil pprev hp)
  parent q hq ht := by
    rcases hq with hq | rfl
    · exact .inl (h.parent q hq ht)
    · exact .inl hp
  unique q r hq hr he := by
    rcases hq with hq | rfl <;> rcases hr with hr | rfl
    · exact h.unique q r hq hr he
    · exact absurd he (hu q hq)
    · exact absurd he.symm (hu r hr)
    · rfl
  height q hq hs := by
    rcases hq with hq | rfl
    · exact h.height q hq hs
    · exact hh hs

end

lemma Grown.single (hg : IsGenesis params genesis) :
    Grown params (rootOf genesis) (· = rootOf genesis) where
  ne_nil p hp := by rw [hp]; exact cons_ne_nil _ _
  root p hp _ := hp
  parent p hp ht := absurd (by rw [hp]; rfl) ht
  unique p q hp hq _ := hp.trans hq.symm
  height p hp hs := by
    rw [hp] at hs
    exact absurd (hg.work.symm.trans hs) Bool.false_ne_true

omit [Crypto] in
lemma generated_lastGenerated {generated : CBlockIndex → Bool} (hr : root <:+ p) (hn : root ≠ [])
    (hg : generated root) : generated (lastGenerated generated p) := by
  induction p
  case nil => exact absurd (suffix_nil.mp hr) hn
  case cons b pprev hi =>
  rw [lastGenerated]
  cases suffix_cons_iff.mp hr
  case inl he =>
    rw [if_neg (by simp [← he, hg])]
    exact he ▸ hg
  rename_i hs
  split
  · exact hi hs
  case isFalse hc =>
  have hne := hs.ne_nil hn
  simpa [hne] using hc

end

section

omit [Crypto] in
lemma lookup_mem {hash : Uint256} (h : s.lookupBlockIndex hash ≠ []) :
    s.lookupBlockIndex hash ∈ s.index ∧ (s.lookupBlockIndex hash).getBlockHash = hash := by
  rw [lookupBlockIndex] at h ⊢
  cases hf : s.index.find? (CBlockIndex.getBlockHash · = hash)
  case none => simp [hf] at h
  case some p => exact ⟨mem_of_find?_eq_some hf, by simpa using find?_some hf⟩

omit [Crypto] in
lemma lookup_of_mem (h : Grown params root (· ∈ s.index)) (hp : p ∈ s.index) :
    s.lookupBlockIndex p.getBlockHash = p := by
  have hn : s.lookupBlockIndex p.getBlockHash ≠ [] := by
    rw [lookupBlockIndex]
    cases hf : s.index.find? (CBlockIndex.getBlockHash · = p.getBlockHash)
    case none => simpa using find?_eq_none.mp hf p hp
    case some q => exact h.ne_nil q (mem_of_find?_eq_some hf)
  have ⟨hm, hh⟩ := lookup_mem hn
  exact h.unique _ _ hm hp hh

lemma Inv.findsAncestors (h : s.Inv params genesis) (hp : p ∈ s.index) :
    FindsAncestors s.lookupBlockIndex p.tail := fun _ hq hn =>
  lookup_of_mem h.index (h.index.ancestor hp (hq.trans (tail_suffix _)) hn)

lemma Inv.modifier_found (h : s.Inv params genesis) (hp : p ∈ s.index)
    (ht : p.tail = s.chainActive) (hn : p.tail ≠ []) :
    s.stake.generated (lastGenerated s.stake.generated p.tail) :=
  generated_lastGenerated (h.index.root_suffix (h.index.parent p hp hn)) (cons_ne_nil _ _)
    (h.flagged (ht ▸ hn))

end

section

-- A header whose hash is known has the fields of the entry with that hash.
def Agrees (s : Session) (header : CBlockHeader) : Prop :=
  s.lookupBlockIndex header.getHash ≠ [] →
    (s.lookupBlockIndex header.getHash).head? = some (ofHeader header)

omit [Crypto] in
lemma lookup_chain (hi : chain.blocks = s.index) (hash) :
    NodeChain.lookupBlockIndex chain hash = s.lookupBlockIndex hash := by
  rw [NodeChain.lookupBlockIndex, hi]
  rfl

-- What `AcceptBlockHeader` has found out about the entry that it returns.
structure Accepted (params : Params) (s : Session) (header : CBlockHeader) (pindex : CBlockIndex) :
    Prop where
  known : s.lookupBlockIndex header.getHash ≠ [] → pindex = s.lookupBlockIndex header.getHash
  new : s.lookupBlockIndex header.getHash = [] → ∃ pprev ∈ s.index,
            pindex = ofHeader header :: pprev ∧
            (header.isProofOfStake → 2 ≤ params.forkNumber (nHeight pindex))

lemma checkNewHeader_height (h : ctx.checkNewHeader chain header = .ok ()) :
    header.isProofOfStake → 2 ≤ ctx.params.forkNumber
      (nHeight (NodeChain.lookupBlockIndex chain header.hashPrevBlock) + 1) := by
  have ⟨_, h⟩ := seq_eq_ok.mp h
  have ⟨_, h⟩ := seq_eq_ok.mp h
  have ⟨_, h⟩ := seq_eq_ok.mp h
  have ⟨_, _, h⟩ := bind_eq_ok.mp h
  have ⟨_, h⟩ := seq_eq_ok.mp h
  have ⟨_, h⟩ := seq_eq_ok.mp h
  have ⟨h, _⟩ := seq_eq_ok.mp h
  intro hs
  apply Nat.succ_le_of_lt
  simpa [hs] using h

lemma Inv.accepted (h : s.Inv params genesis) (hg : IsGenesis params genesis)
    (hl : rootOf genesis ∈ s.index) (hs : ctx.params = params) (hi : chain.blocks = s.index)
    (ha : (ctx.acceptBlockHeader chain header).1 = .ok p) : Accepted params s header p := by
  have hlook := lookup_chain hi header.getHash
  rcases acceptBlockHeader_ok ha with ⟨hk, he⟩ | ⟨hk, he, hc⟩ <;> rw [he] at ha <;> rw [hlook] at hk
  · exact ⟨fun _ => hlook ▸ (Except.ok.inj ha).symm, fun hn => absurd hn hk⟩
  refine ⟨fun hn => absurd hk hn, fun _ => ?_⟩
  have hh : header.getHash ≠ ctx.params.hashGenesisBlock := by
    intro he
    have hr := lookup_of_mem h.index hl
    have hroot : (rootOf genesis).getBlockHash = header.getHash := by
      rw [he, hs]
      exact hg.hash
    rw [hroot, hk] at hr
    nomatch hr
  have hheight := checkNewHeader_height (hc hh)
  have hparent := (checkNewHeader_parent (hc hh)).1
  have hp := Except.ok.inj ha
  rw [newIndex] at hp
  rw [lookup_chain hi] at hheight hparent hp
  refine ⟨_, (lookup_mem hparent).1, hp.symm, fun hstake => ?_⟩
  have hn := length_pos_iff.mpr hparent
  have he : nHeight p = nHeight (s.lookupBlockIndex header.hashPrevBlock) + 1 := by
    rw [← hp, nHeight, nHeight, length_cons]
    omega
  rw [he, ← hs]
  exact hheight hstake

lemma Inv.addToBlockIndex (h : s.Inv params genesis)
    (hn : s.lookupBlockIndex header.getHash = []) (hp : p ∈ s.index)
    (hh : header.isProofOfStake → 2 ≤ params.forkNumber (nHeight (ofHeader header :: p))) :
    (s.addToBlockIndex (ofHeader header :: p) header).Inv params genesis := by
  have hu q (hq : q ∈ s.index) : q.getBlockHash ≠ header.getHash := by
    intro he
    have hl := lookup_of_mem h.index hq
    rw [he, hn] at hl
    exact h.index.ne_nil q hq hl.symm
  have hne : rootOf genesis ≠ ofHeader header :: p := fun he =>
    h.index.ne_nil p hp (cons.inj he).2.symm
  constructor
  case index =>
    have hins : Grown params (rootOf genesis) fun q =>
        q ∈ s.index ∨ q = ofHeader header :: p := h.index.insert hp hu hh
    exact hins.congr fun q => by simp [Session.addToBlockIndex]
  case disk => exact h.disk
  case kept => exact fun q hq => mem_append_left _ (h.kept q hq)
  case dirty =>
    intro q hq
    cases mem_cons.mp hq
    case inl he => exact he ▸ mem_append_right _ (mem_singleton_self _)
    case inr hq => exact mem_append_left _ (h.dirty q hq)
  case written =>
    intro q hq
    cases mem_append.mp hq
    case inl hq => exact (h.written q hq).imp_left (mem_cons_of_mem _)
    case inr hq => exact .inl (mem_singleton.mp hq ▸ mem_cons_self)
  case files => exact h.files
  case stored => exact h.stored
  case flagged =>
    intro ht
    have hf := h.flagged ht
    simp only [Session.addToBlockIndex]
    rwa [Function.update_of_ne hne]
  case tip => exact fun ht => mem_append_left _ (h.tip ht)

lemma Inv.addHeader (h : s.Inv params genesis) (ha : Accepted params s header p) :
    (s.addHeader p header).Inv params genesis ∧ p ∈ (s.addHeader p header).index := by
  rw [Session.addHeader]
  split
  case isTrue hk => exact ⟨h, ha.known hk ▸ (lookup_mem hk).1⟩
  rename_i hk
  have hk : s.lookupBlockIndex header.getHash = [] := by simpa using hk
  have ⟨pprev, hp, he, hh⟩ := ha.new hk
  subst he
  exact ⟨h.addToBlockIndex hk hp hh, mem_append_right _ (mem_singleton_self _)⟩

lemma Inv.saveBlock (h : s.Inv params genesis) (hp : p ∈ s.index)
    (hv : Vetted params block.fresh p) : (s.saveBlock p block).Inv params genesis := by
  constructor
  case index => exact h.index
  case disk => exact h.disk
  case kept => exact h.kept
  case dirty =>
    intro q hq
    cases mem_cons.mp hq
    case inl he => exact he ▸ hp
    case inr hq => exact h.dirty q hq
  case written => exact fun q hq => (h.written q hq).imp_left (mem_cons_of_mem _)
  case files =>
    intro q block' hq
    simp only [Session.saveBlock] at hq
    by_cases he : q = p
    · rw [he, Function.update_self] at hq
      cases hq
      exact he ▸ hv
    rw [Function.update_of_ne he] at hq
    exact h.files q block' hq
  case stored => exact h.stored
  case flagged => exact h.flagged
  case tip => exact h.tip

lemma WentThrough.coinstake (h : WentThrough params block) (hp : block.isProofOfStake)
    (hg : block.getHash ≠ params.hashGenesisBlock) :
    ∃ coinstake, block.vtx[1]? = some coinstake ∧ coinstake.vin ≠ [] := by
  have ⟨c, pprev, hc, hb, ha⟩ := h
  have hcontents := (checkBeforeMemo_ok.mp hb).2.2
  rw [checkAfterMemo_eq, hc] at ha
  cases hv : block.vtx[1]?
  case none =>
    simp [requireBlockSignature, checkBlockSignature, hg, hp, hv, Check.Returns, fault] at ha
  rename_i coinstake
  have ht := (checkContents_ok hcontents).2 coinstake (mem_of_getElem? hv)
  have hvin := (seq_eq_ok.mp ht).1
  exact ⟨coinstake, rfl, by simpa using hvin⟩

lemma Inv.vetted (h : s.Inv params genesis) (hg : IsGenesis params genesis) (hp : p ∈ s.index)
    (hh : p.head? = some (ofHeader block.getBlockHeader))
    (hw : p.tail ≠ [] → WentThrough params block) : Vetted params block p := by
  have hstake : p.isProofOfStake = block.isProofOfStake := by
    rw [CBlockIndex.isProofOfStake, hh]
    rfl
  have hhash : p.getBlockHash = block.getHash := by
    rw [CBlockIndex.getBlockHash, hh]
    rfl
  have hroot (ht : p.tail = []) :
      ofHeader block.getBlockHeader = ofHeader genesis.getBlockHeader := by
    have hr := h.index.root p hp ht
    rw [hr] at hh
    exact (Option.some.inj hh).symm
  have hwork (ht : p.tail = []) : block.isProofOfStake = false :=
    (congrArg fProofOfStake (hroot ht)).trans hg.work
  constructor
  case height => exact fun hs => h.index.height p hp (hstake.trans hs)
  case coinstake =>
    intro hs
    have ht : p.tail ≠ [] := fun ht => by simp [hwork ht] at hs
    refine (hw ht).coinstake hs fun he => ht ?_
    have hr := h.index.root_suffix hp
    have hm := h.index.ancestor hp hr (cons_ne_nil _ _)
    have hsame := h.index.unique p _ hp hm (by rw [hhash, he]; exact hg.hash.symm)
    rw [hsame]
    rfl
  case root =>
  intro ht
  have hv : block.nVersion = genesis.nVersion := congrArg nVersion (hroot ht)
  have hf := hg.format
  simp only [CBlockHeader.isNewestFormat] at hf ⊢
  rw [hv]
  exact hf

end

section

open EStateM

lemma Inv.loadGenesisBlock (h : s.Inv params genesis) (hg : IsGenesis params genesis) :
    (s.loadGenesisBlock params genesis).Inv params genesis := by
  rw [Session.loadGenesisBlock]
  split
  · exact h
  rename_i hk
  have hk : s.lookupBlockIndex params.hashGenesisBlock = [] := by simpa using hk
  have hnone : s.index = [] := by
    refine eq_nil_iff_forall_not_mem.mpr fun p hp => ?_
    have hm := h.index.ancestor hp (h.index.root_suffix hp) (cons_ne_nil _ _)
    have hl := lookup_of_mem h.index hm
    have hroot : (rootOf genesis).getBlockHash = params.hashGenesisBlock := hg.hash
    rw [hroot, hk] at hl
    nomatch hl
  have htip : s.chainActive = [] := by
    by_contra hn
    simpa [hnone] using h.tip hn
  have hdirty := eq_nil_iff_forall_not_mem.mpr fun p hp => by simpa [hnone] using h.dirty p hp
  refine saveBlock ?_ (mem_append_right _ (mem_singleton_self _)) ?_
  · constructor
    case index =>
      exact (Grown.single hg).congr fun q => by simp [Session.addToBlockIndex, hnone]
    case disk => exact h.disk
    case kept => exact fun q hq => mem_append_left _ (h.kept q hq)
    case dirty => simp [Session.addToBlockIndex, hnone, hdirty]
    case written => simp [Session.addToBlockIndex, hnone, hdirty]
    case files => exact h.files
    case stored => exact h.stored
    case flagged => exact fun ht => absurd htip ht
    case tip => exact fun ht => absurd htip ht
  exact ⟨fun hs => absurd (hg.work.symm.trans hs) Bool.false_ne_true,
    fun hs => absurd (hg.work.symm.trans hs) Bool.false_ne_true, fun _ => hg.format⟩

lemma Inv.acceptBlockHeader (h : s.Inv params genesis) (hg : IsGenesis params genesis)
    (hs : ctx.params = params) (hi : chain.blocks = s.index) (hl : rootOf genesis ∈ s.index) :
    (s.acceptBlockHeader ctx chain header).Inv params genesis := by
  rw [Session.acceptBlockHeader]
  split
  case h_1 => exact h
  case h_2 pindex ha => exact (h.addHeader (h.accepted hg hl hs hi ha)).1

lemma acceptBlock_stored (hh : ctx.acceptBlockHeader chain block.getBlockHeader = (.ok p, chain'))
    (hi : ctx.ignoresBlock chain' p fRequested = false)
    (h : (ctx.acceptBlock chain block fRequested).1 = .ok q) :
    nHeight p > 0 → (checkBlock (ctx.checkContext chain') block p.tail true true).1 = .ok () := by
  intro hn
  simp only [AcceptContext.acceptBlock, hh, hi, Bool.false_eq_true, if_false] at h
  split at h
  · cases h
  split at h
  case h_1 => cases h
  case h_2 hd =>
  rw [checkData, if_pos hn] at hd
  exact (seq_eq_ok.mp hd).1

lemma wentThrough_of_checkBlock (hc : c.params = params)
    (hm : block.fChecked → WentThrough params block)
    (h : (checkBlock c block pprev true true).1 = .ok ()) : WentThrough params block := by
  rw [checkBlock] at h
  split at h
  case isTrue hf => exact hm hf
  split at h
  case h_1 => cases h
  rename_i hb
  refine ⟨c, pprev, hc, hb, fun f hf => ?_⟩
  rw [hf] at h
  cases h

lemma Inv.acceptBlock (h : s.Inv params genesis) (hg : IsGenesis params genesis)
    (hs : ctx.params = params) (hi : chain.blocks = s.index) (hl : rootOf genesis ∈ s.index)
    (ha : s.Agrees block.getBlockHeader) (hm : block.fChecked → WentThrough params block) :
    (s.acceptBlock ctx chain block fRequested).Inv params genesis := by
  have hhead : (s.acceptBlockHeader ctx chain block.getBlockHeader).Inv params genesis :=
    h.acceptBlockHeader hg hs hi hl
  rw [Session.acceptBlock]
  split
  case h_1 => exact hhead
  rename_i pindex chain' he
  split
  · exact hhead
  rename_i hig
  split
  case h_1 => exact hhead
  rename_i hd
  have hok : (ctx.acceptBlockHeader chain block.getBlockHeader).1 = .ok pindex := by rw [he]
  have hacc := h.accepted hg hl hs hi hok
  have ⟨_, hp⟩ := h.addHeader hacc
  have hsame : s.acceptBlockHeader ctx chain block.getBlockHeader =
      s.addHeader pindex block.getBlockHeader := by
    rw [Session.acceptBlockHeader, hok]
  rw [hsame] at hhead ⊢
  have hhd : pindex.head? = some (ofHeader block.getBlockHeader) := by
    by_cases hk : s.lookupBlockIndex block.getBlockHeader.getHash = []
    case neg => rw [hacc.known hk]; exact ha hk
    have ⟨_, _, hnew, _⟩ := hacc.new hk
    rw [hnew]
    rfl
  have hw (ht : pindex.tail ≠ []) : WentThrough params block := by
    have hh := length_pos_iff.mpr ht
    rw [length_tail] at hh
    have hcb := acceptBlock_stored he (by simpa using hig) hd hh
    exact wentThrough_of_checkBlock hs hm hcb
  have hv := hhead.vetted hg hp hhd hw
  exact hhead.saveBlock hp ⟨hv.height, hv.coinstake, hv.root⟩

lemma Inv.connected {ctx : ConnectContext} (h : s.Inv params genesis)
    (hg : IsGenesis params genesis) (hs : s.Sees params ctx) (hp : p ∈ s.index)
    (hb : ∀ block, pblock = some block → s.Agrees block.getBlockHeader ∧ WentThrough params block)
    (he : pblock.or (ctx.readBlockFromDisk p) = some block) (hh : p.getBlockHash = block.getHash) :
    Vetted params block p := by
  cases Option.or_eq_some_iff.mp he
  case inl he =>
    have ⟨ha, hw⟩ := hb block he
    have hl : s.lookupBlockIndex block.getBlockHeader.getHash = p :=
      (congrArg s.lookupBlockIndex hh).symm.trans (lookup_of_mem h.index hp)
    have hhead := ha (by rw [hl]; exact h.index.ne_nil p hp)
    rw [hl] at hhead
    exact h.vetted hg hp hhead fun _ => hw
  case inr he => exact h.files p block (by rw [← hs.files]; exact he.2)

variable {enumeration : Enumeration}

lemma Inv.connectTip {ctx : ConnectContext} {pblock : Option CBlock} {marks : Bool}
    (h : s.Inv params genesis) (hg : IsGenesis params genesis) (hs : s.Sees params ctx)
    (hp : p ∈ s.index)
    (hb : ∀ block, pblock = some block → s.Agrees block.getBlockHeader ∧ WentThrough params block) :
    (s.connectTip ctx enumeration p pblock marks).Inv params genesis := by
  have htip : (ctx.connectTip enumeration p pblock s.toTipState).final.chainActive = s.chainActive ∨
      ∃ s', ctx.connectTip enumeration p pblock s.toTipState = .ok () s' := by
    cases hr : ctx.connectTip enumeration p pblock s.toTipState
    case ok => exact .inr ⟨_, rfl⟩
    case error => exact .inl (connectTip_onError _ _ _ hr)
  constructor
  case index => exact h.index
  case disk => exact h.disk
  case kept => exact h.kept
  case dirty =>
    intro q hq
    simp only [Session.connectTip] at hq
    split at hq
    · cases mem_cons.mp hq
      case inl he => exact he ▸ hp
      case inr hq => exact h.dirty q hq
    · exact h.dirty q hq
  case written =>
    intro q hq
    refine (h.written q hq).imp_left fun hd => ?_
    simp only [Session.connectTip]
    split
    · exact mem_cons_of_mem _ hd
    · exact hd
  case files => exact h.files
  case stored => exact h.stored
  case flagged =>
    intro ht
    by_cases hn : s.chainActive = []
    case pos =>
      -- It is the genesis block that has been connected.
      cases htip
      case inl he => exact absurd (he.trans hn) ht
      rename_i hr
      obtain ⟨s', hr⟩ := hr
      obtain ⟨block, t, he, hc, hpt, hst, _⟩ := connectTip_ok hr
      have hhash := (connectBlock_ok hc).1.hash
      have hv := h.connected hg hs hp hb he hhash
      have hroot := h.index.root p hp (hpt.trans hn)
      have hf := connectBlock_flagsRoot (hpt.trans hn)
        (hv.root (hpt.trans hn)) hc
      simp only [Session.connectTip, hr, Result.final]
      rw [hst, ← hroot]
      exact hf
    case neg =>
    have hf := h.flagged hn
    simp only [Session.connectTip]
    rcases @connectTip_stake ctx enumeration p s.toTipState _ pblock with he | he
    · rw [he]
      exact hf
    obtain ⟨block, _, hpt, he⟩ := he
    rw [he]
    have hfind : FindsAncestors
        (ctx.withTip s.chainActive s.view.toView).lookupBlockIndex p.tail := by
      have hl : (ctx.withTip s.chainActive s.view.toView).lookupBlockIndex =
        s.lookupBlockIndex := hs.lookup
      rw [hl]
      exact h.findsAncestors hp
    have hmod := h.modifier_found hp hpt
    exact connectBlock_keepsFlags hfind hmod s.toTipState.scratch
      (fun _ h => h) _ hf
  case tip =>
  intro ht
  cases htip
  case inl he =>
    have he : (s.connectTip ctx enumeration p pblock marks).chainActive = s.chainActive := he
    rw [he] at ht ⊢
    exact h.tip ht
  rename_i hr
  obtain ⟨s', hr⟩ := hr
  obtain ⟨_, _, _, _, _, _, he⟩ := connectTip_ok hr
  have he : (s.connectTip ctx enumeration p pblock marks).chainActive = p := by
    simp [Session.connectTip, hr, Result.final, he]
  exact he.symm ▸ hp

lemma Inv.disconnectTip {ctx : ConnectContext} (h : s.Inv params genesis) :
    (s.disconnectTip ctx enumeration).Inv params genesis := by
  have ⟨hst, htip⟩ := @disconnectTip_final ctx enumeration s.toTipState _
  constructor
  case index => exact h.index
  case disk => exact h.disk
  case kept => exact h.kept
  case dirty => exact h.dirty
  case written => exact h.written
  case files => exact h.files
  case stored => exact h.stored
  case flagged =>
    intro ht
    have hn : s.chainActive ≠ [] := by
      intro hn
      refine ht ?_
      simp only [Session.disconnectTip]
      cases htip
      case inl he => exact he.trans hn
      case inr he => rw [he, hn]; rfl
    simp only [Session.disconnectTip]
    rw [hst]
    exact h.flagged hn
  case tip =>
  intro ht
  simp only [Session.disconnectTip] at ht ⊢
  cases htip
  case inl he =>
    rw [he] at ht ⊢
    exact h.tip ht
  rename_i he
  rw [he] at ht ⊢
  have hn : s.chainActive ≠ [] := fun hn => ht (by rw [hn]; rfl)
  exact h.index.parent _ (h.tip hn) ht

-- The index can be written only when the genesis block has its flag.
def Flagged (genesis : CBlock) (s : Session) : Prop :=
  rootOf genesis ∈ s.index → s.stake.generated (rootOf genesis)

lemma Inv.flushStateToDisk {ctx : ConnectContext} (h : s.Inv params genesis)
    (hf : s.Flagged genesis) :
    (s.flushStateToDisk ctx enumeration fDoFullFlush).Inv params genesis := by
  have htip : (s.flushStateToDisk ctx enumeration fDoFullFlush).chainActive = s.chainActive ∧
      (s.flushStateToDisk ctx enumeration fDoFullFlush).stake = s.stake := by
    simp only [Session.flushStateToDisk, ConnectContext.flushStateToDisk]
    split <;> exact ⟨rfl, rfl⟩
  have hdisk q : ((s.flushStateToDisk ctx enumeration fDoFullFlush).disk q).isSome ↔
      q ∈ s.index := by
    simp only [Session.flushStateToDisk]
    split
    case isTrue hq => simp [h.dirty q hq]
    case isFalse hq => exact ⟨h.kept q, fun hm => (h.written q hm).resolve_left hq⟩
  constructor
  case index => exact h.index
  case disk => exact h.index.congr hdisk
  case kept => exact fun q hq => (hdisk q).mp hq
  case dirty => exact List.forall_mem_nil _
  case written => exact fun q hq => .inr ((hdisk q).mpr hq)
  case files => exact h.files
  case stored =>
    intro flag hq
    simp only [Session.flushStateToDisk] at hq
    split at hq
    case isTrue hd =>
      rw [← Option.some.inj hq]
      exact hf (h.dirty _ hd)
    · exact h.stored flag hq
  case flagged =>
    intro ht
    rw [htip.1] at ht
    rw [htip.2]
    exact h.flagged ht
  case tip =>
  intro ht
  rw [htip.1] at ht ⊢
  exact h.tip ht

lemma Inv.restart (h : s.Inv params genesis) (hr : Restarts s s') : s'.Inv params genesis := by
  have hindex := h.disk.congr hr.index
  have htip (ht : s'.chainActive ≠ []) : s'.chainActive ∈ s'.index := by
    rw [hr.tip] at ht ⊢
    exact (lookup_mem ht).1
  constructor
  case index => exact hindex
  case disk => exact hr.disk ▸ h.disk
  case kept => exact fun q hq => (hr.index q).mpr (hr.disk ▸ hq)
  case dirty => simp [hr.dirty]
  case written => exact fun q hq => .inr (hr.disk ▸ (hr.index q).mp hq)
  case files => exact hr.files ▸ h.files
  case stored => exact hr.disk ▸ h.stored
  case flagged =>
    intro ht
    have hp := htip ht
    have hm := hindex.ancestor hp (hindex.root_suffix hp) (cons_ne_nil _ _)
    have ⟨flag, hd⟩ := Option.isSome_iff_exists.mp ((hr.index _).mp hm)
    rw [hr.generated, hd, h.stored flag hd]
    rfl
  case tip => exact htip

-- A life in which the index is written with the flag of genesis, and hashes do not collide.
abbrev Life (params : Params) (genesis : CBlock) :=
  Relation.ReflTransGen (Step params genesis (Flagged genesis) Agrees)

lemma Inv.step (h : s.Inv params genesis) (hg : IsGenesis params genesis)
    (hr : Step params genesis (Flagged genesis) Agrees s s') : s'.Inv params genesis := by
  cases hr
  case loadGenesisBlock => exact h.loadGenesisBlock hg
  case acceptBlockHeader hs hi hl _ => exact h.acceptBlockHeader hg hs hi hl
  case acceptBlock hs hi hl ha hm => exact h.acceptBlock hg hs hi hl ha hm
  case connectTip hs hp hb _ _ => exact h.connectTip hg hs hp hb
  case disconnectTip => exact h.disconnectTip
  case flushStateToDisk hf => exact h.flushStateToDisk hf
  case restart hr => exact h.restart hr

lemma Fresh.inv (h : s.Fresh) (genesis) : s.Inv params genesis where
  index := by simpa [h.index] using ⟨nofun, nofun, nofun, nofun, nofun⟩
  disk := ⟨by simp [h.disk], by simp [h.disk], by simp [h.disk], by simp [h.disk], by simp [h.disk]⟩
  kept := by simp [h.disk]
  dirty := by simp [h.dirty]
  written := by simp [h.index]
  files := by simp [h.files]
  stored := by simp [h.disk]
  flagged := fun ht => absurd h.tip ht
  tip := fun ht => absurd h.tip ht

lemma Life.inv (hr : Life params genesis s s') (h : s.Fresh) (hg : IsGenesis params genesis) :
    s'.Inv params genesis := by
  induction hr
  case refl => exact h.inv genesis
  case tail _ hstep hi => exact hi.step hg hstep

end

end Session

end Taler
