import TalerModel.Validation.Theorems.Session

namespace Taler

open Params ConnectContext Session Check Relation.ReflTransGen EStateM

namespace Session

variable [Crypto] {params : Params} {genesis : CBlock} {s s' : Session} {p q : CBlockIndex}
  {block : CBlock}

section

open ChainState

omit [Crypto] in
lemma firstUnusable_of_failed {chain : NodeChain} (hf : chain.failed p) (hn : p ≠ [])
    (ht : ¬p <:+ chain.tip) (hq : p <:+ q) : chain.firstUnusable q ≠ some none := by
  induction q
  case nil => exact absurd (List.suffix_nil.mp hq) hn
  case cons b pprev hi =>
  have hc : chain.contains (b :: pprev) = false := by
    cases hc : chain.contains (b :: pprev)
    case false => rfl
    case true =>
    simp only [contains, Bool.and_eq_true, List.isSuffixOf_iff_suffix] at hc
    exact absurd (hq.trans hc.2) ht
  rw [firstUnusable]
  simp only [hc, Bool.false_eq_true, if_false]
  split
  · simp
  split
  · simp
  rename_i hu
  cases List.suffix_cons_iff.mp hq
  case inl he => exact absurd (by simp [← he, hf]) hu
  case inr hq => exact hi hq

-- A block on the tip does not fail silently: the state is invalid or in error, and it is final.
structure Loud (params : Params) (s : Session) : Prop where
  connectBlock : ∀ {ctx : ConnectContext} {p : CBlockIndex} {block : CBlock} {fJustCheck : Bool}
    {st st' : ConnectState} {state : CValidationState}, s.Sees params ctx → p ∈ s.index →
    p.tail = s.chainActive → s.files p = some block →
    st.stake.generated = s.stake.generated →
    ctx.connectBlock block p fJustCheck st = .error (.returned state) st' →
    state.mode = .invalid ∨ state.mode = .error
  activate : ∀ {verdict : CBlockIndex → CBlockIndex → Verdict} {ctx : ConnectContext}
    {enumeration : Enumeration} {chain chain' : NodeChain} {p : CBlockIndex}
    {pblock : Option CBlock} {result : StepResult} {state : CValidationState} {t : TipState},
    s.Sees params ctx → p ∈ s.index → chain.tip = s.chainActive →
    (∀ block, pblock = some block → s.Agrees block.getBlockHeader ∧ WentThrough params block) →
    connectCandidate verdict ctx enumeration chain p pblock s.toTipState =
      some (result, state, chain', t) →
    (result = .systemError → state.mode = .error) ∧
    (result = .invalidFound → ∀ q, p <:+ q → chain'.firstUnusable q ≠ some none)

variable {ctx : ConnectContext}

lemma Inv.reported (h : s.Inv params genesis) (hs : s.Sees params ctx) (hp : p ∈ s.index)
    (ht : p.tail = s.chainActive) (hv : Vetted params block p)
    (hg : st.stake.generated = s.stake.generated) :
    Throws Failure.Reported (ctx.connectBlock block p fJustCheck) st := by
  refine connectBlock_reported hs.scripts (hs.params ▸ hv) ?_ ?_
  · exact hs.lookup ▸ h.findsAncestors hp
  · exact hg ▸ h.modifier_found hp ht

lemma Inv.tip_reported (h : s.Inv params genesis) (hg : IsGenesis params genesis)
    (hs : s.Sees params ctx) (hp : p ∈ s.index)
    (hb : ∀ block, pblock = some block → s.Agrees block.getBlockHeader ∧ WentThrough params block) :
    Throws Failure.Reported (ctx.connectTip enumeration p pblock) s.toTipState := by
  refine connectTip_reported fun block he ht => ?_
  have hsees : s.Sees params (ctx.withTip s.chainActive s.view.toView) :=
    ⟨hs.params, hs.lookup, hs.files, hs.scripts⟩
  by_cases hh : p.getBlockHash = block.getHash
  · exact h.reported hsees hp ht (h.connected hg hs hp hb he hh) rfl
  intro e s' hx
  rw [connectBlock, bind_of_error (Connect.check_fault (by simp [hh]))] at hx
  cases hx
  trivial

lemma Inv.loud (h : s.Inv params genesis) (hg : IsGenesis params genesis) : s.Loud params where
  connectBlock := by
    intro ctx p block fJustCheck st st' state hs hp ht hf hst hc
    have hr := h.reported hs hp ht (h.files p block hf) hst _ _ hc
    exact hr.symm.imp_left And.left
  activate := by
    intro verdict ctx enumeration chain chain' p pblock result state t hs hp ht hb hr
    rw [connectCandidate] at hr
    cases hc : ctx.connectTip enumeration p pblock s.toTipState
    case ok =>
      simp only [hc, Option.some.injEq, Prod.mk.injEq] at hr
      exact ⟨fun he => (by cases hr.1.trans he), fun he => (by cases hr.1.trans he)⟩
    rename_i e s'
    have hrep := h.tip_reported hg hs hp hb _ _ hc
    cases e
    case fault => simp [hc] at hr
    case returned v =>
    simp only [hc] at hr
    split at hr
    case isTrue hm =>
      simp only [Option.some.injEq, Prod.mk.injEq] at hr
      refine ⟨fun he => (by cases hr.1.trans he), fun _ q hq => ?_⟩
      have hcor : v.corruptionPossible = false := by
        cases hrep
        case inl he => cases he.symm.trans hm
        case inr he => exact he.2
      rw [← hr.2.2.1, if_neg (by simp [hcor])]
      have hpt : p.tail = s.chainActive := by
        by_contra hne
        cases hc.symm.trans (connectTip_misplaced hne)
      refine firstUnusable_of_failed ?_ (h.index.ne_nil p hp) ?_ hq
      · simp [invalidBlockFound, failed, eraseCandidate, setEntry, IndexEntry.failed]
      intro hsuf
      have hlen := List.IsSuffix.length_le hsuf
      have htail : (chain.invalidBlockFound verdict p).tip = p.tail := ht.trans hpt.symm
      rw [htail, List.length_tail] at hlen
      have := List.length_pos_iff.mpr (h.index.ne_nil p hp)
      omega
    case isFalse hm =>
    simp only [Option.some.injEq, Prod.mk.injEq] at hr
    refine ⟨fun _ => ?_, fun he => by cases hr.1.trans he⟩
    rw [← hr.2.1]
    exact hrep.resolve_right fun he => hm he.1

-- No block fails silently if the index was only ever written with the flag of genesis.
theorem life_loud (hs : s.Fresh) (hg : IsGenesis params genesis) (hr : Life params genesis s s') :
    s'.Loud params :=
  (hr.inv hs hg).loud hg

lemma connectBlock_silent (hh : p.getBlockHash = block.getHash)
    (hw : block.isProofOfStake = false) (hn : block.isNewestFormat = false) (ht : p.tail ≠ [])
    (hg : st.stake.generated (lastGenerated st.stake.generated p.tail) = false) :
    ctx.connectBlock block p fJustCheck st = .error (.returned {}) st := by
  have hp : p ≠ [] := fun hp => ht (by rw [hp]; rfl)
  have hk : ctx.checkKernel block p st = .ok 0 st := by
    simp only [checkKernel, hw, Bool.not_false, if_true]
    rfl
  have hm : getStakeModifier ctx.params ctx.lookupBlockIndex p st.stake =
      .error (.returned {}) st.stake := by
    rw [getStakeModifier]
    simp only [ht, if_false]
    rw [bind_get]
    simp only [hg, Bool.not_false, if_true]
    rfl
  have hs : ctx.storeStake block p 0 fJustCheck st = .error (.returned {}) st := by
    simp only [storeStake, hn, Bool.false_eq_true, if_false]
    refine bind_of_error ?_
    simp [Connect.stake, hm]
  rw [connectBlock, bind_of_ok (Connect.check_assert (by simp [hp, hh])), bind_of_ok hk,
    bind_of_error hs]

lemma connectCandidate_silent (hb : ctx.readBlockFromDisk p = some block)
    (hc : p.tail = t.chainActive) (hh : p.getBlockHash = block.getHash)
    (hw : block.isProofOfStake = false) (hn : block.isNewestFormat = false) (ht : p.tail ≠ [])
    (hg : t.stake.generated (lastGenerated t.stake.generated p.tail) = false) :
    connectCandidate verdict ctx enumeration chain p none t = some (.systemError, {}, chain, t) := by
  have hsilent : (ctx.withTip t.chainActive t.view.toView).connectBlock block p false t.scratch =
      .error (.returned {}) t.scratch := connectBlock_silent hh hw hn ht hg
  have hscratch : Tip.scratch
      ((ctx.withTip t.chainActive t.view.toView).connectBlock block p false) t =
      .error (.returned {}) t := by
    rw [TipState.scratch] at hsilent
    simp [Tip.scratch, hsilent]
  have htip : ctx.connectTip enumeration p none t = .error (.returned {}) t := by
    rw [ConnectContext.connectTip, bind_get, bind_of_ok (Tip.check_assert (by simp [hc]))]
    simp only [Option.none_or, hb]
    exact bind_of_error hscratch
  rw [connectCandidate, htip]
  rfl

end

end Session

section

open Session ConnectContext

local instance instCryptoChain : Crypto :=
  chainHashes

def nextCoinbase : CTransaction :=
  { emptyCoinbase with
    vin := [{ prevout := { hash := 0, n := 0xffffffff }, scriptSig := [OP_1, 0] }] }

def nextBlock : CBlock where
  nVersion := 2
  hashPrevBlock := testNet.hashGenesisBlock
  hashMerkleRoot := 7
  nTime := 1500000060
  nBits := 0x1e0ffff0
  nNonce := 1
  vtx := [nextCoinbase]

def nextEntry : CBlockIndex :=
  IndexHeader.ofHeader nextBlock.getBlockHeader :: rootOf genesisBlock

def firstAccept : AcceptContext where
  params := testNet
  fCheckpointsEnabled := false
  mapCheckpoints := []
  nAdjustedTime := 1600000000
  failedOrder := []
  verdict := fun _ _ => .accept

def firstChain : NodeChain :=
  ChainState.init blockProof (IndexHeader.ofHeader genesisBlock.getBlockHeader) 1

def noSession : Session where
  toConnectState :=
    { emptyState with
      stake :=
        { generated := fun _ => false, modifiers := fun _ => none, stakeHashes := fun _ => none } }
  chainActive := []
  index := []
  files _ := none
  dirty := []
  disk _ := none

def nodeContext (s : Session) : ConnectContext where
  params := testNet
  chainActive := s.chainActive
  pcoinsTip := s.view.toView
  lookupBlockIndex := s.lookupBlockIndex
  readBlockFromDisk := s.files
  fAddressIndex := false
  fTxIndex := false
  checkInputs := Taler.checkInputs (fun _ _ _ _ => none) true
  fScriptQueue := false

lemma nodeContext_sees (s : Session) : s.Sees testNet (nodeContext s) :=
  ⟨rfl, rfl, rfl, _, _, rfl⟩

lemma noSession_fresh : noSession.Fresh :=
  ⟨rfl, fun _ => rfl, rfl, fun _ => rfl, rfl⟩

lemma genesisBlock_isGenesis : IsGenesis testNet genesisBlock :=
  ⟨by decide, by decide, by decide⟩

def started : Session :=
  noSession.loadGenesisBlock testNet genesisBlock

lemma started_connects : ∃ t,
    (nodeContext started).connectTip someEnumeration (rootOf genesisBlock) none started.toTipState =
      .ok () t ∧
    t.chainActive = rootOf genesisBlock ∧ t.view.hashBlock = testNet.hashGenesisBlock ∧
    t.stake.generated (rootOf genesisBlock) := by
  obtain ⟨t, hx⟩ : ∃ t,
      ((nodeContext started).withTip started.chainActive started.view.toView).connectBlock
        genesisBlock (rootOf genesisBlock) false started.toTipState.scratch = .ok () t := by
    decide +kernel
  obtain ⟨_, st, hfinal⟩ := connectBlock_ok hx
  have hview : t.view = started.toTipState.scratch.view.setBestBlock
      testNet.hashGenesisBlock := by
    rw [hfinal]
    rfl
  have hcoherent : t.view.Coherent := by
    rw [hview]
    exact started.toTipState.scratch_coherent.setBestBlock _
  have hbase : t.view.base = started.view.toView := by
    rw [hview]
    rfl
  have hrun : Tip.scratch (((nodeContext started).withTip started.chainActive
      started.view.toView).connectBlock genesisBlock (rootOf genesisBlock) false)
      started.toTipState =
      .ok t.view { started.toTipState with toConnectState := { t with view := started.view } } := by
    rw [TipState.scratch] at hx
    simp [Tip.scratch, hx]
  obtain ⟨pcoinsTip, hflush, _, _, hbest⟩ := @Tip.flushView_updates
    { started.toTipState with toConnectState := { t with view := started.view } } t.view
    someEnumeration (CCoinsViewCache.over_coherent _) hcoherent hbase
  refine ⟨{ t with view := pcoinsTip, chainActive := rootOf genesisBlock }, ?_, rfl, ?_, ?_⟩
  · have hfile : (none : Option CBlock).or
        ((nodeContext started).readBlockFromDisk (rootOf genesisBlock)) = some genesisBlock := by
      decide +kernel
    rw [ConnectContext.connectTip, bind_get, bind_of_ok (Tip.check_assert (by rfl))]
    simp only [hfile]
    rw [bind_of_ok hrun, bind_of_ok hflush]
    rfl
  · rw [hbest, hview]; rfl
  have hflag := connectBlock_flagsRoot rfl rfl hx
  exact hflag

-- The node at its last start: genesis is the tip, and has the flag that is on disk.
noncomputable def restarted (s : Session) : Session :=
  { s with
    view := .onto s.view.base
    chainActive := rootOf genesisBlock
    stake := { s.stake with generated := fun p => (s.disk p).getD false }
    index := [rootOf genesisBlock]
    dirty := [] }

lemma restarted_lookup :
    (restarted s).lookupBlockIndex testNet.hashGenesisBlock = rootOf genesisBlock ∧
    (restarted s).lookupBlockIndex nextBlock.getHash = [] := by
  have h : ([rootOf genesisBlock].find?
        (CBlockIndex.getBlockHash · = testNet.hashGenesisBlock)).getD [] =
        rootOf genesisBlock ∧
      ([rootOf genesisBlock].find? (CBlockIndex.getBlockHash · = nextBlock.getHash)).getD [] =
        [] := by
    decide +kernel
  exact h

lemma restarted_restarts (hd : ∀ p, (s.disk p).isSome ↔ p = rootOf genesisBlock)
    (hb : s.view.base.getBestBlock = testNet.hashGenesisBlock) : Restarts s (restarted s) where
  index p := by rw [hd]; exact List.mem_singleton
  files := rfl
  dirty := rfl
  disk := rfl
  generated _ := rfl
  view := rfl
  tip := by rw [hb]; exact restarted_lookup.1.symm

lemma restarted_accepts {s : Session} :
    ((restarted s).acceptBlock firstAccept firstChain nextBlock true).index =
      [rootOf genesisBlock, nextEntry] ∧
    ((restarted s).acceptBlock firstAccept firstChain nextBlock true).files nextEntry =
      some nextBlock ∧
    ((restarted s).acceptBlock firstAccept firstChain nextBlock true).chainActive =
      rootOf genesisBlock ∧
    ((restarted s).acceptBlock firstAccept firstChain nextBlock true).stake.generated
      (rootOf genesisBlock) = (s.disk (rootOf genesisBlock)).getD false := by
  have hh : (firstAccept.acceptBlockHeader firstChain nextBlock.getBlockHeader).1 =
      .ok nextEntry := by
    decide +kernel
  have hig : firstAccept.ignoresBlock
      (firstAccept.acceptBlockHeader firstChain nextBlock.getBlockHeader).2 nextEntry true =
      false := by
    decide +kernel
  have hok : (firstAccept.acceptBlock firstChain nextBlock true).1 = .ok nextEntry := by
    decide +kernel
  have hl : (restarted s).lookupBlockIndex nextBlock.getBlockHeader.getHash = [] :=
    restarted_lookup.2
  have he : (restarted s).acceptBlock firstAccept firstChain nextBlock true =
      ((restarted s).addToBlockIndex nextEntry nextBlock.getBlockHeader).saveBlock nextEntry
        nextBlock := by
    have hpair : firstAccept.acceptBlockHeader firstChain nextBlock.getBlockHeader =
        (.ok nextEntry, (firstAccept.acceptBlockHeader firstChain nextBlock.getBlockHeader).2) :=
      Prod.ext hh rfl
    rw [acceptBlock, acceptBlockHeader, hh, hpair]
    simp [hig, hok, addHeader, hl]
  rw [he]
  refine ⟨rfl, ?_, rfl, ?_⟩
  · simp only [saveBlock]
    rfl
  have hne : rootOf genesisBlock ≠ nextEntry := by decide +kernel
  simp only [saveBlock, addToBlockIndex]
  rfl

lemma restarted_step :
    Step testNet genesisBlock Flushes Agrees (restarted s)
      ((restarted s).acceptBlock firstAccept firstChain nextBlock true) :=
  .acceptBlock rfl rfl List.mem_cons_self (fun hn => absurd restarted_lookup.2 hn) nofun

-- A node whose genesis block is about to be connected, written or not.
structure Started (s : Session) : Prop where
  tip : s.toTipState = started.toTipState
  index : s.index = started.index
  files : s.files = started.files
  dirty : ∀ p ∈ s.dirty, p = rootOf genesisBlock
  disk : ∀ p, (s.disk p).isSome → p = rootOf genesisBlock
  kept : rootOf genesisBlock ∈ s.dirty ∨ (s.disk (rootOf genesisBlock)).isSome

lemma Started.restarts {Flushes : Session → Prop} {s : Session} (h : Started s)
    (hf : ∀ s', s'.stake.generated (rootOf genesisBlock) → Flushes s') :
    ∃ s', Relation.ReflTransGen (Step testNet genesisBlock Flushes Agrees) s (restarted s') ∧
      s'.disk (rootOf genesisBlock) = if rootOf genesisBlock ∈ s.dirty then some true
        else s.disk (rootOf genesisBlock) := by
  obtain ⟨t, hr, htip, hbest, hflag⟩ := started_connects
  have hlookup : s.lookupBlockIndex = started.lookupBlockIndex := by
    funext hash
    rw [Session.lookupBlockIndex, h.index]
    rfl
  have hctx : nodeContext s = nodeContext started := by
    simp [nodeContext, h.tip, h.files, hlookup]
  have hok : (nodeContext s).connectTip someEnumeration (rootOf genesisBlock) none s.toTipState =
      .ok () t := by
    rw [hctx, h.tip, hr]
  have hconnected : s.connectTip (nodeContext s) someEnumeration (rootOf genesisBlock) none false =
      { s with toTipState := t } := by
    simp only [Session.connectTip, hok, Result.final]
    rfl
  let s3 : Session := { s with toTipState := t }
  let s4 := s3.flushStateToDisk (nodeContext s3) someEnumeration true
  have hconnect : Step testNet genesisBlock Flushes Agrees s s3 := by
    have hstep := @Step.connectTip _ testNet genesisBlock Flushes Agrees s (nodeContext s)
      someEnumeration (rootOf genesisBlock) none false (nodeContext_sees s)
      (by rw [h.index]; exact List.mem_cons_self) (by simp) (fun _ _ he => by cases hok.symm.trans he)
      (fun _ _ => rfl)
    rwa [hconnected] at hstep
  have hdisk p : s4.disk p = if p ∈ s.dirty then some (t.stake.generated p) else s.disk p := rfl
  have hbase : s4.view.base.getBestBlock = testNet.hashGenesisBlock := by
    have hne : t.view.getBestBlock ≠ 0 := by
      rw [CCoinsViewCache.getBestBlock, hbest, if_neg (by decide)]
      decide
    simp only [s4, s3, Session.flushStateToDisk, ConnectContext.flushStateToDisk, hne, ne_eq,
      not_false_eq_true, decide_true, Bool.and_true, if_true]
    exact hbest
  have hsome p : (s4.disk p).isSome ↔ p = rootOf genesisBlock := by
    rw [hdisk]
    constructor
    · intro hp
      split at hp
      case isTrue hd => exact h.dirty p hd
      · exact h.disk p hp
    intro hp
    rw [hp]
    split
    · rfl
    case isFalse hd => exact h.kept.resolve_left hd
  refine ⟨s4, ?_, ?_⟩
  · exact ((single hconnect).tail (.flushStateToDisk (hf s3 hflag))).tail
      (.restart (restarted_restarts hsome hbase))
  · rw [hdisk, hflag]

lemma started_started : Started started := by
  refine ⟨rfl, rfl, rfl, ?_, nofun, .inl List.mem_cons_self⟩
  have h : ∀ p ∈ started.dirty, p = rootOf genesisBlock := by decide +kernel
  exact h

theorem life_loud_next : ∃ s', Life testNet genesisBlock noSession s' ∧
    nextEntry ∈ s'.index ∧ s'.chainActive = rootOf genesisBlock ∧ s'.files nextEntry = some nextBlock ∧
    s'.Loud testNet := by
  have ⟨s, hr, _⟩ := @Started.restarts (Flagged genesisBlock) _ started_started fun _ h _ => h
  have ⟨hi, hfile, ht, _⟩ := @restarted_accepts s
  have hlife : Life testNet genesisBlock noSession
      ((restarted s).acceptBlock firstAccept firstChain nextBlock true) :=
    ((single .loadGenesisBlock).trans hr).tail restarted_step
  exact ⟨_, hlife, by simp [hi], ht, hfile, life_loud noSession_fresh genesisBlock_isGenesis hlife⟩

-- A stop before genesis is connected leaves its entry on disk without its flag.
theorem connectBlock_loses_flag : ∃ s' : Session,
    noSession.Fresh ∧ IsGenesis testNet genesisBlock ∧
    Relation.ReflTransGen (Step testNet genesisBlock (fun _ => True) Agrees) noSession s' ∧
    s'.Sees testNet (nodeContext s') ∧ nextEntry ∈ s'.index ∧
    nextEntry.tail = s'.chainActive ∧ s'.files nextEntry = some nextBlock ∧
    (∀ st : ConnectState, st.stake.generated = s'.stake.generated →
      (nodeContext s').connectBlock nextBlock nextEntry false st = .error (.returned {}) st) ∧
    ∀ verdict chain, connectCandidate verdict (nodeContext s') someEnumeration chain nextEntry none
      s'.toTipState = some (.systemError, {}, chain, s'.toTipState) := by
  let s2 := started.flushStateToDisk (nodeContext started) someEnumeration false
  have hdirty : ∀ p, p ∈ started.dirty ↔ p = rootOf genesisBlock := fun p =>
    ⟨started_started.dirty p, fun he => he ▸ List.mem_cons_self⟩
  have hdisk p : s2.disk p = if p = rootOf genesisBlock then some (started.stake.generated p)
      else none := by
    simp only [s2, Session.flushStateToDisk, hdirty]
    rfl
  have hs2 : Started s2 := by
    refine ⟨rfl, rfl, rfl, List.forall_mem_nil _, fun p hp => ?_, .inr ?_⟩
    · rw [hdisk] at hp
      by_contra hne
      simp [hne] at hp
    · simp [hdisk]
  obtain ⟨s, hr, hflag⟩ := @Started.restarts (fun _ => True) _ hs2 fun _ _ => trivial
  obtain ⟨hi, hfile, ht, hgen⟩ := @restarted_accepts s
  have hlost : ((restarted s).acceptBlock firstAccept firstChain nextBlock true).stake.generated
      (rootOf genesisBlock) = false := by
    rw [hgen, hflag]
    decide +kernel
  have hh : nextEntry.getBlockHash = nextBlock.getHash := rfl
  refine ⟨(restarted s).acceptBlock firstAccept firstChain nextBlock true, noSession_fresh,
    genesisBlock_isGenesis, ?_, nodeContext_sees _, by simp [hi], ht.symm, hfile, fun st hst => ?_,
    fun verdict chain => ?_⟩
  · have hstart : Step testNet genesisBlock (fun _ => True) Agrees started s2 :=
      .flushStateToDisk trivial
    exact (((single .loadGenesisBlock).tail hstart).trans hr).tail
      restarted_step
  · exact connectBlock_silent hh rfl rfl (fun h => by cases h) (by rw [hst]; exact hlost)
  · exact connectCandidate_silent hfile ht.symm hh rfl rfl (fun h => by cases h) hlost

end

end Taler
