import TalerModel.Chain.Theorems.Stake
import TalerModel.Validation.Theorems.Accept

namespace Taler

open ChainState AcceptContext IndexHeader List

-- What the node receives from the network, with what it is told from outside at that time.
inductive Message
  | headers (ctx : AcceptContext) (vHeaders : List CBlockHeader)
  | block (ctx : AcceptContext) (block : CBlock) (fForceProcessing : Bool) (fuel : Nat)

def Message.context : Message → AcceptContext
  | .headers ctx _ => ctx
  | .block ctx .. => ctx

def Message.blockHeaders : Message → List CBlockHeader
  | .headers _ vHeaders => vHeaders
  | .block _ pblock _ _ => [pblock.getBlockHeader]

def Message.Legal (params : Params) (s : NodeChain) (m : Message) : Prop :=
  m.context.params = params ∧ m.context.failedOrder.Perm s.failedBlocks

lemma init_indexed (hx : nTx ≠ 0) : Indexed genesis (init blockProof genesis nTx) := by
  refine ⟨init_standing hx, fun p hp q hq _ => ?_⟩
  simp only [init, mem_singleton] at hp hq
  exact hp.trans hq.symm

variable [Crypto] {params : Params} {s s1 s2 : NodeChain} {p pprev : CBlockIndex}
variable {block genesis : CBlockHeader} {ctx : AcceptContext} {Arrives : CBlockHeader → Prop}
  {root : IndexHeader} {ms : List Message}

def Message.receive (s : NodeChain) : Message → Option NodeChain
  | .headers ctx vHeaders =>
    match ctx.processNewBlockHeaders vHeaders s with
    | (.error (.fault _), _) => none
    | (_, s) => some s
  | .block ctx block fForceProcessing fuel =>
    (ctx.processNewBlock s block.fresh fForceProcessing fuel).map Prod.snd

inductive Received (params : Params) (genesis : CBlockHeader) : NodeChain → Prop
  | start {nTx : Nat} (nonempty : nTx ≠ 0) :
      Received params genesis (init blockProof (ofHeader genesis) nTx)
  | message {s s' : NodeChain} (m : Message) (before : Received params genesis s)
      (legal : m.Legal params s) (result : m.receive s = some s') : Received params genesis s'

lemma Message.receive_steps {m : Message} {genesis : IndexHeader} (hs : Indexed genesis s)
    (hg : genesis.hash = params.hashGenesisBlock) (hl : m.Legal params s)
    (ha : ∀ header ∈ m.blockHeaders, Arrives header) (h : m.receive s = some s2) :
    NodeSteps params Arrives s s2 := by
  obtain ⟨rfl, ho⟩ := hl
  cases m
  case headers ctx vHeaders =>
    have hsteps : NodeSteps ctx.params Arrives s (ctx.processNewBlockHeaders vHeaders s).2 :=
      processNewBlockHeaders_steps hs hg ho ha
    simp only [receive] at h
    split at h
    case h_1 => simp at h
    rename_i r s' _ hr
    obtain rfl := Option.some.inj h
    rw [hr] at hsteps
    exact hsteps
  case block ctx block f fuel =>
  simp only [receive, Option.map_eq_some_iff, Prod.exists] at h
  obtain ⟨b, s', hr, rfl⟩ := h
  have ha : Arrives block.fresh.getBlockHeader := ha _ (mem_singleton_self _)
  exact processNewBlock_steps hs hg ho ha (by simp [CBlock.fresh]) hr

lemma Received.indexed (h : Received params genesis s)
    (hg : genesis.getHash = params.hashGenesisBlock) : Indexed (.ofHeader genesis) s := by
  induction h
  case start hx => exact init_indexed hx
  case message m _ hl hr hi =>
  have hsteps := m.receive_steps hi hg hl (fun _ _ => trivial) hr
  exact NodeSteps.indexed hsteps hi

def receiveAll (ms : List Message) (s : NodeChain) : Option NodeChain :=
  ms.foldlM (fun s m => if m.context.failedOrder = s.failedBlocks then m.receive s else none) s

lemma receiveAll_cons (h : receiveAll (m :: ms) s = some s2) :
    ∃ s1, m.context.failedOrder = s.failedBlocks ∧ m.receive s = some s1 ∧
      receiveAll ms s1 = some s2 := by
  simp only [receiveAll, foldlM_cons] at h
  obtain ⟨s1, hr, hrest⟩ := Option.bind_eq_some_iff.mp h
  split at hr
  case isTrue ho => exact ⟨s1, ho, hr, hrest⟩
  · nomatch hr

lemma receiveAll_steps {genesis : IndexHeader} (hs : Indexed genesis s)
    (hg : genesis.hash = params.hashGenesisBlock) (hm : ∀ m ∈ ms, m.context.params = params)
    (ha : ∀ m ∈ ms, ∀ header ∈ m.blockHeaders, Arrives header) (hr : receiveAll ms s = some s2) :
    NodeSteps params Arrives s s2 := by
  induction ms generalizing s
  case nil =>
    obtain rfl := Option.some.inj hr
    exact .refl
  case cons m ms hi =>
  have ⟨s1, ho, hr, hrest⟩ := receiveAll_cons hr
  have hl : m.Legal params s := ⟨hm m (mem_cons_self ..), ho ▸ Perm.refl _⟩
  have hsteps := m.receive_steps hs hg hl (ha m (mem_cons_self ..)) hr
  exact hsteps.trans (hi (NodeSteps.indexed hsteps hs) (fun m hx => hm m (mem_cons_of_mem _ hx))
    (fun m hx => ha m (mem_cons_of_mem _ hx)) hrest)

lemma Received.receiveAll (h : Received params genesis s)
    (hm : ∀ m ∈ ms, m.context.params = params) (hr : receiveAll ms s = some s2) :
    Received params genesis s2 := by
  induction ms generalizing s
  case nil =>
    obtain rfl := Option.some.inj hr
    exact h
  case cons m ms hi =>
  have ⟨s1, ho, hr, hrest⟩ := receiveAll_cons hr
  have hl : m.Legal params s := ⟨hm m (mem_cons_self ..), ho ▸ Perm.refl _⟩
  exact hi (.message m h hl hr) (fun m hx => hm m (mem_cons_of_mem _ hx)) hrest

-- What a header has proved about itself when its entry is made. A proof-of-work header has proved
-- its work; of a proof-of-stake header only the header itself has been checked.
structure Earned (params : Params) (block : CBlockHeader) (pprev : CBlockIndex) : Prop where
  work : block.isProofOfStake = false → checkProofOfWork block (nHeight pprev + 1) params
  bits : params.getNextWorkRequired pprev block.isProofOfStake block.nTime = .ok block.nBits
  fork : block.isProofOfStake → 2 ≤ params.forkNumber (nHeight pprev + 1)
  time : pprev.getMedianTimePast < block.nTime
  version : 2 ≤ block.nVersion.toInt

lemma earned_of_checkNewHeader (h : ctx.checkNewHeader s block = .ok ()) :
    Earned ctx.params block (NodeChain.lookupBlockIndex s block.hashPrevBlock) := by
  have hp := (checkNewHeader_parent h).1
  simp only [checkNewHeader, Check.seq_eq_ok] at h
  obtain ⟨-, -, hw, hc⟩ := h
  obtain ⟨nBits, hbits, hc⟩ := Check.bind_eq_ok.mp hc
  simp only [Check.seq_eq_ok, Check.rejectIf_dos_eq_ok] at hc
  obtain ⟨hb, -, hfork, hold, -, hver⟩ := hc
  have hb : block.nBits = nBits := by simpa using hb
  constructor
  case work =>
    intro hs
    simpa [checkBlockHeader, hs, powCheckHeight, hp, checkContext] using hw
  case bits => exact hb ▸ hbits
  case fork =>
    intro hs
    simpa only [hs, Bool.and_true, decide_eq_false_iff_not, not_lt] using hfork
  case time => simpa using hold
  case version => simpa only [decide_eq_false_iff_not, not_lt] using hver

-- The entry of a header, with one of the flags that the hash does not cover.
structure EntryOf (s : NodeChain) (p : CBlockIndex) (header : CBlockHeader) : Prop where
  head : p.head? = some (ofHeader header)
  parent : CBlockIndex.getBlockHash p.tail = header.hashPrevBlock
  newFormat : (s.entry p).newFormat = header.isNewFormatBlock

def ArrivedIndex (Arrives : CBlockHeader → Prop) (s : NodeChain) : Prop :=
  ∀ p ∈ s.blocks, ∃ header : CBlockHeader, Arrives header ∧ header.nVersion ≠ 0 ∧ EntryOf s p header

structure GenesisHeader (Arrives : CBlockHeader → Prop) (genesis : CBlockHeader) : Prop where
  arrives : Arrives genesis
  version : genesis.nVersion ≠ 0
  flags : genesis.nFlags = 0
  parent : genesis.hashPrevBlock = 0

lemma init_arrivedIndex (h : GenesisHeader Arrives genesis) (nTx) :
    ArrivedIndex Arrives (init blockProof (.ofHeader genesis) nTx) := by
  intro p hp
  simp only [init, mem_singleton] at hp
  subst hp
  refine ⟨genesis, h.arrives, h.version, rfl, h.parent.symm, ?_⟩
  simp [init, CBlockHeader.isNewFormatBlock, h.flags]

lemma EntryOf.sameIndex (h : EntryOf s1 p header) (hi : SameIndex s1 s2) : EntryOf s2 p header :=
  ⟨h.head, h.parent, (congrArg HeaderFlags.newFormat (hi.flags p)).trans h.newFormat⟩

lemma NodeStep.arrivedIndex (h : NodeStep params Arrives s1 s2) (hs : Indexed root s1)
    (hw : ArrivedIndex Arrives s1) : ArrivedIndex Arrives s2 := by
  rcases h.index hs.toStanding with hi | ⟨ctx, block, _, hb, hn, hc, rfl⟩
  · intro p hp
    have ⟨header, hw, hv, he⟩ := hw p (hi.blocks ▸ hp)
    exact ⟨header, hw, hv, he.sameIndex hi⟩
  intro p hp
  simp only [addToBlockIndex, mem_append, mem_singleton] at hp
  rcases hp with hp | rfl
  · have ⟨header, hw, hv, he⟩ := hw p hp
    have hne : p ≠ newIndex s1 block := fun h =>
      NodeChain.lookupBlockIndex_ne_nil hs.toTree hp (h ▸ hn)
    refine ⟨header, hw, hv, he.head, he.parent, ?_⟩
    simpa [addToBlockIndex, setEntry_entry_ne _ _ hne] using he.newFormat
  refine ⟨block, hb, fun hz => ?_, rfl, ?_, ?_⟩
  · have hv := (earned_of_checkNewHeader hc).version
    rw [hz] at hv
    exact absurd hv (by decide)
  · exact (NodeChain.lookupBlockIndex_mem (checkNewHeader_parent hc).1).2
  simp [addToBlockIndex, setEntry_entry_self, AcceptContext.headerFlags,
    CBlockHeader.isNewFormatBlock]

lemma NodeSteps.arrivedIndex (h : NodeSteps params Arrives s1 s2) (hs : Indexed root s1)
    (hw : ArrivedIndex Arrives s1) : ArrivedIndex Arrives s2 := by
  induction h
  case refl => exact hw
  case tail hb h hi => exact NodeStep.arrivedIndex h (NodeSteps.indexed hb hs) hi

def EarnedIndex (params : Params) (genesis : CBlockHeader) (s : NodeChain) : Prop :=
  ∀ p ∈ s.blocks, p = [ofHeader genesis] ∨
    ∃ (block : CBlockHeader) (pprev : CBlockIndex), p = ofHeader block :: pprev ∧
      pprev ∈ s.blocks ∧ pprev.getBlockHash = block.hashPrevBlock ∧ Earned params block pprev

lemma NodeStep.earnedIndex (h : NodeStep params Arrives s1 s2) (hs : Standing root s1)
    (he : EarnedIndex params genesis s1) : EarnedIndex params genesis s2 := by
  rcases h.index hs with hi | ⟨ctx, block, rfl, _, _, hc, rfl⟩
  · rw [EarnedIndex, hi.blocks]
    exact he
  intro p hp
  simp only [addToBlockIndex, mem_append, mem_singleton] at hp ⊢
  rcases hp with hp | rfl
  · rcases he p hp with h | ⟨b, q, hb, hq, hrest⟩
    · exact .inl h
    · exact .inr ⟨b, q, hb, .inl hq, hrest⟩
  obtain ⟨hm, hh⟩ := NodeChain.lookupBlockIndex_mem (checkNewHeader_parent hc).1
  exact .inr ⟨block, _, rfl, .inl hm, hh, earned_of_checkNewHeader hc⟩

lemma NodeSteps.earnedIndex (h : NodeSteps params Arrives s1 s2) (hs : Indexed root s1)
    (he : EarnedIndex params genesis s1) : EarnedIndex params genesis s2 := by
  induction h
  case refl => exact he
  case tail hb h hi => exact NodeStep.earnedIndex h (NodeSteps.indexed hb hs).toStanding hi

-- Whatever a node receives, each entry of its index is backed by the work of its header, if it is a
-- proof-of-work one, and by the checks of the header alone, if it is a proof-of-stake one.
theorem earnedIndex_of_received (hg : genesis.getHash = params.hashGenesisBlock)
    (h : Received params genesis s) : EarnedIndex params genesis s := by
  induction h
  case start hx =>
    intro p hp
    simp only [init, mem_singleton] at hp
    exact .inl hp
  case message m hb hl hr hi =>
  have hs := hb.indexed hg
  have hsteps := m.receive_steps hs hg hl (fun _ _ => trivial) hr
  exact NodeSteps.earnedIndex hsteps hs hi

end Taler

namespace Taler

open ChainState AcceptContext

section

-- Nineteen mined headers and a staked one on the test network. Kernels hash to the maximum.

abbrev greatKernels : Crypto :=
  { Crypto.additive with
    blockHash := fun p =>
      if p.hashPrevBlock = 0 then Params.testNet.hashGenesisBlock else p.nNonce
    kernelHash := fun _ _ _ _ _ => 2 ^ 256 - 1
    verify := fun _ _ _ => true }

local instance instCryptoGreatKernels : Crypto :=
  greatKernels

def testGenesis : CBlockHeader where
  nVersion := 1
  hashPrevBlock := 0
  hashMerkleRoot := 7
  nTime := 1505338823
  nBits := 0x1f00ffff
  nNonce := 61468

def headerOn (pprev : CBlockIndex) (fProofOfStake : Bool) : CBlockHeader :=
  let nTime := pprev.getBlockTime.toNat + 60
  { nVersion := 2
    hashPrevBlock := pprev.getBlockHash
    hashMerkleRoot := 7
    nTime := nTime
    nBits := (Params.testNet.getNextWorkRequired pprev fProofOfStake nTime).toOption.getD 0
    nNonce := pprev.length
    nFlags := if fProofOfStake then BLOCK_PROOF_OF_STAKE else 0 }

def headersOn : Nat → CBlockIndex → List CBlockHeader
  | 0, pprev => [headerOn pprev true]
  | n + 1, pprev =>
    let header := headerOn pprev false
    header :: headersOn n (IndexHeader.ofHeader header :: pprev)

def testContext : AcceptContext where
  params := Params.testNet
  fCheckpointsEnabled := false
  mapCheckpoints := []
  nAdjustedTime := 1600000000
  failedOrder := []
  verdict := fun _ _ => .accept

def testStart : NodeChain :=
  init blockProof (IndexHeader.ofHeader testGenesis) 1

def stakedHeaders : List CBlockHeader :=
  headersOn 19 [IndexHeader.ofHeader testGenesis]

lemma stakedHeaders_received :
    ∃ s, (Message.headers testContext stakedHeaders).receive testStart = some s ∧
      s.bestHeader ∈ s.blocks ∧ ∃ block ∈ stakedHeaders, block.isProofOfStake ∧
        2 ∣ (setCompact block.nBits).target ∧
        s.bestHeader = IndexHeader.ofHeader block :: s.bestHeader.tail := by
  decide +kernel

lemma checkProofOfStake_ne_some {tip : CBlockIndex} {hash : Uint256}
    (he : 2 ∣ (setCompact block.nBits).target) (params) :
    checkProofOfStake params tip block out value time offset store ≠ .ok (some hash) store' := by
  have hlt : kernelTarget params block value time < 2 ^ 256 - 1 := by
    simp only [kernelTarget]
    obtain ⟨k, hk⟩ := he
    rw [hk, Nat.mul_assoc]
    omega
  intro h
  have ⟨⟨_, hhash⟩, hle⟩ := checkProofOfStake_some h
  rw [hhash] at hle
  exact absurd hlt (Nat.not_lt.mpr hle)

lemma testStart_received : Received Params.testNet testGenesis testStart :=
  .start (by decide)

-- The best header of a node can be a proof-of-stake header with no kernel at all.
theorem bestHeader_unstaked :
    ∃ (s : NodeChain) (block : CBlockHeader) (pprev : CBlockIndex),
      Received Params.testNet testGenesis s ∧ s.bestHeader = IndexHeader.ofHeader block :: pprev ∧
      s.bestHeader ∈ s.blocks ∧ block.isProofOfStake ∧
      ∀ tip out value time offset store hash store',
        checkProofOfStake Params.testNet tip block out value time offset store ≠
          .ok (some hash) store' := by
  have ⟨s, hr, hm, block, _, hstake, heven, hbest⟩ := stakedHeaders_received
  refine ⟨s, block, s.bestHeader.tail, ?_, hbest, hm, hstake, ?_⟩
  · exact .message _ testStart_received ⟨rfl, List.Perm.refl _⟩ hr
  · exact fun _ _ _ _ _ _ _ _ => checkProofOfStake_ne_some heven _

theorem earnedIndex_of_received_staked :
    ∃ s : NodeChain, s.blocks.length = 21 ∧ EarnedIndex Params.testNet testGenesis s := by
  have ⟨s, hr, hl⟩ : ∃ s, (Message.headers testContext stakedHeaders).receive testStart = some s ∧
      s.blocks.length = 21 := by
    decide +kernel
  refine ⟨s, hl, earnedIndex_of_received rfl ?_⟩
  exact .message _ testStart_received ⟨rfl, List.Perm.refl _⟩ hr

-- The blocks of these headers. That of the proof-of-stake header has the format bit, as it has to.

def blockOn (pprev : CBlockIndex) (fProofOfStake : Bool) : CBlock where
  toCBlockHeader :=
    { headerOn pprev fProofOfStake with
      nFlags := if fProofOfStake then BLOCK_PROOF_OF_STAKE ||| BLOCK_NEW_FORMAT else 0 }
  vtx :=
    { emptyCoinbase with
      vin := [{ prevout := { hash := 0, n := 0xffffffff }
                scriptSig := CScript.pushInt64 pprev.length ++ [0, 0] }] } ::
      if fProofOfStake then [{ pubkeyCoinstake with hash := 0 }] else []
  vchBlockSig := if fProofOfStake then [1] else []

def blocksOn : Nat → CBlockIndex → List CBlock
  | 0, pprev => [blockOn pprev true]
  | n + 1, pprev =>
    let block := blockOn pprev false
    block :: blocksOn n (IndexHeader.ofHeader block.getBlockHeader :: pprev)

def stakedBlocks : List CBlock :=
  blocksOn 19 [IndexHeader.ofHeader testGenesis]

end

end Taler
