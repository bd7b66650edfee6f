import TalerModel.Validation.Theorems.Earned
import TalerModel.Validation.Theorems.Session

namespace Taler

open ConnectContext IndexHeader CBlock Option

-- Copies of a header or block that differ at most in flag bits that the hash does not cover.

def CBlockHeader.Copies (h1 h2 : CBlockHeader) : Prop :=
  ∃ nFlags, h2 = { h1 with nFlags := nFlags } ∧
    nFlags &&& BLOCK_PROOF_OF_STAKE = h1.nFlags &&& BLOCK_PROOF_OF_STAKE

def CBlock.Copies (b1 b2 : CBlock) : Prop :=
  ∃ nFlags, b2 = { b1 with nFlags := nFlags } ∧
    nFlags &&& BLOCK_PROOF_OF_STAKE = b1.nFlags &&& BLOCK_PROOF_OF_STAKE

lemma CBlockHeader.Copies.hashPreimage {h1 h2 : CBlockHeader} (h : h1.Copies h2) :
    h2.hashPreimage = h1.hashPreimage := by
  obtain ⟨nFlags, rfl, hf⟩ := h
  simp only [CBlockHeader.hashPreimage, CBlockHeader.isNewestFormat, hf]
  rfl

lemma CBlockHeader.Copies.isProofOfStake {h1 h2 : CBlockHeader} (h : h1.Copies h2) :
    h2.isProofOfStake = h1.isProofOfStake :=
  isProofOfStake_of_hashPreimage_eq h.hashPreimage

lemma CBlock.Copies.header {b1 b2 : CBlock} (h : b1.Copies b2) :
    b1.getBlockHeader.Copies b2.getBlockHeader := by
  obtain ⟨nFlags, rfl, hf⟩ := h
  exact ⟨nFlags, rfl, hf⟩

-- Blocks that are connected alike: the format only matters to a block that has not been checked.
def CBlock.Twins (b1 b2 : CBlock) : Prop :=
  b1.Copies b2 ∧ (b1.fChecked ∨ b2.isNewFormatBlock = b1.isNewFormatBlock)

lemma CBlock.Twins.refl (b : CBlock) : b.Twins b :=
  ⟨⟨b.nFlags, rfl, rfl⟩, .inr rfl⟩

lemma rel_vtx (h : Rel CBlock.Twins b1 b2) : b2.map vtx = b1.map vtx := by
  cases h
  case some h =>
    obtain ⟨⟨_, rfl, _⟩, _⟩ := h
    rfl
  case none => rfl

def ConnectContext.reading (ctx : ConnectContext) (readBlock : CBlockIndex → Option CBlock) :
    ConnectContext :=
  { ctx with readBlockFromDisk := readBlock }

namespace Session

open AcceptContext

variable {s1 s2 : Session} {p : CBlockIndex} {h1 h2 : CBlockHeader} {b1 b2 : CBlock}
  {chain1 chain2 : NodeChain}

-- Two nodes that only differ in the copies of the blocks that they have stored.
structure Alike (s1 s2 : Session) : Prop where
  tip : s2.toTipState = s1.toTipState
  index : s2.index = s1.index
  dirty : s2.dirty = s1.dirty
  disk : s2.disk = s1.disk
  files : ∀ p, Rel CBlock.Twins (s1.files p) (s2.files p)

structure Reflects (s : Session) (chain : NodeChain) : Prop where
  index : chain.blocks = s.index
  tip : chain.tip = s.chainActive
  data : ∀ p, (chain.entry p).haveData = (s.files p).isSome
  nTx : ∀ p, (chain.entry p).nTx = ((s.files p).map (·.vtx.length)).getD 0

-- Two chain states that `AcceptBlock` treats alike before it checks a block.
structure Resembles (chain1 chain2 : NodeChain) : Prop where
  tip : chain2.tip = chain1.tip
  data : ∀ p, (chain2.entry p).haveData = (chain1.entry p).haveData
  nTx : ∀ p, (chain2.entry p).nTx = (chain1.entry p).nTx

def seenBy (ctx : ConnectContext) (s : Session) : ConnectContext :=
  { ctx with lookupBlockIndex := s.lookupBlockIndex, readBlockFromDisk := s.files }

lemma isNewFormatBlock_of_checkFormat {ctx : AcceptContext} (h : ctx.checkFormat b1 p = .ok ()) :
    b1.isNewFormatBlock = (ctx.params.forkNumber (nHeight p) = 2 : Bool) := by
  simp only [AcceptContext.checkFormat, Check.seq_eq_ok, Check.rejectIf_dos_eq_ok] at h
  simpa using h.2

namespace Alike

lemma refl (s : Session) : Alike s s := by
  refine ⟨rfl, rfl, rfl, rfl, fun p => ?_⟩
  cases s.files p
  case none => exact .none
  case some b => exact .some (.refl b)

variable (h : Alike s1 s2)
include h

lemma lookupBlockIndex : s2.lookupBlockIndex = s1.lookupBlockIndex := by
  funext hash
  rw [Session.lookupBlockIndex, h.index]
  rfl

lemma seenBy (ctx) : Session.seenBy ctx s2 = (Session.seenBy ctx s1).reading s2.files := by
  rw [Session.seenBy, h.lookupBlockIndex]
  rfl

lemma addToBlockIndex
    (hm : h2.nFlags &&& BLOCK_STAKE_MODIFIER = h1.nFlags &&& BLOCK_STAKE_MODIFIER) :
    Alike (s1.addToBlockIndex p h1) (s2.addToBlockIndex p h2) := by
  have hf : (headerFlags h2).stakeModifier = (headerFlags h1).stakeModifier := by
    simp [headerFlags, hm]
  constructor
  case tip => simp only [Session.addToBlockIndex, hf, h.tip]
  case index => simp only [Session.addToBlockIndex, h.index]
  case dirty => simp only [Session.addToBlockIndex, h.dirty]
  case disk => exact h.disk
  case files => exact h.files

lemma saveBlock (hb : b1.Copies b2) (hf : b2.isNewFormatBlock = b1.isNewFormatBlock) :
    Alike (s1.saveBlock p b1) (s2.saveBlock p b2) := by
  refine ⟨h.tip, h.index, by simp [Session.saveBlock, h.dirty], h.disk, fun q => ?_⟩
  simp only [Session.saveBlock]
  by_cases he : q = p
  · obtain ⟨nFlags, rfl, hn⟩ := hb
    rw [he, Function.update_self, Function.update_self]
    exact .some ⟨⟨nFlags, rfl, hn⟩, .inr hf⟩
  rw [Function.update_of_ne he, Function.update_of_ne he]
  exact h.files q

lemma resembles (hr1 : s1.Reflects chain1) (hr2 : s2.Reflects chain2) :
    Resembles chain1 chain2 := by
  have hv p := rel_vtx (h.files p)
  constructor
  case tip => rw [hr1.tip, hr2.tip, h.tip]
  case data => exact fun p => by simpa [hr1.data, hr2.data] using congrArg Option.isSome (hv p)
  case nTx =>
  intro p
  have hn := congrArg (Option.map List.length) (hv p)
  rw [Option.map_map, Option.map_map] at hn
  rw [hr1.nTx, hr2.nTx]
  exact congrArg (Option.getD · 0) hn

lemma withTip (ht : t2 = t1) (hd : dirty2 = dirty1) :
    Alike { s1 with toTipState := t1, dirty := dirty1 }
      { s2 with toTipState := t2, dirty := dirty2 } :=
  ⟨ht, h.index, hd, h.disk, h.files⟩

end Alike

end Session

section

variable [Crypto] {ctx : ConnectContext} {c : CheckContext} {b1 b2 : CBlock} {p : CBlockIndex}

lemma CBlockHeader.Copies.getHash {h1 h2 : CBlockHeader} (h : h1.Copies h2) :
    h2.getHash = h1.getHash :=
  congrArg Crypto.blockHash h.hashPreimage

lemma CBlockHeader.Copies.ofHeader {h1 h2 : CBlockHeader} (h : h1.Copies h2) :
    IndexHeader.ofHeader h2 = IndexHeader.ofHeader h1 := by
  have hhash := h.getHash
  have hpos := h.isProofOfStake
  obtain ⟨nFlags, rfl, _⟩ := h
  simp [IndexHeader.ofHeader, hhash, hpos]

lemma checkBlock_copies (h : b1.Twins b2) (pow merkle) :
    (checkBlock c b2 p pow merkle).1 = (checkBlock c b1 p pow merkle).1 := by
  have ⟨hb, hf⟩ := h
  have hpos := hb.header.isProofOfStake
  have hhash := hb.header.getHash
  obtain ⟨nFlags, rfl, _⟩ := hb
  simp only [getBlockHeader] at hpos hhash
  cases hf
  case inl hc => simp only [checkBlock, hc, if_true]
  rename_i hf
  have hbefore : checkBeforeMemo c { b1 with nFlags := nFlags } p pow merkle =
      checkBeforeMemo c b1 p pow merkle := by
    simp only [checkBeforeMemo, checkBlockHeader, checkContents, strippedSize, sigSize, hpos, hf]
    rfl
  have hafter : checkAfterMemo c { b1 with nFlags := nFlags } pow = checkAfterMemo c b1 pow := by
    simp only [checkAfterMemo, requireBlockSignature, checkBlockSignature, hpos, hhash]
    rfl
  simp only [checkBlock, hbefore, hafter]
  split
  · rfl
  · cases checkBeforeMemo c b1 p pow merkle <;> rfl

variable {readBlock : CBlockIndex → Option CBlock} {fJustCheck : Bool}

lemma connectTransactions_copies (hb : b1.Copies b2) (vtx totals) :
    (ctx.reading readBlock).connectTransactions b2 p vtx totals =
      ctx.connectTransactions b1 p vtx totals := by
  have hpos := hb.header.isProofOfStake
  obtain ⟨nFlags, rfl, _⟩ := hb
  simp only [getBlockHeader] at hpos
  have hone i (tx : CTransaction) (totals : ConnectContext.Totals) :
      (ctx.reading readBlock).connectTransaction { b1 with nFlags := nFlags } p i tx totals =
        ctx.connectTransaction b1 p i tx totals := by
    simp only [connectTransaction, connectInputs, updateReward, isCoinstake, hpos]
    rfl
  induction vtx generalizing totals
  case nil => rfl
  case cons head vtx hi => simp only [connectTransactions, hone, hi]

lemma disconnectBlock_copies (hb : b1.Copies b2) :
    (ctx.reading readBlock).disconnectBlock b2 p = ctx.disconnectBlock b1 p := by
  have hout tx (vout : List (CTxOut × Nat)) (fClean : Bool) :
      (ctx.reading readBlock).removeOutputs p tx vout fClean =
        ctx.removeOutputs p tx vout fClean := by
    induction vout generalizing fClean
    case nil => rfl
    case cons head vout hi =>
    simp only [removeOutputs, hi]
    rfl
  have hin (undo : List (COutPoint × Coin)) (fClean : Bool) :
      (ctx.reading readBlock).restoreInputs undo fClean = ctx.restoreInputs undo fClean := by
    induction undo generalizing fClean
    case nil => rfl
    case cons head undo hi =>
    simp only [restoreInputs, hi]
    rfl
  have htxs vtxundo (vtx : List (CTransaction × Nat)) (fClean : Bool) :
      (ctx.reading readBlock).disconnectTransactions p vtxundo vtx fClean =
        ctx.disconnectTransactions p vtxundo vtx fClean := by
    induction vtx generalizing fClean
    case nil => rfl
    case cons head vtx hi =>
    simp [disconnectTransactions, disconnectTransaction, hout, hin, hi]
  obtain ⟨nFlags, rfl, _⟩ := hb
  simp [disconnectBlock, htxs]

section

variable (hr : ∀ p, Rel CBlock.Twins (ctx.readBlockFromDisk p) (readBlock p))
include hr

lemma connectBlock_copies (h : b1.Twins b2) :
    (ctx.reading readBlock).connectBlock b2 p fJustCheck = ctx.connectBlock b1 p fJustCheck := by
  have ⟨hb, _⟩ := h
  have hpos := hb.header.isProofOfStake
  have hhash := hb.header.getHash
  have hcheck := @checkBlock_copies _ ctx.checkContext _ _ p.tail h (!fJustCheck) (!fJustCheck)
  have htxs := @connectTransactions_copies _ ctx _ _ p readBlock hb
  have hcoin out (coin : Coin) :
      (ctx.reading readBlock).correctCoin out coin = ctx.correctCoin out coin := by
    have hp := rel_vtx (hr (getAncestor ctx.chainActive coin.nHeight))
    simp only [correctCoin, reading]
    cases h1 : readBlock (getAncestor ctx.chainActive coin.nHeight) <;>
      cases h2 : ctx.readBlockFromDisk (getAncestor ctx.chainActive coin.nHeight) <;>
      simp_all
  obtain ⟨nFlags, rfl, _⟩ := hb
  simp only [getBlockHeader] at hpos hhash
  have hkernel : (ctx.reading readBlock).checkKernel { b1 with nFlags := nFlags } p =
      ctx.checkKernel b1 p := by
    simp only [checkKernel, hpos, hcoin]
    rfl
  have hstore (hash : Uint256) : (ctx.reading readBlock).storeStake { b1 with nFlags := nFlags } p
      hash fJustCheck = ctx.storeStake b1 p hash fJustCheck := by
    simp only [storeStake, hpos]
    rfl
  have hagain : (ctx.reading readBlock).checkBlockAgain { b1 with nFlags := nFlags } p fJustCheck =
      ctx.checkBlockAgain b1 p fJustCheck := by
    have hc : (ctx.reading readBlock).checkContext = ctx.checkContext := rfl
    simp only [checkBlockAgain, hc, hcheck]
    rfl
  have hcontents : (ctx.reading readBlock).connectContents { b1 with nFlags := nFlags } p
      fJustCheck = ctx.connectContents b1 p fJustCheck := by
    simp only [connectContents, htxs, checkReward, blockSubsidy, isProofOfWork, hpos]
    rfl
  simp only [connectBlock, hkernel, hstore, hagain, hcontents, hhash]
  rfl

variable {enumeration : Enumeration} {pblock1 pblock2 : Option CBlock}

lemma connectTip_copies (hb : Rel CBlock.Twins pblock1 pblock2) :
    (ctx.reading readBlock).connectTip enumeration p pblock2 =
      ctx.connectTip enumeration p pblock1 := by
  have hor : Rel CBlock.Twins (pblock1.or (ctx.readBlockFromDisk p))
      (pblock2.or ((ctx.reading readBlock).readBlockFromDisk p)) := by
    cases hb
    case some h => exact .some h
    case none => exact hr p
  simp only [connectTip]
  generalize pblock1.or (ctx.readBlockFromDisk p) = block1 at hor ⊢
  generalize pblock2.or ((ctx.reading readBlock).readBlockFromDisk p) = block2 at hor ⊢
  cases hor
  case some h =>
    have hc tip (coins : CCoinsView) :=
      @connectBlock_copies _ (ctx.withTip tip coins) _ _ p readBlock false hr h
    have hw tip (coins : CCoinsView) :
        (ctx.reading readBlock).withTip tip coins = (ctx.withTip tip coins).reading readBlock := rfl
    simp [hw, hc]
  case none => rfl

lemma disconnectTip_copies :
    (ctx.reading readBlock).disconnectTip enumeration = ctx.disconnectTip enumeration := by
  funext s
  have hd := hr s.chainActive
  change (get >>= _ : Tip Unit) s = (get >>= _ : Tip Unit) s
  have hread : (ctx.reading readBlock).readBlockFromDisk = readBlock := rfl
  rw [EStateM.bind_get, EStateM.bind_get, hread]
  generalize ctx.readBlockFromDisk s.chainActive = block1 at hd ⊢
  generalize readBlock s.chainActive = block2 at hd ⊢
  cases hd
  case some h => simp only [disconnectClean, disconnectBlock_copies h.1]
  case none => rfl

end

end

namespace Session

open AcceptContext

variable [Crypto] {params : Params} {genesis : CBlock} {s s1 s2 : Session} {p : CBlockIndex}
  {h1 h2 : CBlockHeader} {b1 b2 : CBlock} {chain chain1 chain2 : NodeChain}
  {ctx1 ctx2 : AcceptContext}

-- Two nodes accept copies of the same headers and blocks. `Meets` relates copies of a header.
inductive TwinStep (params : Params) (genesis : CBlock)
    (Meets : Session → CBlockHeader → CBlockHeader → Prop) :
    Session × Session → Session × Session → Prop
  | loadGenesisBlock {s1 s2 : Session} : TwinStep params genesis Meets (s1, s2)
      (s1.loadGenesisBlock params genesis, s2.loadGenesisBlock params genesis)
  | acceptBlockHeader {s1 s2 : Session} {ctx1 ctx2 : AcceptContext} {chain1 chain2 : NodeChain}
      {h1 h2 : CBlockHeader} (copies : h1.Copies h2) (meets : Meets s1 h1 h2)
      (index₁ : chain1.blocks = s1.index) (index₂ : chain2.blocks = s2.index)
      (accepted1 : (ctx1.acceptBlockHeader chain1 h1).1.isOk)
      (accepted2 : (ctx2.acceptBlockHeader chain2 h2).1.isOk) :
      TwinStep params genesis Meets (s1, s2)
        (s1.acceptBlockHeader ctx1 chain1 h1, s2.acceptBlockHeader ctx2 chain2 h2)
  | acceptBlock {s1 s2 : Session} {ctx1 ctx2 : AcceptContext} {chain1 chain2 : NodeChain}
      {b1 b2 : CBlock} {fRequested : Bool} (copies : b1.Copies b2)
      (meets : Meets s1 b1.getBlockHeader b2.getBlockHeader)
      (same₁ : ctx1.params = params) (same₂ : ctx2.params = params)
      (reflects₁ : s1.Reflects chain1) (reflects₂ : s2.Reflects chain2)
      (accepted1 : (ctx1.acceptBlock chain1 b1 fRequested).1.isOk)
      (accepted2 : (ctx2.acceptBlock chain2 b2 fRequested).1.isOk) :
      TwinStep params genesis Meets (s1, s2)
        (s1.acceptBlock ctx1 chain1 b1 fRequested, s2.acceptBlock ctx2 chain2 b2 fRequested)
  | connectTip {s1 s2 : Session} {ctx : ConnectContext} {enumeration : Enumeration}
      {pindexNew : CBlockIndex} {pblock1 pblock2 : Option CBlock} {marks : Bool}
      (copies : Rel CBlock.Copies pblock1 pblock2) (checked : ∀ b ∈ pblock1, b.fChecked) :
      TwinStep params genesis Meets (s1, s2)
        (s1.connectTip (seenBy ctx s1) enumeration pindexNew pblock1 marks,
          s2.connectTip (seenBy ctx s2) enumeration pindexNew pblock2 marks)
  | disconnectTip {s1 s2 : Session} {ctx : ConnectContext} {enumeration : Enumeration} :
      TwinStep params genesis Meets (s1, s2)
        (s1.disconnectTip (seenBy ctx s1) enumeration, s2.disconnectTip (seenBy ctx s2) enumeration)
  | flushStateToDisk {s1 s2 : Session} {ctx : ConnectContext} {enumeration : Enumeration}
      {fDoFullFlush : Bool} : TwinStep params genesis Meets (s1, s2)
        (s1.flushStateToDisk ctx enumeration fDoFullFlush,
          s2.flushStateToDisk ctx enumeration fDoFullFlush)
  -- The second node finds its own files, and its own entries with their bits.
  | restart {s1 s2 s1' s2' : Session} (restarts₁ : Restarts s1 s1') (restarts₂ : Restarts s2 s2')
      (found : s2' = { s1' with
        files := s2.files
        disk := s2.disk
        stake := { s1'.stake with generated := fun p => (s2.disk p).getD false } }) :
      TwinStep params genesis Meets (s1, s2) (s1', s2')

abbrev TwinSteps (params : Params) (genesis : CBlock)
    (Meets : Session → CBlockHeader → CBlockHeader → Prop) :=
  Relation.ReflTransGen (TwinStep params genesis Meets)

-- The copies of a new header agree in the bit that `nStatus` takes from them.
def SameModifierBit (s : Session) (h1 h2 : CBlockHeader) : Prop :=
  s.lookupBlockIndex h1.getHash = [] →
    h2.nFlags &&& BLOCK_STAKE_MODIFIER = h1.nFlags &&& BLOCK_STAKE_MODIFIER

namespace Alike

variable (h : Alike s1 s2)
include h

lemma addHeader (hc : h1.Copies h2) (hm : SameModifierBit s1 h1 h2) :
    Alike (s1.addHeader p h1) (s2.addHeader p h2) := by
  rw [Session.addHeader, Session.addHeader, hc.getHash, h.lookupBlockIndex]
  split
  · exact h
  case isFalse hk => exact h.addToBlockIndex (hm (by simpa using hk))

lemma entry (hc : h1.Copies h2) (hi1 : chain1.blocks = s1.index) (hi2 : chain2.blocks = s2.index)
    (he1 : ctx1.acceptBlockHeader chain1 h1 = (.ok p1, chain1'))
    (he2 : ctx2.acceptBlockHeader chain2 h2 = (.ok p2, chain2')) :
    p2 = p1 ∧ (Resembles chain1 chain2 → Resembles chain1' chain2') := by
  have hl (hash : Uint256) :
      NodeChain.lookupBlockIndex chain2 hash = NodeChain.lookupBlockIndex chain1 hash := by
    rw [lookup_chain hi1, lookup_chain hi2, h.lookupBlockIndex]
  have hnew : newIndex chain2 h2 = newIndex chain1 h1 := by
    have hh := hc.ofHeader
    obtain ⟨_, rfl, _⟩ := hc
    rw [newIndex, newIndex, hl, hh]
  have ho1 := acceptBlockHeader_ok (congrArg Prod.fst he1)
  have ho2 := acceptBlockHeader_ok (congrArg Prod.fst he2)
  rw [hc.getHash, hl] at ho2
  rcases ho1 with ⟨hk, ho1⟩ | ⟨hk, ho1, _⟩ <;> rcases ho2 with ⟨hk', ho2⟩ | ⟨hk', ho2, _⟩
  · cases ho1.symm.trans he1
    cases ho2.symm.trans he2
    exact ⟨rfl, id⟩
  · exact absurd hk' hk
  · exact absurd hk hk'
  cases ho1.symm.trans he1
  cases ho2.symm.trans he2
  refine ⟨hnew, fun hr => ⟨hr.tip, fun q => ?_, fun q => ?_⟩⟩ <;> rw [hnew] <;>
    by_cases hq : q = newIndex chain1 h1 <;>
    simp [ChainState.addToBlockIndex, ChainState.setEntry_entry_ne, hq, hr.data, hr.nTx]

lemma acceptBlockHeader (hc : h1.Copies h2) (hm : SameModifierBit s1 h1 h2)
    (hi1 : chain1.blocks = s1.index) (hi2 : chain2.blocks = s2.index)
    (ha1 : (ctx1.acceptBlockHeader chain1 h1).1.isOk)
    (ha2 : (ctx2.acceptBlockHeader chain2 h2).1.isOk) :
    Alike (s1.acceptBlockHeader ctx1 chain1 h1) (s2.acceptBlockHeader ctx2 chain2 h2) := by
  rw [Session.acceptBlockHeader, Session.acceptBlockHeader]
  rcases he1 : ctx1.acceptBlockHeader chain1 h1 with ⟨r1 | p1, chain1'⟩
  · simp [he1, Except.isOk, Except.toBool] at ha1
  rcases he2 : ctx2.acceptBlockHeader chain2 h2 with ⟨r2 | p2, chain2'⟩
  · simp [he2, Except.isOk, Except.toBool] at ha2
  rw [(h.entry hc hi1 hi2 he1 he2).1]
  exact h.addHeader hc hm

end Alike

lemma acceptBlock_ok {fRequested : Bool} (h : (ctx1.acceptBlock chain b1 fRequested).1.isOk) :
    ∃ p chain', ctx1.acceptBlockHeader chain b1.getBlockHeader = (.ok p, chain') ∧
      s.acceptBlock ctx1 chain b1 fRequested =
        (if ctx1.ignoresBlock chain' p fRequested then s.addHeader p b1.getBlockHeader
        else (s.addHeader p b1.getBlockHeader).saveBlock p b1) ∧
      (ctx1.ignoresBlock chain' p fRequested = false → ctx1.checkFormat b1 p = .ok ()) := by
  rcases he : ctx1.acceptBlockHeader chain b1.getBlockHeader with ⟨e | p, chain'⟩
  · simp [AcceptContext.acceptBlock, he, Except.isOk, Except.toBool] at h
  refine ⟨p, chain', rfl, ?_, fun hi => ?_⟩
  · rw [Session.acceptBlock, Session.acceptBlockHeader, he]
    dsimp only
    split
    · rfl
    cases ha : (ctx1.acceptBlock chain b1 fRequested).1
    case error e => simp [ha, Except.isOk, Except.toBool] at h
    case ok => rfl
  cases hf : ctx1.checkFormat b1 p
  case error e => simp [AcceptContext.acceptBlock, he, hi, hf, Except.isOk, Except.toBool] at h
  case ok => rfl

namespace Alike

variable (h : Alike s1 s2)
include h

lemma acceptBlock {fRequested : Bool} (hc : b1.Copies b2)
    (hm : SameModifierBit s1 b1.getBlockHeader b2.getBlockHeader) (hp : ctx2.params = ctx1.params)
    (hr1 : s1.Reflects chain1) (hr2 : s2.Reflects chain2)
    (ha1 : (ctx1.acceptBlock chain1 b1 fRequested).1.isOk)
    (ha2 : (ctx2.acceptBlock chain2 b2 fRequested).1.isOk) :
    Alike (s1.acceptBlock ctx1 chain1 b1 fRequested)
      (s2.acceptBlock ctx2 chain2 b2 fRequested) := by
  have ⟨p, chain1', he1, hs1, hf1⟩ := @acceptBlock_ok _ s1 _ _ _ _ ha1
  have ⟨p2, chain2', he2, hs2, hf2⟩ := @acceptBlock_ok _ s2 _ _ _ _ ha2
  have ⟨he, hres⟩ := h.entry hc.header hr1.index hr2.index he1 he2
  subst he
  have hres := hres (h.resembles hr1 hr2)
  have hi : ctx2.ignoresBlock chain2' p2 fRequested = ctx1.ignoresBlock chain1' p2 fRequested := by
    simp [AcceptContext.ignoresBlock, hres.tip, hres.data, hres.nTx, hp]
  have hadd : Alike (s1.addHeader p2 b1.getBlockHeader) (s2.addHeader p2 b2.getBlockHeader) :=
    h.addHeader hc.header hm
  rw [hs1, hs2, hi]
  split
  · exact hadd
  rename_i hn
  have hn := Bool.eq_false_iff.mpr hn
  refine hadd.saveBlock hc ?_
  rw [isNewFormatBlock_of_checkFormat (hf1 hn),
    isNewFormatBlock_of_checkFormat (hf2 (hi.trans hn)), hp]

lemma loadGenesisBlock :
    Alike (s1.loadGenesisBlock params genesis) (s2.loadGenesisBlock params genesis) := by
  rw [Session.loadGenesisBlock, Session.loadGenesisBlock, h.lookupBlockIndex]
  split
  · exact h
  · exact (h.addToBlockIndex rfl).saveBlock ⟨genesis.nFlags, rfl, rfl⟩ rfl

lemma step (hs : TwinStep params genesis SameModifierBit (s1, s2) (s1', s2')) : Alike s1' s2' := by
  cases hs
  case loadGenesisBlock => exact h.loadGenesisBlock
  case acceptBlockHeader hc ha1 ha2 hm hi1 hi2 => exact h.acceptBlockHeader hc hm hi1 hi2 ha1 ha2
  case acceptBlock hc hp1 hp2 ha1 ha2 hm hr1 hr2 =>
    exact h.acceptBlock hc hm (hp2.trans hp1.symm) hr1 hr2 ha1 ha2
  case connectTip ctx enumeration p pblock1 pblock2 marks hc hb =>
    have ht : Rel CBlock.Twins pblock1 pblock2 := by
      cases hc
      case some hc => exact .some ⟨hc, .inl (hb _ rfl)⟩
      case none => exact .none
    refine h.withTip ?_ (by rw [h.dirty])
    rw [h.seenBy, connectTip_copies h.files ht, h.tip]
  case disconnectTip ctx enumeration =>
    refine h.withTip ?_ h.dirty
    rw [h.seenBy, disconnectTip_copies h.files, h.tip]
  case flushStateToDisk ctx enumeration fDoFullFlush =>
    refine ⟨?_, h.index, rfl, ?_, h.files⟩
    · simp [Session.flushStateToDisk, h.tip]
    · simp [Session.flushStateToDisk, h.dirty, h.disk, h.tip]
  case restart hr1 hr2 hf =>
  subst hf
  have hg : (fun p => (s2.disk p).getD false) = s1'.stake.generated := by
    funext p
    rw [hr1.generated, h.disk]
  refine ⟨?_, rfl, rfl, ?_, fun p => ?_⟩
  · simp [hg]
  · rw [hr1.disk, h.disk]
  rw [hr1.files]
  exact h.files p

end Alike

-- What consensus makes of the blocks of two nodes is the same.
structure SameVerdicts (params : Params) (s1 s2 : Session) : Prop where
  index : s2.index = s1.index
  modifier : ∀ p ∈ s1.index, (getStakeModifier params s2.lookupBlockIndex p s2.stake).value =
    (getStakeModifier params s1.lookupBlockIndex p s1.stake).value
  kernel : ∀ tip h1 h2, h1.Copies h2 → ∀ out value time offset,
    (checkProofOfStake params tip h2 out value time offset s2.stake).value =
      (checkProofOfStake params tip h1 out value time offset s1.stake).value
  connect : ∀ p ∈ s1.index, ∀ b1 b2, s1.files p = some b1 → s2.files p = some b2 →
    ∀ (ctx : ConnectContext) (fJustCheck : Bool) (t : ConnectState),
      ((seenBy ctx s2).connectBlock b2 p fJustCheck { t with stake := s2.stake }).value =
      ((seenBy ctx s1).connectBlock b1 p fJustCheck { t with stake := s1.stake }).value

lemma Alike.sameVerdicts (h : Alike s1 s2) : SameVerdicts params s1 s2 := by
  have hst := congrArg (fun t : TipState => t.stake) h.tip
  constructor
  case index => exact h.index
  case modifier => exact fun p _ => by rw [h.lookupBlockIndex, hst]
  case kernel =>
    intro tip h1 h2 hc out value time offset
    obtain ⟨_, rfl, _⟩ := hc
    rw [hst]
    rfl
  case connect =>
  intro p _ b1 b2 hb1 hb2 ctx fJustCheck t
  have hb := h.files p
  rw [hb1, hb2] at hb
  cases hb
  case some hb => rw [h.seenBy, connectBlock_copies h.files hb, hst]

theorem twins_sameVerdicts (h : TwinSteps params genesis SameModifierBit (s, s) (s1, s2)) :
    SameVerdicts params s1 s2 := by
  have hrun t (h : TwinSteps params genesis SameModifierBit (s, s) t) :
      Alike t.1 t.2 := by
    induction h
    case refl => exact .refl s
    case tail hs hi => exact hi.step hs
  exact (hrun _ h).sameVerdicts

end Session

section

-- Two headers on the genesis block, the first of which has arrived with different flags.

local instance instCryptoUnhashed : Crypto :=
  greatKernels

def unhashedStart : Session :=
  { emptyState with
    stake :=
      { generated := fun p => p = [ofHeader testGenesis]
        modifiers := fun _ => none
        stakeHashes := fun _ => none }
    chainActive := [ofHeader testGenesis]
    index := [[ofHeader testGenesis]]
    files := fun _ => none
    dirty := []
    disk := fun _ => none }

def laterHeader (pprev : CBlockIndex) (nFlags : BitVec 32) : CBlockHeader :=
  { headerOn pprev false with nTime := pprev.getBlockTime.toNat + 720, nFlags := nFlags }

def flaggedHeader (nFlags : BitVec 32) : CBlockHeader :=
  laterHeader [ofHeader testGenesis] nFlags

def flaggedParent : CBlockIndex :=
  [ofHeader (flaggedHeader 0), ofHeader testGenesis]

def flaggedChain (nFlags : BitVec 32) : NodeChain :=
  (testContext.acceptBlockHeader testStart (flaggedHeader nFlags)).2

def flaggedSession (nFlags : BitVec 32) : Session :=
  (unhashedStart.acceptBlockHeader testContext testStart (flaggedHeader nFlags)).acceptBlockHeader
    testContext (flaggedChain nFlags) (laterHeader flaggedParent 0)

lemma flaggedSession_twins (hf : nFlags = BLOCK_STAKE_ENTROPY ∨ nFlags = BLOCK_STAKE_MODIFIER)
    (hm : Meets unhashedStart (flaggedHeader 0) (flaggedHeader nFlags)) (hr : ∀ s h, Meets s h h) :
    Session.TwinSteps Params.testNet { testGenesis with vtx := [] } Meets
      (unhashedStart, unhashedStart) (flaggedSession 0, flaggedSession nFlags) := by
  have hpos : nFlags &&& BLOCK_PROOF_OF_STAKE = 0 &&& BLOCK_PROOF_OF_STAKE := by
    rcases hf with rfl | rfl <;> decide
  have hone n (hn : n = 0 ∨ n = BLOCK_STAKE_ENTROPY ∨ n = BLOCK_STAKE_MODIFIER) :
      (testContext.acceptBlockHeader testStart (flaggedHeader n)).1.isOk ∧
      (testContext.acceptBlockHeader (flaggedChain n) (laterHeader flaggedParent 0)).1.isOk ∧
      (flaggedChain n).blocks =
        (unhashedStart.acceptBlockHeader testContext testStart (flaggedHeader n)).index := by
    rcases hn with rfl | rfl | rfl <;> decide +kernel
  have ⟨ha1, hb1, hi1⟩ := hone 0 (.inl rfl)
  have ⟨ha2, hb2, hi2⟩ := hone nFlags (.inr hf)
  have hindex : testStart.blocks = unhashedStart.index := rfl
  exact .tail (.single (.acceptBlockHeader ⟨nFlags, rfl, hpos⟩ hm hindex hindex ha1 ha2))
    (.acceptBlockHeader ⟨0, rfl, rfl⟩ (hr _ _) hi1 hi2 hb1 hb2)

theorem twins_sameVerdicts_entropy :
    flaggedHeader 0 ≠ flaggedHeader BLOCK_STAKE_ENTROPY ∧
    Session.SameVerdicts Params.testNet (flaggedSession 0) (flaggedSession BLOCK_STAKE_ENTROPY) :=
  ⟨by decide, Session.twins_sameVerdicts
    (flaggedSession_twins (.inl rfl) (fun _ => by decide) fun _ _ _ => rfl)⟩

-- The bit makes the first block the last one that generated a modifier.
theorem twins_differ :
    ∃ s s1 s2 : Session, Session.TwinSteps Params.testNet { testGenesis with vtx := [] }
      (fun _ _ _ => True) (s, s) (s1, s2) ∧ ¬Session.SameVerdicts Params.testNet s1 s2 := by
  refine ⟨_, _, _, flaggedSession_twins (.inr rfl) trivial fun _ _ => trivial, fun h => ?_⟩
  have hm := h.modifier (ofHeader (laterHeader flaggedParent 0) :: flaggedParent)
    (by decide +kernel)
  have hne : (getStakeModifier Params.testNet (flaggedSession BLOCK_STAKE_MODIFIER).lookupBlockIndex
      (ofHeader (laterHeader flaggedParent 0) :: flaggedParent)
      (flaggedSession BLOCK_STAKE_MODIFIER).stake).value.toOption ≠
    (getStakeModifier Params.testNet (flaggedSession 0).lookupBlockIndex
      (ofHeader (laterHeader flaggedParent 0) :: flaggedParent)
      (flaggedSession 0).stake).value.toOption := by
    decide +kernel
  exact hne (congrArg Except.toOption hm)

end

end Taler
