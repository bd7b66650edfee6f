import TalerModel.Coins.Theorems.Stack
import TalerModel.Validation.Theorems.Disconnect
import TalerModel.Validation.Tip

namespace Taler

open PartialMap CAddressIndexDB CCoinsViewCache ConnectContext Function EStateM Tip Params

-- Two copies of a transaction, which may differ in what its hash does not cover.
structure CTransaction.Alike (tx tx' : CTransaction) : Prop where
  hash : tx'.getHash = tx.getHash
  inputs : tx'.vin.map CTxIn.prevout = tx.vin.map CTxIn.prevout
  outputs : tx'.vout = tx.vout

lemma suffix_iff_eq_or_tail : l <:+ l' ↔ l = l' ∨ l <:+ l'.tail := by
  cases l'
  case nil => simp
  case cons a l' => exact List.suffix_cons_iff

namespace CTransaction.Alike

variable {tx tx' : CTransaction}

lemma isCoinBase (h : tx.Alike tx') : tx'.isCoinBase = tx.isCoinBase := by
  have hi := h.inputs
  rw [CTransaction.isCoinBase, CTransaction.isCoinBase]
  rcases hv : tx.vin with _ | ⟨txin, _ | _⟩ <;> rcases hv' : tx'.vin with _ | ⟨txin', _ | _⟩ <;>
    simp_all

lemma prevouts (h : tx.Alike tx') : tx'.prevouts = tx.prevouts := by
  rw [CTransaction.prevouts, CTransaction.prevouts, h.isCoinBase, h.inputs]

lemma coins (h : tx.Alike tx') (n) : tx'.coins n = tx.coins n := by
  simp only [CTransaction.coins, outputCoins, CTransaction.outpoint, CTransaction.coin, h.outputs,
    h.hash, h.isCoinBase]

end CTransaction.Alike

namespace Ledger

variable [Crypto] {ctx ctx' : ConnectContext} {pindex : CBlockIndex} {ledger ledger' : Ledger}
  {tx tx' : CTransaction} {vprevout : List Coin} {vtx vtx' : List CTransaction}

def coinsAfter (nHeight : Nat) (vtx : List CTransaction) (coins : COutPoint → Option Coin) :
    COutPoint → Option Coin :=
  vtx.foldl (fun coins tx => insertAll (eraseAll coins tx.prevouts) (tx.coins nHeight)) coins

lemma connectAll_coins :
    (ledger.connectAll ctx pindex vtx).coins = coinsAfter (nHeight pindex) vtx ledger.coins := by
  induction vtx generalizing ledger
  case nil => rfl
  case cons tx vtx hi => exact hi

omit [Crypto] in
lemma coinsAfter_alike (h : List.Forall₂ CTransaction.Alike vtx vtx') :
    coinsAfter n vtx' m = coinsAfter n vtx m := by
  induction h generalizing m
  case nil => rfl
  case cons hd _ hi =>
  simp only [coinsAfter, List.foldl_cons, hd.prevouts, hd.coins]
  exact hi

lemma AcceptsAll.alike (h : AcceptsAll ctx pindex vtx vtxundo ledger)
    (ha : List.Forall₂ CTransaction.Alike vtx vtx') (hl : ledger'.coins = ledger.coins) :
    AcceptsAll ctx' pindex vtx' vtxundo ledger' := by
  induction h generalizing vtx' ledger'
  case nil =>
    cases ha
    exact .nil
  case cons head _ hi =>
  cases ha
  case cons hd htl =>
  refine .cons ⟨?_, ?_, ?_, ?_⟩ (hi htl ?_)
  · rw [hd.prevouts, hl]; exact head.spent
  · rw [hd.prevouts]; exact head.inputs
  · rw [hd.prevouts, hd.coins, hl]; exact head.new
  · rw [hd.coins]; exact head.outputs
  rw [connect, connect]
  rw [hd.prevouts, hd.coins, hl]

omit [Crypto] in
lemma exists_alike (h : List.Forall₂ CTransaction.Alike vtx vtx') (hm : tx' ∈ vtx') :
    ∃ tx ∈ vtx, tx.Alike tx' := by
  have ⟨i, hi, he⟩ := List.mem_iff_getElem.mp hm
  have hl : i < vtx.length := h.length_eq ▸ hi
  have ha := (List.forall₂_iff_get.mp h).2 i hl hi
  simp only [List.get_eq_getElem, he] at ha
  exact ⟨vtx[i], List.getElem_mem hl, ha⟩

lemma AcceptsBlock.alike (h : AcceptsBlock ctx pindex block vtxundo ledger)
    (ha : List.Forall₂ CTransaction.Alike block.vtx block'.vtx) (hl : ledger'.coins = ledger.coins) :
    AcceptsBlock ctx' pindex block' vtxundo ledger' := by
  have ⟨coinbase, rest, hvtx, hf, hr⟩ := h.first
  refine ⟨h.height, ?_, h.all.alike ha hl⟩
  rw [hvtx] at ha
  cases hv : block'.vtx
  case nil => rw [hv] at ha; nomatch ha
  case cons coinbase' rest' =>
  rw [hv] at ha
  cases ha
  case cons hd htl =>
  refine ⟨coinbase', rest', rfl, hd.isCoinBase.trans hf, fun tx' hm => ?_⟩
  have ⟨tx, hm, ha⟩ := exists_alike htl hm
  rw [ha.isCoinBase, ha.prevouts]
  exact hr tx hm

section

def Matches (ledger : Ledger) : Prop :=
  ∀ out, (ledger.records out).filter (·.spend_height = 0) = (ledger.coins out).map Coin.entry

section

omit [Crypto]

lemma Matches.updateAll (h : Matches ledger)
    (us : List (COutPoint × Option Coin × Option CAddressValue))
    (hu : ∀ u ∈ us, u.2.2.filter (·.spend_height = 0) = u.2.1.map Coin.entry) :
    Matches
      { coins := updateAll ledger.coins (us.map fun u => (u.1, u.2.1))
        records := updateAll ledger.records (us.map fun u => (u.1, u.2.2)) } := by
  induction us generalizing ledger
  case nil => exact h
  case cons u us hi =>
  have ⟨hu, hus⟩ := List.forall_mem_cons.mp hu
  have hstep : Matches
      { coins := update ledger.coins u.1 u.2.1
        records := update ledger.records u.1 u.2.2 } := by
    intro out
    by_cases ho : out = u.1
    · simpa only [ho, update_self] using hu
    · simpa only [update_of_ne ho] using h out
  exact hi hstep hus

lemma entry_matches (h : 0 < coin.nHeight) :
    coin.entry.live.filter (·.spend_height = 0) = (some coin).map Coin.entry := by
  rw [CAddressValue.live_eq_some h]
  rfl

lemma spentEntry_matches (h : 0 < nHeight pindex) :
    (ctx.spentEntry pindex tx coin j).live.filter (·.spend_height = 0) =
      (none : Option Coin).map Coin.entry := by
  rw [CAddressValue.live]
  split
  · simp [ConnectContext.spentEntry, Nat.pos_iff_ne_zero.mp h]
  · rfl

end

-- What both stores take at each outpoint, when a transaction is connected and when it is disconnected.

def connectUpdates (ctx : ConnectContext) (pindex : CBlockIndex) (tx : CTransaction)
    (coins : COutPoint → Option Coin) : List (COutPoint × Option Coin × Option CAddressValue) :=
  (tx.prevouts.zipIdx.map fun p =>
    (p.1, none, (ctx.spentEntry pindex tx ((coins p.1).getD Coin.empty) p.2).live)) ++
  (tx.coins (nHeight pindex)).map fun kv => (kv.1, some kv.2, kv.2.entry.live)

def disconnectUpdates (pindex : CBlockIndex) (tx : CTransaction) (vprevout : List Coin) :
    List (COutPoint × Option Coin × Option CAddressValue) :=
  ((tx.coins (nHeight pindex)).map fun kv => (kv.1, none, none)) ++
  (tx.prevouts.zip vprevout).reverse.map fun kv => (kv.1, some kv.2, kv.2.entry.live)

lemma connect_eq_updates (hf : ctx.fAddressIndex) : ledger.connect ctx pindex tx =
    { coins := updateAll ledger.coins
        ((connectUpdates ctx pindex tx ledger.coins).map fun u => (u.1, u.2.1))
      records := updateAll ledger.records
        ((connectUpdates ctx pindex tx ledger.coins).map fun u => (u.1, u.2.2)) } := by
  have hk : tx.prevouts.zipIdx.map (fun p => (p.1, (none : Option Coin))) =
      tx.prevouts.map fun out => (out, none) := by
    rw [← List.zipIdx_map_fst 0 tx.prevouts, List.map_map, List.zipIdx_map_fst]
    rfl
  rw [connect, eraseAll_eq_updateAll, insertAll_eq_updateAll, ← updateAll_append, ← hk]
  simp [connectUpdates, recorded, ConnectContext.connectWrites, hf, ConnectContext.spentWrites,
    ConnectContext.createdWrites, CAddressKey.ofScript, comp_def]

lemma disconnect_coins_updates : (ledger.disconnect ctx pindex tx vprevout).coins =
    updateAll ledger.coins ((disconnectUpdates pindex tx vprevout).map fun u => (u.1, u.2.1)) := by
  rw [disconnect, eraseAll_eq_updateAll, insertAll_eq_updateAll, ← updateAll_append]
  simp [disconnectUpdates, comp_def]

lemma disconnect_records_updates (hf : ctx.fAddressIndex) :
    (ledger.disconnect ctx pindex tx vprevout).records =
      updateAll ledger.records ((disconnectUpdates pindex tx vprevout).map fun u => (u.1, u.2.2)) := by
  simp [disconnect, disconnectUpdates, recorded, ConnectContext.disconnectWrites, hf,
    ConnectContext.removedWrites, ConnectContext.restoredWrites, CAddressKey.ofScript,
    CAddressValue.live_tombstone, comp_def]

section

variable (h : Matches ledger) (hf : ctx.fAddressIndex) (hp : 0 < nHeight pindex)
include h hf hp

lemma Matches.connect : Matches (ledger.connect ctx pindex tx) := by
  rw [connect_eq_updates hf]
  refine h.updateAll _ fun u hu => ?_
  cases List.mem_append.mp hu
  case inl hu =>
    have ⟨p, _, he⟩ := List.mem_map.mp hu
    rw [← he]
    exact spentEntry_matches hp
  rename_i hu
  have ⟨kv, hm, he⟩ := List.mem_map.mp hu
  have ⟨_, _, _, hh, _⟩ := mem_coins_outpoint hm
  rw [← he]
  exact entry_matches (hh ▸ hp)

lemma Matches.connectAll (vtx) : Matches (ledger.connectAll ctx pindex vtx) := by
  induction vtx generalizing ledger
  case nil => exact h
  case cons tx vtx hi => exact hi (h.connect hf hp)

end

omit [Crypto] in
lemma disconnectUpdates_match (hv : ∀ coin ∈ vprevout, 0 < coin.nHeight) :
    ∀ u ∈ disconnectUpdates pindex tx vprevout,
      u.2.2.filter (·.spend_height = 0) = u.2.1.map Coin.entry := by
  intro u hu
  cases List.mem_append.mp hu
  case inl hu =>
    have ⟨kv, _, he⟩ := List.mem_map.mp hu
    rw [← he]
    rfl
  rename_i hu
  have ⟨kv, hm, he⟩ := List.mem_map.mp hu
  rw [← he]
  exact entry_matches (hv _ (List.of_mem_zip (List.mem_reverse.mp hm)).2)

lemma Matches.disconnect (h : Matches ledger) (hf : ctx.fAddressIndex)
    (hv : ∀ coin ∈ vprevout, 0 < coin.nHeight) :
    Matches (ledger.disconnect ctx pindex tx vprevout) := by
  have hu := h.updateAll (disconnectUpdates pindex tx vprevout) (disconnectUpdates_match hv)
  rwa [← @disconnect_coins_updates _ ctx, ← disconnect_records_updates hf] at hu

lemma Matches.disconnectAll (h : Matches ledger) (hf : ctx.fAddressIndex)
    (hv : ∀ p ∈ txs, ∀ coin ∈ p.2, 0 < coin.nHeight) :
    Matches (ledger.disconnectAll ctx pindex txs) := by
  induction txs
  case nil => exact h
  case cons p txs hi =>
  have ⟨hv, hvs⟩ := List.forall_mem_cons.mp hv
  exact (hi hvs).disconnect hf hv

end

lemma Known.connectAll (h : Known txOf ledger.coins)
    (ht : ∀ tx ∈ vtx, (txOf tx.getHash).vout = tx.vout) :
    Known txOf (ledger.connectAll ctx pindex vtx).coins := by
  induction vtx generalizing ledger
  case nil => exact h
  case cons tx vtx hi =>
  have ⟨ht, hts⟩ := List.forall_mem_cons.mp ht
  exact hi (h.connect ht) hts

end Ledger

open Ledger

section

variable {s : TipState} {view : CCoinsViewCache}

lemma Tip.flushView_updates (enumeration) (hs : s.view.Coherent) (hv : view.Coherent)
    (hb : view.base = s.view.toView) :
    ∃ pcoinsTip, flushView enumeration view s = .ok () { s with view := pcoinsTip } ∧
      pcoinsTip.Coherent ∧ pcoinsTip.getCoin = view.getCoin ∧ pcoinsTip.hashBlock = view.hashBlock := by
  have hover : view = view.layer.onto s.view.toView := by rw [← hb]; rfl
  rw [hover] at hv
  have ⟨pcoinsTip, hw, hu⟩ :=
    CoinsStack.batchWrite_updates hs hv (enumeration.visits view.layer) view.hashBlock
  refine ⟨pcoinsTip.setBestBlock view.hashBlock, ?_, hu.coherent.setBestBlock _, ?_, rfl⟩
  · simp only [flushView, bind, EStateM.bind, get, getThe, MonadStateOf.get, EStateM.get, check,
      Enumeration.entries, hw]
    rfl
  · rw [setBestBlock_getCoin, hu.coins, ← hover]

lemma flushed_spec (enumeration) (hv : view.Coherent) :
    (flushed enumeration view).Coherent ∧ (flushed enumeration view).getCoin = view.getCoin := by
  have hc := hv
  refine ⟨CoinsStack.over_empty_coherent view.hashBlock, ?_⟩
  have he := (enumeration.visits view.layer).overlaid_entries hc
  funext out
  rw [getCoin_uncached (by simp [flushed])]
  have hu : (flushed enumeration view).base.unspent = view.getCoin := by
    rw [flushed, CoinsStack.batchWrite_unspent]
    exact he
  exact congrFun hu out

end

-- What the entries of the block index and the hashes of transactions stand for.
structure Binding where
  blockOf : CBlockIndex → CBlock
  txOf : Uint256 → CTransaction
  outputs : ∀ p, ∀ tx ∈ (blockOf p).vtx, (txOf tx.getHash).vout = tx.vout

namespace Binding

-- The coins of a chain. The outputs of the genesis block are not among them.
def coinsAt (binding : Binding) (params : Params) : CBlockIndex → COutPoint → Option Coin
  | [] => fun _ => none
  | b :: pprev =>
    if CBlockIndex.getBlockHash (b :: pprev) = params.hashGenesisBlock then
      coinsAt binding params pprev
    else coinsAfter (nHeight (b :: pprev)) (binding.blockOf (b :: pprev)).vtx
      (coinsAt binding params pprev)

-- A copy of the block of an entry. If its memo is set, it has passed the checks.
structure Stands (binding : Binding) (p : CBlockIndex) (block : CBlock) : Prop where
  alike : List.Forall₂ CTransaction.Alike (binding.blockOf p).vtx block.vtx
  memo : block.Memo

variable {binding : Binding} {params : Params} {p : CBlockIndex} {block : CBlock}

lemma coinsAt_genesis (h : p.getBlockHash = params.hashGenesisBlock) :
    binding.coinsAt params p = binding.coinsAt params p.tail := by
  cases p
  case nil => rfl
  case cons => exact if_pos h

lemma coinsAt_child (hp : p ≠ []) (h : p.getBlockHash ≠ params.hashGenesisBlock) :
    binding.coinsAt params p =
      coinsAfter (nHeight p) (binding.blockOf p).vtx (binding.coinsAt params p.tail) := by
  cases p
  case nil => exact absurd rfl hp
  case cons => exact if_neg h

lemma Stands.outputs (h : binding.Stands p block) :
    ∀ tx ∈ block.vtx, (binding.txOf tx.getHash).vout = tx.vout := by
  intro tx' hm
  have ⟨tx, hm, ha⟩ := exists_alike h.alike hm
  rw [ha.hash, ha.outputs]
  exact binding.outputs p tx hm

end Binding

variable [Crypto] {binding : Binding} {params : Params} {p : CBlockIndex} {block : CBlock}
  {vtxundo : CBlockUndo} {s s' : TipState}

-- The undo data of an entry is what its block spends of the coins at its parent.
structure Settled (binding : Binding) (params : Params) (p : CBlockIndex) (vtxundo : CBlockUndo) :
    Prop where
  parent : p.tail ≠ []
  child : p.getBlockHash ≠ params.hashGenesisBlock
  accepts : ∀ ctx (ledger : Ledger), ledger.coins = binding.coinsAt params p.tail →
    ledger.AcceptsBlock ctx p (binding.blockOf p) vtxundo
  grounded : Grounded (binding.coinsAt params p.tail)
  known : Known binding.txOf (binding.coinsAt params p.tail)
  outputs : ∀ tx ∈ (binding.blockOf p).vtx, ∀ out ∈ tx.vout, out.isNull = false

structure TipState.Follows (s : TipState) (binding : Binding) (params : Params) : Prop where
  coherent : s.view.Coherent
  coins : s.view.getCoin = binding.coinsAt params s.chainActive
  grounded : Grounded (binding.coinsAt params s.chainActive)
  known : Known binding.txOf (binding.coinsAt params s.chainActive)
  index : ∃ ledger : Ledger, ledger.coins = binding.coinsAt params s.chainActive ∧
    HoldsIndex binding.txOf s.addressIndex ledger ∧ ledger.Matches
  undo : ∀ p vtxundo, s.undo p = some vtxundo → Settled binding params p vtxundo
  chain : ∀ p : CBlockIndex, p <:+ s.chainActive → p.getBlockHash ≠ params.hashGenesisBlock → p ≠ [] →
    s.undo p ≠ none

-- The readable blocks are copies of those that the entries stand for, and there is an address index.
structure ConnectContext.Fits (ctx : ConnectContext) (binding : Binding) (params : Params) : Prop where
  params : ctx.params = params
  addressIndex : ctx.fAddressIndex
  disk : ∀ p block, ctx.readBlockFromDisk p = some block → binding.Stands p block

def TipState.scratch (s : TipState) : ConnectState :=
  { s.toConnectState with view := .onto s.view.toView }

section

omit [Crypto]

lemma TipState.scratch_getCoin (s : TipState) : s.scratch.view.getCoin = s.view.getCoin := by
  funext out
  have hn : s.scratch.view.cacheCoins.lookup out = none := Finmap.lookup_empty out
  exact (getCoin_uncached hn).trans (congrFun (CoinsStack.toView_unspent s.view) out)

lemma TipState.scratch_coherent (s : TipState) : s.scratch.view.Coherent :=
  over_coherent _

lemma scratch_flush (enumeration : Enumeration) (hx : x s.scratch = .ok () t)
    (hs : s.view.Coherent) (ht : t.view.Coherent) (hb : t.view.base = s.view.toView)
    (pindex : CBlockIndex) :
    ∃ pcoinsTip, (do
        let view ← scratch x
        flushView enumeration view
        setTip pindex) s =
      .ok () { t with view := pcoinsTip, chainActive := pindex } ∧
      pcoinsTip.Coherent ∧ pcoinsTip.getCoin = t.view.getCoin := by
  have hrun : scratch x s = .ok t.view { s with toConnectState := { t with view := s.view } } := by
    rw [TipState.scratch] at hx
    simp [scratch, hx]
  have ⟨pcoinsTip, hf, hc, hg, _⟩ := @flushView_updates
    { s with toConnectState := { t with view := s.view } } t.view enumeration hs ht hb
  refine ⟨pcoinsTip, ?_, hc, hg⟩
  rw [bind_of_ok hrun, bind_of_ok hf]
  rfl

end

namespace TipState.Follows

variable {ctx : ConnectContext}

section

variable (h : s.Follows binding params)
include h

lemma connectBlock (hc : ctx.Fits binding params) (hb : binding.Stands p block)
    (hp : p.tail = s.chainActive) {t : ConnectState}
    (hr : ctx.connectBlock block p false s.scratch = .ok () t) :
    TipState.Follows { t with chainActive := p } binding params ∧ t.view.base = s.view.toView := by
  obtain ⟨hprep, st, hbranch⟩ := connectBlock_ok hr
  by_cases hg : block.getHash = ctx.params.hashGenesisBlock
  · rw [if_pos hg, if_neg Bool.false_ne_true] at hbranch
    have hat : binding.coinsAt params p = binding.coinsAt params s.chainActive := by
      rw [← hp]
      exact Binding.coinsAt_genesis ((hprep.hash.trans hg).trans (congrArg _ hc.params))
    subst hbranch
    refine ⟨?_, rfl⟩
    constructor
    case coherent => exact s.scratch_coherent.setBestBlock _
    case coins => exact (s.scratch_getCoin.trans h.coins).trans hat.symm
    case grounded => exact hat ▸ h.grounded
    case known => exact hat ▸ h.known
    case index => exact hat ▸ h.index
    case undo => exact h.undo
    case chain =>
    intro q hq hchild hne
    refine h.chain q ?_ hchild hne
    cases suffix_iff_eq_or_tail.mp hq
    case inl he =>
      exact absurd (he ▸ (hprep.hash.trans hg).trans (congrArg _ hc.params)) hchild
    case inr hq => exact hp ▸ hq
  obtain ⟨ledger, hl, hx, hm⟩ := h.index
  have hcoins : ledger.coins = s.scratch.view.getCoin := by
    rw [hl, s.scratch_getCoin, h.coins]
  obtain ⟨_, vtxundo, href⟩ := connectBlock_refines hb.memo s.scratch_coherent hg hr hcoins
  have hchild : p.getBlockHash ≠ params.hashGenesisBlock := by
    rw [hprep.hash, ← hc.params]
    exact hg
  have hat : (ledger.connectBlock ctx p block).coins = binding.coinsAt params p := by
    rw [Ledger.connectBlock, connectAll_coins, coinsAfter_alike hb.alike,
      Binding.coinsAt_child hprep.entry hchild, hp, hl]
  have hpos := nHeight_pos href.parent
  have hset : Settled binding params p vtxundo := by
    have hflip : List.Forall₂ CTransaction.Alike block.vtx (binding.blockOf p).vtx :=
      hb.alike.flip.imp fun _ _ ha => ⟨ha.hash.symm, ha.inputs.symm, ha.outputs.symm⟩
    constructor
    case parent => exact href.parent
    case child => exact hchild
    case accepts =>
      exact fun ctx' ledger' hl' => href.accepts.alike hflip (by rw [hl', hp, hl])
    case grounded => exact hp ▸ h.grounded
    case known => exact hp ▸ h.known
    case outputs =>
    intro tx hm out ho
    obtain ⟨tx', hm', ha⟩ := exists_alike hflip hm
    have hchecked := (checkContents_ok (checkBlock_contents hb.memo hprep.checked)).2 tx' hm'
    have hpos := (checkTransaction_inRange hchecked).1.nonneg out (ha.outputs ▸ ho)
    simp only [CTxOut.isNull, decide_eq_false_iff_not]
    intro hneg
    rw [hneg] at hpos
    exact absurd hpos (by decide)
  refine ⟨?_, href.base⟩
  constructor
  case coherent => exact href.coherent
  case coins => exact href.coins.trans hat
  case grounded => exact hat ▸ href.accepts.grounded (hl ▸ h.grounded)
  case known => exact hat ▸ (hl ▸ h.known : Known binding.txOf ledger.coins).connectAll hb.outputs
  case index =>
    refine ⟨ledger.connectBlock ctx p block, hat, ?_, hm.connectAll hc.addressIndex hpos _⟩
    exact href.index binding.txOf (hl ▸ h.known) hb.outputs hx
  case undo =>
    intro q undo hq
    have hundo := hq
    rw [href.undo] at hundo
    split at hundo
    case isFalse => exact h.undo q undo hundo
    by_cases he : q = p
    · rw [he, update_self] at hundo
      cases hundo
      exact he ▸ hset
    rw [update_of_ne he] at hundo
    exact h.undo q undo hundo
  case chain =>
  intro q hq hchild' hne
  have hundo : t.undo q ≠ none := by
    rw [href.undo]
    by_cases he : q = p
    · split
      · rw [he, update_self]; simp
      case isFalse hn => exact he ▸ hn
    have hq := (suffix_iff_eq_or_tail.mp hq).resolve_left he
    have hold : s.undo q ≠ none := h.chain q (hp ▸ hq) hchild' hne
    split
    · rw [update_of_ne he]; exact hold
    · exact hold
  exact hundo

lemma disconnectBlock (hc : ctx.Fits binding params) (hb : binding.Stands s.chainActive block)
    {t : ConnectState} (hr : ctx.disconnectBlock block s.chainActive s.scratch = .ok .ok t) :
    TipState.Follows { t with chainActive := s.chainActive.tail } binding params ∧
      t.view.base = s.view.toView := by
  obtain ⟨ledger, hl, hx, hm⟩ := h.index
  cases hu : s.scratch.undo s.chainActive
  case none =>
    simp only [ConnectContext.disconnectBlock, bind_get, hu] at hr
    cases (pure_eq_ok.mp hr).1
  rename_i vtxundo
  have hset := h.undo _ _ hu
  have hacc : (⟨binding.coinsAt params s.chainActive.tail, ledger.records⟩ : Ledger).AcceptsBlock
      ctx s.chainActive block vtxundo :=
    (hset.accepts ctx ⟨_, ledger.records⟩ rfl).alike hb.alike rfl
  have hfits := BlockUndoable.of_accepts hacc hset.grounded
  have hcoins : ledger.coins = s.scratch.view.getCoin := by
    rw [hl, s.scratch_getCoin, h.coins]
  obtain ⟨fClean, t', hd, hdis, _⟩ :=
    @disconnectBlock_updates _ ctx block s.chainActive s.scratch ledger vtxundo hfits hset.parent hu
      s.scratch_coherent hcoins
  have ht : t = t' := by
    rw [hr] at hd
    injection hd
  subst ht
  have hne : s.chainActive ≠ [] := fun he => hset.parent (by rw [he]; rfl)
  -- Disconnecting the block undoes what connecting it did to the coins.
  have hat : (ledger.disconnectBlock ctx s.chainActive block vtxundo).coins =
      binding.coinsAt params s.chainActive.tail := by
    have hback := hacc.all.disconnectAll_coins
    have hafter : ledger.coins = (Ledger.connectAll ctx s.chainActive block.vtx
        ⟨binding.coinsAt params s.chainActive.tail, ledger.records⟩).coins := by
      rw [connectAll_coins, hl, Binding.coinsAt_child hne hset.child, coinsAfter_alike hb.alike]
    exact (disconnectAll_coins_congr hafter _).trans hback
  have hbound := bound_of_acceptsAll hacc.all hset.known hb.outputs
  refine ⟨?_, hdis.restored.base⟩
  constructor
  case coherent => exact hdis.restored.coherent
  case coins => exact hdis.restored.coins.trans hat
  case grounded => exact hset.grounded
  case known => exact hset.known
  case index =>
    exact ⟨_, hat, hdis.index binding.txOf hbound hx,
      hm.disconnectAll hc.addressIndex hfits.heights⟩
  case undo =>
    intro q undo hq
    exact h.undo q undo (hdis.restored.undo ▸ hq)
  case chain =>
  intro q hq hchild hne
  have hundo : t.undo q ≠ none := by
    rw [hdis.restored.undo]
    exact h.chain q (hq.trans (List.tail_suffix _)) hchild hne
  exact hundo

lemma flush (enumeration fDoFullFlush) :
    (ctx.flushStateToDisk enumeration fDoFullFlush s).Follows binding params := by
  have hx : ∃ ledger : Ledger, ledger.coins = binding.coinsAt params s.chainActive ∧
      HoldsIndex binding.txOf (if ctx.fAddressIndex then s.addressIndex.flush else s.addressIndex)
        ledger ∧ ledger.Matches := by
    have ⟨ledger, hl, hx, hm⟩ := h.index
    refine ⟨ledger, hl, ?_, hm⟩
    split
    · have ⟨hf, hr⟩ := hx.1.flush
      exact ⟨hf, hr.trans hx.2⟩
    · exact hx
  have ⟨hc, hg⟩ := flushed_spec enumeration h.coherent
  rw [ConnectContext.flushStateToDisk]
  split
  · exact ⟨hc, hg.trans h.coins, h.grounded, h.known, hx, h.undo, h.chain⟩
  · exact ⟨h.coherent, h.coins, h.grounded, h.known, hx, h.undo, h.chain⟩

lemma read (script out) : (s.addressIndex.read script out).filter (·.spend_height = 0) =
      ((s.view.getCoin out).filter (addressScript ·.out.scriptPubKey = script)).map Coin.entry := by
  have ⟨ledger, hl, ⟨hf, hr⟩, hm⟩ := h.index
  have hm := hm out
  rw [hl] at hm
  rw [hf.read, h.coins]
  cases hc : binding.coinsAt params s.chainActive out
  case none =>
    rw [hc] at hm
    split
    · rw [hr]; exact hm
    · rfl
  rename_i coin
  have hfile : addressScript coin.out.scriptPubKey = fileOf binding.txOf out :=
    fileOf_eq (h.known out coin hc)
  rw [hc] at hm
  split
  case isTrue he => rw [hr, hm]; simp [Option.filter, hfile, he]
  case isFalse he => simp [Option.filter, hfile, Ne.symm he]

lemma withView (hv : view.Coherent) (hc : view.getCoin = s.view.getCoin) :
    TipState.Follows { s with view := view } binding params :=
  ⟨hv, hc.trans h.coins, h.grounded, h.known, h.index, h.undo, h.chain⟩

end

end TipState.Follows

namespace Tip

omit [Crypto] in
lemma check_bind : (check c >>= f) s = .ok b s' ↔ ∃ a, c = .ok a ∧ f a s = .ok b s' := by
  cases c <;> simp [check, bind, EStateM.bind]

omit [Crypto] in
lemma scratch_ok (h : scratch x s = .ok view s') : ∃ t, x s.scratch = .ok () t := by
  simp only [scratch] at h
  split at h
  case h_1 t hx => exact ⟨t, hx⟩
  case h_2 => nomatch h

end Tip

section

variable {ctx : ConnectContext} {enumeration : Enumeration}

section

variable (h : s.Follows binding params) (hc : ctx.Fits binding params)
include h hc

lemma connectTip_follows (hb : ∀ block, pblock = some block → binding.Stands p block)
    (hr : ctx.connectTip enumeration p pblock s = .ok () s') : s'.Follows binding params := by
  have ⟨(), ha, hr⟩ := check_bind.mp hr
  have hp : p.tail = s.chainActive := by simpa using Check.rejectIf_fault_eq_ok.mp ha
  cases hblock : pblock.or (ctx.readBlockFromDisk p)
  case none => simp [hblock, check, Check.stateError] at hr
  rename_i block
  have hstands : binding.Stands p block := by
    cases Option.or_eq_some_iff.mp hblock
    case inl hg => exact hb block hg
    case inr hd => exact hc.disk p block hd.2
  simp only [hblock] at hr
  have ⟨_, _, hx, _⟩ := bind_eq_ok.mp hr
  have ⟨t, hx⟩ := scratch_ok hx
  have hfits : (ctx.withTip s.chainActive s.view.toView).Fits binding params :=
    ⟨hc.params, hc.addressIndex, hc.disk⟩
  have ⟨hf, hbase⟩ := h.connectBlock hfits hstands hp hx
  have ⟨pcoinsTip, hdone, hcoh, hcoins⟩ := scratch_flush enumeration hx h.coherent hf.coherent hbase p
  rw [hdone] at hr
  cases hr
  exact hf.withView hcoh hcoins

lemma connectTip_succeeds (hb : binding.Stands p block) (hp : p.tail = s.chainActive)
    {t : ConnectState}
    (hr : (ctx.withTip s.chainActive s.view.toView).connectBlock block p false s.scratch = .ok () t) :
    ∃ s', ctx.connectTip enumeration p (some block) s = .ok () s' := by
  have hfits : (ctx.withTip s.chainActive s.view.toView).Fits binding params :=
    ⟨hc.params, hc.addressIndex, hc.disk⟩
  have ⟨hf, hbase⟩ := h.connectBlock hfits hb hp hr
  have ⟨_, hdone, _⟩ := scratch_flush enumeration hr h.coherent hf.coherent hbase p
  exact ⟨_, check_bind.mpr ⟨(), by simp [hp], hdone⟩⟩

lemma disconnectTip_follows (hr : ctx.disconnectTip enumeration s = .ok () s') :
    s'.Follows binding params := by
  have ⟨_, _, hr⟩ := check_bind.mp hr
  cases hblock : ctx.readBlockFromDisk s.chainActive
  case none => simp [hblock, check, Check.stateError] at hr
  rename_i block
  simp only [hblock] at hr
  have ⟨_, _, hx, _⟩ := bind_eq_ok.mp hr
  have ⟨t, hx⟩ := scratch_ok hx
  have hclean : ctx.disconnectBlock block s.chainActive s.scratch = .ok .ok t := by
    have ⟨_, _, hx⟩ := Connect.check_bind.mp hx
    have ⟨res, t1, hd, hx⟩ := bind_eq_ok.mp hx
    cases res
    case ok => exact (pure_eq_ok.mp hx).2 ▸ hd
    case unclean => nomatch hx
    case failed => nomatch hx
  have ⟨hf, hbase⟩ := h.disconnectBlock hc (hc.disk _ _ hblock) hclean
  have ⟨pcoinsTip, hdone, hcoh, hcoins⟩ :=
    scratch_flush enumeration hx h.coherent hf.coherent hbase s.chainActive.tail
  rw [hdone] at hr
  cases hr
  exact hf.withView hcoh hcoins

end

end

-- A call in a context that fits, whose given block is a copy of the one that its entry stands for.
structure TipCall.Fits (call : TipCall) (binding : Binding) (params : Params) : Prop where
  context : call.ctx.Fits binding params
  given : ∀ p block, call.action = .connectTip p (some block) → binding.Stands p block

lemma step_follows {call : TipCall} (h : s.Follows binding params) (hc : call.Fits binding params)
    (hr : call.step s = .ok () s') : s'.Follows binding params := by
  rw [TipCall.step] at hr
  cases ha : call.action
  case connectTip pindexNew pblock =>
    rw [ha] at hr
    exact connectTip_follows h hc.context (fun block he => hc.given _ block (he ▸ ha)) hr
  case disconnectTip =>
    rw [ha] at hr
    exact disconnectTip_follows h hc.context hr
  case flushStateToDisk fDoFullFlush =>
  rw [ha] at hr
  cases hr
  exact h.flush _ _

lemma run_follows {calls : List TipCall} (h : s.Follows binding params)
    (hc : ∀ call ∈ calls, call.Fits binding params) (hr : TipState.run calls s = .ok () s') :
    s'.Follows binding params := by
  induction calls generalizing s
  case nil => exact (pure_eq_ok.mp hr).2 ▸ h
  case cons call calls hi =>
  have ⟨hcall, hcalls⟩ := List.forall_mem_cons.mp hc
  have ⟨_, s1, hstep, hr⟩ := bind_eq_ok.mp hr
  exact hi (step_follows h hcall hstep) hcalls hr

structure TipState.AtGenesis (s : TipState) (params : Params) : Prop where
  tip : s.chainActive = [] ∨
    s.chainActive.tail = [] ∧ s.chainActive.getBlockHash = params.hashGenesisBlock
  coherent : s.view.Coherent
  coins : ∀ out, s.view.getCoin out = none
  cache : s.addressIndex.cache = ∅
  db : ∀ key, s.addressIndex.db key = none
  undo : ∀ p, s.undo p = none

lemma TipState.AtGenesis.follows (h : s.AtGenesis params) (binding) : s.Follows binding params := by
  have hat : binding.coinsAt params s.chainActive = fun _ => none := by
    cases h.tip
    case inl ht => rw [ht]; rfl
    case inr ht => rw [Binding.coinsAt_genesis ht.2, ht.1]; rfl
  have hfiled : s.addressIndex.Filed (fileOf binding.txOf) :=
    ⟨fun hc => by simp [h.cache] at hc, fun hd => by simp [h.db] at hd⟩
  have hrecord : s.addressIndex.record (fileOf binding.txOf) = fun _ => none := by
    funext out
    exact (read_uncached (by simp [h.cache])).trans (h.db _)
  constructor
  case coherent => exact h.coherent
  case coins => exact (funext h.coins).trans hat.symm
  case grounded => rw [hat]; nofun
  case known => rw [hat]; nofun
  case index => exact ⟨⟨_, fun _ => none⟩, rfl, ⟨hfiled, hrecord⟩, fun _ => by rw [hat]; rfl⟩
  case undo => exact fun p undo hu => by simp [h.undo] at hu
  case chain =>
  intro p hp hchild hne
  cases h.tip
  case inl ht => exact absurd (List.suffix_nil.mp (ht ▸ hp)) hne
  rename_i ht
  cases suffix_iff_eq_or_tail.mp hp
  case inl he => exact absurd (he ▸ ht.2) hchild
  case inr hp => exact absurd (List.suffix_nil.mp (ht.1 ▸ hp)) hne

-- The unspent entries of the index are the coins, after any run from the genesis block.
theorem run_read_unspent {calls : List TipCall} (hs : s.AtGenesis params)
    (hc : ∀ call ∈ calls, call.Fits binding params) (hr : TipState.run calls s = .ok () s')
    (script : CScript) (out : COutPoint) :
    (s'.addressIndex.read script out).filter (·.spend_height = 0) =
      ((s'.view.getCoin out).filter (addressScript ·.out.scriptPubKey = script)).map Coin.entry :=
  (run_follows (hs.follows binding) hc hr).read script out

section

abbrev chainHashes : Crypto :=
  { Crypto.additive with
    blockHash := fun p => if p.hashPrevBlock = 0 then testNet.hashGenesisBlock else 1 }

def minerCoinbase : CTransaction :=
  { emptyCoinbase with vout := [{ nValue := 5, scriptPubKey := [OP_1] }] }

def firstBlock : CBlock :=
  { genesisBlock with hashPrevBlock := testNet.hashGenesisBlock, vtx := [minerCoinbase] }

def firstEntry : CBlockIndex :=
  @IndexHeader.ofHeader chainHashes firstBlock.getBlockHeader :: genesisEntry

def firstContext : ConnectContext :=
  { indexedContext with readBlockFromDisk := fun _ => none }

def firstState : TipState :=
  { emptyState with
    view := .onto
      { getCoin := fun _ => none, getBestBlock := testNet.hashGenesisBlock, finite := finite_none }
    chainActive := genesisEntry }

noncomputable def someEnumeration : Enumeration where
  order layer := layer.cacheCoins.keys.toList
  visits _ := ⟨Finset.nodup_toList _, fun _ => Finset.mem_toList.trans Finmap.mem_keys⟩

noncomputable def firstCall : TipCall where
  ctx := firstContext
  enumeration := someEnumeration
  action := .connectTip firstEntry (some firstBlock)

def firstBinding : Binding where
  blockOf _ := firstBlock
  txOf _ := minerCoinbase
  outputs := by simp [firstBlock]

section

omit [Crypto]

lemma firstState_atGenesis : firstState.AtGenesis testNet where
  tip := .inr ⟨rfl, rfl⟩
  coherent := over_coherent _
  coins := fun _ => getCoin_uncached (Finmap.lookup_empty _)
  cache := rfl
  db := fun _ => rfl
  undo := fun _ => rfl

lemma firstBlock_stands : firstBinding.Stands p firstBlock :=
  ⟨.cons ⟨rfl, rfl, rfl⟩ .nil, nofun⟩

lemma firstContext_fits : firstContext.Fits firstBinding testNet :=
  ⟨rfl, rfl, nofun⟩

lemma firstCall_fits : firstCall.Fits firstBinding testNet := by
  refine ⟨firstContext_fits, fun p block he => ?_⟩
  cases he
  exact firstBlock_stands

lemma firstCall_runs : ∃ s', @TipState.run chainHashes [firstCall] firstState = .ok () s' := by
  have ⟨_, hx⟩ : ∃ t, @ConnectContext.connectBlock chainHashes
      (firstContext.withTip genesisEntry firstState.view.toView) firstBlock firstEntry false
      firstState.scratch = .ok () t := by
    decide +kernel
  have ⟨s', hr⟩ := @connectTip_succeeds chainHashes _ _ _ _ _ _ someEnumeration
    (@TipState.AtGenesis.follows chainHashes _ _ firstState_atGenesis firstBinding) firstContext_fits
    firstBlock_stands rfl _ hx
  exact ⟨s', bind_eq_ok.mpr ⟨(), s', hr, rfl⟩⟩

theorem run_read_unspent_first : ∃ s', @TipState.run chainHashes [firstCall] firstState = .ok () s' ∧
    ∀ script out, (s'.addressIndex.read script out).filter (·.spend_height = 0) =
      ((s'.view.getCoin out).filter
        (@addressScript chainHashes ·.out.scriptPubKey = script)).map Coin.entry := by
  have ⟨s', hr⟩ := firstCall_runs
  exact ⟨s', hr, @run_read_unspent chainHashes firstBinding testNet firstState s' [firstCall]
    firstState_atGenesis (by simp [firstCall_fits]) hr⟩

end

end

end Taler
