import TalerModel.Coins.Theorems.Database
import TalerModel.Validation.Replay
import TalerModel.Validation.Theorems.Reconnect
import TalerModel.Validation.Theorems.Tip

namespace Taler

open Binding Function

open PartialMap CAddressIndexDB CCoinsViewCache ConnectContext Ledger CCoinsViewDB Params List

section

variable {view : CCoinsViewCache} {tx : CTransaction} {n : Nat}

lemma CCoinsViewCache.Coherent.spendAll_updates (hv : view.Coherent) (vin) :
    Updates view (view.spendAll vin) (eraseAll view.getCoin (vin.map CTxIn.prevout)) := by
  induction vin generalizing view
  case nil => exact .refl hv
  case cons txin vin hi =>
  rw [spendAll, foldl_cons, map_cons, eraseAll_cons]
  cases hs : view.spendCoin txin.prevout
  case none =>
    have hn := update_eq_self txin.prevout view.getCoin
    rw [getCoin_of_spendCoin_none hs] at hn
    rw [hn]
    exact hi hv
  have hu := hv.spendCoin_updates hs
  have hr := hu.trans (hi hu.coherent)
  rwa [hu.coins] at hr

lemma CCoinsViewCache.Coherent.addOutputs_any (hv : view.Coherent)
    (ho : ∀ p ∈ vout, p.1.isNull = false) :
    ∃ view', addOutputs tx n true vout view = .ok view' ∧
      Updates view view' (insertAll view.getCoin (outputCoins tx n vout)) := by
  induction vout generalizing view
  case nil => exact ⟨view, rfl, .refl hv⟩
  case cons p vout hi =>
  obtain ⟨out, i⟩ := p
  obtain ⟨hn, ho⟩ := forall_mem_cons.mp ho
  have hs : (tx.coin n out).isSpent = false := hn
  rw [addOutputs, if_pos rfl]
  cases hu : out.scriptPubKey.isUnspendable
  case true =>
    have ha : view.addCoin (tx.outpoint i) (tx.coin n out) (view.haveCoin (tx.outpoint i)) =
        .ok view := by
      rw [addCoin, if_neg (by simp [hs]), if_pos (by exact hu)]
    rw [outputCoins_unspendable hu, ha]
    exact hi hv ho
  obtain ⟨view1, ha, hup⟩ := hv.addCoin_have hs hu
  obtain ⟨view2, hr, hup2⟩ := hi hup.coherent ho
  rw [outputCoins_spendable hu, insertAll_cons, ha]
  have ht := hup.trans hup2
  rw [hup.coins] at ht
  exact ⟨view2, hr, ht⟩

lemma CCoinsViewCache.Coherent.rollforward_updates {vtx : List CTransaction} (hv : view.Coherent)
    (ho : ∀ tx ∈ vtx, ∀ out ∈ tx.vout, out.isNull = false) :
    ∃ view', rollforward n vtx view = .ok view' ∧
      Updates view view' (coinsAfter n vtx view.getCoin) := by
  induction vtx generalizing view
  case nil => exact ⟨view, rfl, .refl hv⟩
  case cons tx vtx hi =>
  obtain ⟨hn, ho⟩ := forall_mem_cons.mp ho
  have hsp : Updates view (if tx.isCoinBase then view else view.spendAll tx.vin)
      (eraseAll view.getCoin tx.prevouts) := by
    rw [CTransaction.prevouts]
    split
    · exact .refl hv
    · exact hv.spendAll_updates tx.vin
  have hz p (hp : p ∈ tx.vout.zipIdx) : p.1.isNull = false := by
    have hm := mem_map_of_mem (f := Prod.fst) hp
    rw [zipIdx_map_fst] at hm
    exact hn p.1 hm
  obtain ⟨view1, ha, hadd⟩ := @CCoinsViewCache.Coherent.addOutputs_any _ tx n _ hsp.coherent hz
  obtain ⟨view2, hr, hup⟩ := hi hadd.coherent ho
  have ht := (hsp.trans hadd).trans hup
  rw [hadd.coins, hsp.coins] at ht
  refine ⟨view2, ?_, ht⟩
  rw [rollforward, addCoins, ha]
  exact hr

end

section

variable {base : CBlockIndex}

lemma ancestorsAbove_self (base) : ancestorsAbove base (nHeight base) = [] := by
  simp [ancestorsAbove]

lemma ancestorsAbove_cons (hs : base <:+ pindex) (hb : base ≠ []) (b) :
    ancestorsAbove (b :: pindex) (nHeight base) =
      ancestorsAbove pindex (nHeight base) ++ [b :: pindex] := by
  have hlen := hs.length_le
  have hpos := length_pos_iff.mpr hb
  have hne := hs.ne_nil hb
  have hcount : nHeight (b :: pindex) - nHeight base = (nHeight pindex - nHeight base) + 1 := by
    simp only [nHeight, length_cons]
    omega
  rw [ancestorsAbove, ancestorsAbove, hcount, range_succ, map_append]
  congr 1
  case e_a =>
    refine map_congr_left fun i hi => getAncestor_suffix (suffix_cons b pindex) hne ?_
    have := mem_range.mp hi
    omega
  case e_a =>
  have htop : nHeight base + 1 + (nHeight pindex - nHeight base) = nHeight (b :: pindex) := by
    omega
  rw [map_singleton, htop]
  simp [getAncestor, nHeight]

end

def disconnectAllUpdates (pindex : CBlockIndex) :
    List (CTransaction × List Coin) → List (COutPoint × Option Coin × Option CAddressValue)
  | [] => []
  | p :: txs => disconnectAllUpdates pindex txs ++ disconnectUpdates pindex p.1 p.2

def undoUpdates (binding : Binding) (undo : CBlockIndex → Option CBlockUndo)
    (pindexFork : CBlockIndex) : CBlockIndex → List (COutPoint × Option Coin × Option CAddressValue)
  | [] => []
  | b :: pprev =>
    if b :: pprev = pindexFork then [] else
    disconnectAllUpdates (b :: pprev)
      ((binding.blockOf (b :: pprev)).vtx.zip ([] :: (undo (b :: pprev)).getD [])) ++
    undoUpdates binding undo pindexFork pprev

def forwardUpdates (binding : Binding) (entries : List CBlockIndex) : List (COutPoint × Option Coin) :=
  entries.flatMap fun p => (binding.blockOf p).vtx.flatMap fun tx =>
    (tx.prevouts.map fun out => (out, none)) ++ (tx.coins (nHeight p)).map fun kv => (kv.1, some kv.2)

def coinUpdates (us : List (COutPoint × Option Coin × Option CAddressValue)) :
    List (COutPoint × Option Coin) :=
  us.map fun u => (u.1, u.2.1)

def recordUpdates (us : List (COutPoint × Option Coin × Option CAddressValue)) :
    List (COutPoint × Option CAddressValue) :=
  us.map fun u => (u.1, u.2.2)

section

variable (us us' : List (COutPoint × Option Coin × Option CAddressValue))
include us us'

lemma coinUpdates_append : coinUpdates (us ++ us') = coinUpdates us ++ coinUpdates us' :=
  map_append

lemma recordUpdates_append : recordUpdates (us ++ us') = recordUpdates us ++ recordUpdates us' :=
  map_append

end

section

variable [Crypto] {ctx : ConnectContext} {ledger : Ledger} {vtx : List CTransaction}

lemma disconnectAll_coins_updates : (ledger.disconnectAll ctx pindex txs).coins =
    updateAll ledger.coins (coinUpdates (disconnectAllUpdates pindex txs)) := by
  induction txs
  case nil => rfl
  case cons p txs hi =>
  rw [disconnectAllUpdates, coinUpdates_append, updateAll_append]
  exact disconnect_coins_updates.trans (congrArg (updateAll · _) hi)

lemma disconnectAll_records_updates (hf : ctx.fAddressIndex) :
    (ledger.disconnectAll ctx pindex txs).records =
      updateAll ledger.records (recordUpdates (disconnectAllUpdates pindex txs)) := by
  induction txs
  case nil => rfl
  case cons p txs hi =>
  rw [disconnectAllUpdates, recordUpdates_append, updateAll_append]
  exact (disconnect_records_updates hf).trans (congrArg (updateAll · _) hi)

omit [Crypto] in
lemma disconnectAllUpdates_alike (h : List.Forall₂ CTransaction.Alike vtx vtx')
    (vtxundo : CBlockUndo) :
    disconnectAllUpdates pindex (vtx'.zip vtxundo) = disconnectAllUpdates pindex (vtx.zip vtxundo) := by
  induction h generalizing vtxundo
  case nil => rfl
  case cons hd _ hi =>
  cases vtxundo
  case nil => rfl
  case cons vprevout vtxundo =>
    simp [disconnectAllUpdates, hi, disconnectUpdates, hd.prevouts, hd.coins]

omit [Crypto] in
lemma coinsAfter_updates : coinsAfter n vtx m =
    updateAll m (vtx.flatMap fun tx =>
      (tx.prevouts.map fun out => (out, none)) ++ (tx.coins n).map fun kv => (kv.1, some kv.2)) := by
  induction vtx generalizing m
  case nil => rfl
  case cons tx vtx hi =>
  rw [flatMap_cons, updateAll_append, updateAll_append, ← eraseAll_eq_updateAll,
    ← insertAll_eq_updateAll, ← hi]
  rfl

end

-- What a node has of a chain after a crash: its blocks and their undo data, all under their hashes.
structure Archived [Crypto] (ctx : ConnectContext) (undo : CBlockIndex → Option CBlockUndo)
    (binding : Binding) (params : Params) (tip : CBlockIndex) : Prop where
  root : ∀ p : CBlockIndex, p <:+ tip → p ≠ [] → p.tail = [] →
    p.getBlockHash = params.hashGenesisBlock
  found : ∀ p : CBlockIndex, p <:+ tip → p ≠ [] →
    p.getBlockHash ≠ 0 ∧ ctx.lookupBlockIndex p.getBlockHash = p
  kept : ∀ p : CBlockIndex, p <:+ tip → p.tail ≠ [] → ∃ vtxundo block,
    undo p = some vtxundo ∧ Settled binding params p vtxundo ∧
    ctx.readBlockFromDisk p = some block ∧ binding.Stands p block

section

variable [Crypto] {ctx : ConnectContext} {undo : CBlockIndex → Option CBlockUndo}
  {binding : Binding} {params : Params} {tip pindexFork pindexOld : CBlockIndex} {t : ConnectState}
  {ledger : Ledger}

lemma Archived.suffix (h : Archived ctx undo binding params tip) (hs : pindexOld <:+ tip) :
    Archived ctx undo binding params pindexOld where
  root p hp := h.root p (hp.trans hs)
  found p hp := h.found p (hp.trans hs)
  kept p hp := h.kept p (hp.trans hs)

lemma Archived.above (h : Archived ctx undo binding params (b :: pprev))
    (hf : pindexFork <:+ b :: pprev) (hn : pindexFork = [] → b :: pprev = [])
    (hne : b :: pprev ≠ pindexFork) :
    pindexFork <:+ pprev ∧ pindexFork ≠ [] ∧ pprev ≠ [] ∧ ∃ vtxundo block,
      undo (b :: pprev) = some vtxundo ∧ Settled binding params (b :: pprev) vtxundo ∧
      ctx.readBlockFromDisk (b :: pprev) = some block ∧ binding.Stands (b :: pprev) block ∧
      (⟨binding.coinsAt params pprev, fun _ => none⟩ : Ledger).AcceptsBlock ctx (b :: pprev)
        (binding.blockOf (b :: pprev)) vtxundo := by
  have hs := (suffix_cons_iff.mp hf).resolve_left (Ne.symm hne)
  have hfork : pindexFork ≠ [] := fun he => nomatch hn he
  have hprev := hs.ne_nil hfork
  have ⟨vtxundo, block, hu, hset, hd, hb⟩ := h.kept (b :: pprev) (suffix_refl _) hprev
  exact ⟨hs, hfork, hprev, vtxundo, block, hu, hset, hd, hb, hset.accepts ctx _ rfl⟩

lemma undoUpdates_coinsAt (h : Archived ctx undo binding params pindexOld)
    (hf : pindexFork <:+ pindexOld) (hn : pindexFork = [] → pindexOld = []) :
    updateAll (binding.coinsAt params pindexOld)
      (coinUpdates (undoUpdates binding undo pindexFork pindexOld)) =
        binding.coinsAt params pindexFork := by
  induction pindexOld
  case nil =>
    rw [suffix_nil.mp hf]
    rfl
  case cons b pprev hi =>
  rw [undoUpdates]
  split
  case isTrue he =>
    rw [he]
    rfl
  rename_i hne
  obtain ⟨hs, hfork, _, vtxundo, _, hu, hset, _, _, hacc⟩ := h.above hf hn hne
  have hback := hacc.all.disconnectAll_coins
  rw [disconnectAll_coins_updates, connectAll_coins] at hback
  rw [coinUpdates_append, updateAll_append, hu, Option.getD_some,
    coinsAt_child (cons_ne_nil b pprev) hset.child]
  have htail := hi (h.suffix (suffix_cons b pprev)) hs fun he => absurd he hfork
  rw [← htail]
  exact congrArg (updateAll · _) hback

structure RolledBack (ctx : ConnectContext) (binding : Binding)
    (us : List (COutPoint × Option Coin × Option CAddressValue)) (t t' : ConnectState)
    (ledger : Ledger) : Prop where
  coherent : t'.view.Coherent
  base : t'.view.base = t.view.base
  coins : t'.view.getCoin = updateAll ledger.coins (coinUpdates us)
  index : ctx.fAddressIndex → HoldsIndex binding.txOf t.addressIndex ledger →
    HoldsIndex binding.txOf t'.addressIndex
      { coins := updateAll ledger.coins (coinUpdates us)
        records := updateAll ledger.records (recordUpdates us) }

lemma rollback_updates (h : Archived ctx undo binding params pindexOld) (hu : t.undo = undo)
    (hf : pindexFork <:+ pindexOld) (hn : pindexFork = [] → pindexOld = []) (hv : t.view.Coherent)
    (hl : ledger.coins = t.view.getCoin) :
    ∃ t', ctx.rollback pindexFork pindexOld t = .ok true t' ∧
      RolledBack ctx binding (undoUpdates binding undo pindexFork pindexOld) t t' ledger := by
  induction pindexOld generalizing t ledger
  case nil => exact ⟨t, rfl, hv, rfl, hl.symm, fun _ hx => hx⟩
  case cons b pprev hi =>
  rw [undoUpdates, rollback]
  split
  case isTrue he => exact ⟨t, rfl, hv, rfl, hl.symm, fun _ hx => hx⟩
  rename_i hne
  have ⟨hs, hfork, hprev, vtxundo, block, hun, hset, hd, hb, hacc⟩ := h.above hf hn hne
  have hacc : (⟨binding.coinsAt params pprev, fun _ => none⟩ : Ledger).AcceptsBlock ctx (b :: pprev)
      block vtxundo := hacc.alike hb.alike rfl
  have ⟨fClean, t1, hdis, hdone, _⟩ := @disconnectBlock_updates _ ctx block (b :: pprev) t ledger
    vtxundo (.of_accepts hacc hset.grounded) hprev (hu ▸ hun) hv hl
  have hblock : ctx.rollbackBlock (b :: pprev) t = .ok true t1 := by
    simp only [rollbackBlock, hd]
    rw [EStateM.bind_of_ok hdis]
    cases fClean <;> rfl
  have hus : disconnectAllUpdates (b :: pprev) (block.vtx.zip ([] :: vtxundo)) =
      disconnectAllUpdates (b :: pprev) ((binding.blockOf (b :: pprev)).vtx.zip
        ([] :: (undo (b :: pprev)).getD [])) := by
    rw [hun, Option.getD_some, disconnectAllUpdates_alike hb.alike]
  have ⟨t', hr, hrest⟩ := @hi t1 (ledger.disconnectBlock ctx (b :: pprev) block vtxundo)
    (h.suffix (suffix_cons b pprev)) (hdone.restored.undo.trans hu) hs
    (fun he => absurd he hfork) hdone.restored.coherent hdone.restored.coins.symm
  have hcoins : (ledger.disconnectBlock ctx (b :: pprev) block vtxundo).coins = _ :=
    disconnectAll_coins_updates
  rw [hus] at hcoins
  refine ⟨t', ?_, hrest.coherent, hrest.base.trans hdone.restored.base, ?_, fun hidx hx => ?_⟩
  · have hpos := @nHeight_pos (b :: pprev) hprev
    rw [if_pos hpos, EStateM.bind_of_ok hblock]
    exact hr
  · rw [hrest.coins, hcoins, coinUpdates_append, updateAll_append]
  have hbound := bound_of_acceptsAll hacc.all hset.known hb.outputs
  have hx' := hrest.index hidx (hdone.index binding.txOf hbound hx)
  have hrecords : (ledger.disconnectBlock ctx (b :: pprev) block vtxundo).records = _ :=
    disconnectAll_records_updates hidx
  rw [hus] at hrecords
  rw [hcoins, hrecords] at hx'
  rw [coinUpdates_append, recordUpdates_append, updateAll_append, updateAll_append]
  exact hx'

end

section

variable [Crypto] {ctx : ConnectContext} {undo : CBlockIndex → Option CBlockUndo}
  {binding : Binding} {params : Params} {base tip p : CBlockIndex} {t : ConnectState}

omit [Crypto] in
lemma forwardUpdates_append (ps ps') :
    forwardUpdates binding (ps ++ ps') = forwardUpdates binding ps ++ forwardUpdates binding ps' :=
  flatMap_append

omit [Crypto] in
lemma forwardUpdates_singleton :
    updateAll m (forwardUpdates binding [p]) = coinsAfter (nHeight p) (binding.blockOf p).vtx m := by
  rw [coinsAfter_updates, forwardUpdates, flatMap_singleton]

lemma coinsAt_forward (h : Archived ctx undo binding params tip) (hs : base <:+ tip)
    (hb : base ≠ []) :
    updateAll (binding.coinsAt params base)
      (forwardUpdates binding (ancestorsAbove tip (nHeight base))) = binding.coinsAt params tip := by
  induction tip
  case nil => exact absurd (suffix_nil.mp hs) hb
  case cons b pprev hi =>
  cases suffix_cons_iff.mp hs
  case inl he =>
    rw [he, ancestorsAbove_self]
    rfl
  rename_i hs
  have hprev := hs.ne_nil hb
  have ⟨_, _, _, hset, _⟩ := h.kept (b :: pprev) (suffix_refl _) hprev
  rw [ancestorsAbove_cons hs hb, forwardUpdates_append, updateAll_append,
    hi (h.suffix (suffix_cons b pprev)) hs, forwardUpdates_singleton,
    coinsAt_child (cons_ne_nil b pprev) hset.child]
  rfl

def Forwardable (ctx : ConnectContext) (binding : Binding) (p : CBlockIndex) : Prop :=
  ∃ block, ctx.readBlockFromDisk p = some block ∧ binding.Stands p block ∧
    ∀ tx ∈ block.vtx, ∀ out ∈ tx.vout, out.isNull = false

lemma Archived.forwardable (h : Archived ctx undo binding params tip) (hp : p <:+ tip)
    (hpar : p.tail ≠ []) : Forwardable ctx binding p := by
  have ⟨_, block, _, hset, hd, hb⟩ := h.kept p hp hpar
  refine ⟨block, hd, hb, fun tx' hm out ho => ?_⟩
  have ⟨tx, hm, ha⟩ := exists_alike hb.alike hm
  exact hset.outputs tx hm out (ha.outputs ▸ ho)

omit [Crypto] in
lemma rollforwardBlock_updates (h : Forwardable ctx binding p) (hv : t.view.Coherent) :
    ∃ t', ctx.rollforwardBlock p t = .ok true t' ∧ t'.addressIndex = t.addressIndex ∧
      Updates t.view t'.view (updateAll t.view.getCoin (forwardUpdates binding [p])) := by
  have ⟨block, hd, hb, ho⟩ := h
  have ⟨view', hr, hu⟩ := @CCoinsViewCache.Coherent.rollforward_updates _ (nHeight p) _ hv ho
  rw [coinsAfter_alike hb.alike, ← forwardUpdates_singleton] at hu
  refine ⟨{ t with view := view' }, ?_, rfl, hu⟩
  simp only [rollforwardBlock, hd, EStateM.bind_get, hr]
  rfl

omit [Crypto] in
lemma rollforwardAll_updates (h : ∀ p ∈ ps, Forwardable ctx binding p) (hv : t.view.Coherent) :
    ∃ t', ctx.rollforwardAll ps t = .ok true t' ∧ t'.addressIndex = t.addressIndex ∧
      Updates t.view t'.view (updateAll t.view.getCoin (forwardUpdates binding ps)) := by
  induction ps generalizing t
  case nil => exact ⟨t, rfl, rfl, .refl hv⟩
  case cons p ps hi =>
  have ⟨hp, hps⟩ := forall_mem_cons.mp h
  have ⟨t1, hr1, hx1, hu1⟩ := rollforwardBlock_updates hp hv
  have ⟨t2, hr2, hx2, hu2⟩ := hi hps hu1.coherent
  have hu := hu1.trans hu2
  rw [hu1.coins, ← updateAll_append, ← forwardUpdates_append] at hu
  refine ⟨t2, ?_, hx2.trans hx1, hu⟩
  rw [rollforwardAll, EStateM.bind_of_ok hr1]
  exact hr2

lemma Archived.ancestors (h : Archived ctx undo binding params tip) (hb : base ≠ []) :
    ∀ p ∈ ancestorsAbove tip (nHeight base), Forwardable ctx binding p := by
  intro p hp
  have ⟨i, hi, he⟩ := mem_map.mp hp
  have hi := mem_range.mp hi
  have hpos := length_pos_iff.mpr hb
  refine h.forwardable ?_ ?_
  · rw [← he, getAncestor]
    split
    · exact nil_suffix
    · exact drop_suffix _ _
  simp only [nHeight] at hi
  rw [← he, getAncestor, if_neg (by simp only [nHeight]; omega)]
  refine ne_nil_of_length_pos ?_
  rw [length_tail, length_drop]
  omega

end

section

variable [Crypto] {ctx : ConnectContext} {undo : CBlockIndex → Option CBlockUndo}
  {binding : Binding} {params : Params} {pindexNew pindexOld pindexFork base : CBlockIndex}
  {t : ConnectState} {records : COutPoint → Option CAddressValue}

-- What a replay leaves, from any mixture of the coins of the two tips.
structure Replayed (ctx : ConnectContext) (binding : Binding) (params : Params)
    (us : List (COutPoint × Option Coin × Option CAddressValue)) (pindexNew : CBlockIndex)
    (t t' : ConnectState) : Prop where
  coherent : t'.view.Coherent
  base : t'.view.base = t.view.base
  coins : t'.view.getCoin = binding.coinsAt params pindexNew
  best : t'.view.hashBlock = pindexNew.getBlockHash
  index : ctx.fAddressIndex → ∀ ledger, HoldsIndex binding.txOf t.addressIndex ledger →
    HoldsIndex binding.txOf t'.addressIndex
      { coins := updateAll ledger.coins (coinUpdates us)
        records := updateAll ledger.records (recordUpdates us) }

section

variable (hold : Archived ctx undo binding params pindexOld)
  (hnew : Archived ctx undo binding params pindexNew)
include hold hnew

lemma replayHeads_recovers (hu : t.undo = undo) (hf : pindexFork <:+ pindexOld)
    (hn : pindexFork = [] → pindexOld = []) (hs : base <:+ pindexNew) (hb : base ≠ [])
    (hh : nHeight pindexFork = nHeight base)
    (hat : binding.coinsAt params pindexFork = binding.coinsAt params base) (hv : t.view.Coherent)
    (hmix : ∀ out, t.view.getCoin out = binding.coinsAt params pindexOld out ∨
      t.view.getCoin out = binding.coinsAt params pindexNew out) :
    ∃ t', ctx.replayHeads pindexNew pindexOld pindexFork t = .ok true t' ∧
      Replayed ctx binding params (undoUpdates binding undo pindexFork pindexOld) pindexNew t t' := by
  have ⟨t1, hr1, hback⟩ := @rollback_updates _ ctx undo binding params pindexFork pindexOld t
    ⟨t.view.getCoin, fun _ => none⟩ hold hu hf hn hv rfl
  have ⟨t2, hr2, hx2, hup⟩ := rollforwardAll_updates (hnew.ancestors hb) hback.coherent
  have hcoins : t2.view.getCoin = binding.coinsAt params pindexNew := by
    rw [hup.coins, hback.coins]
    exact updateAll_mixed (undoUpdates_coinsAt hold hf hn) (hat ▸ coinsAt_forward hnew hs hb) hmix
  refine ⟨setBestBlock pindexNew.getBlockHash t2, ?_, ?_⟩
  · rw [replayHeads, EStateM.bind_of_ok hr1, hh]
    dsimp only
    rw [EStateM.bind_of_ok hr2]
    rfl
  constructor
  case coherent => exact hup.coherent.setBestBlock _
  case base => exact hup.base.trans hback.base
  case coins => exact hcoins
  case best => rfl
  case index =>
  intro hidx ledger hx
  have ⟨t3, hr3, hback'⟩ := @rollback_updates _ ctx undo binding params pindexFork pindexOld t
    ⟨t.view.getCoin, ledger.records⟩ hold hu hf hn hv rfl
  have he : t3 = t1 := by
    rw [hr1] at hr3
    cases hr3
    rfl
  have hx' := hback'.index hidx hx
  rw [he, ← hx2] at hx'
  exact hx'

lemma Archived.root_eq (ho : pindexOld ≠ []) (hn : pindexNew ≠ []) :
    ∃ g : CBlockIndex, g ≠ [] ∧ g <:+ pindexOld ∧ g <:+ pindexNew := by
  have hroot (l : CBlockIndex) (hl : l ≠ []) : [l.getLast hl] <:+ l :=
    ⟨l.dropLast, dropLast_append_getLast hl⟩
  have hso := hroot pindexOld ho
  have hsn := hroot pindexNew hn
  have heo := hold.root _ hso (cons_ne_nil _ _) rfl
  have hen := hnew.root _ hsn (cons_ne_nil _ _) rfl
  have hfo := (hold.found _ hso (cons_ne_nil _ _)).2
  have hfn := (hnew.found _ hsn (cons_ne_nil _ _)).2
  refine ⟨[pindexOld.getLast ho], cons_ne_nil _ _, hso, ?_⟩
  rw [← hfo, heo, ← hen, hfn]
  exact hsn

end

omit [Crypto] in
lemma lastCommonAncestor_nil : lastCommonAncestor ([] : CBlockIndex) pindexNew = [] := by
  have hl (l : CBlockIndex) : lastCommon [] l = [] := by cases l <;> rfl
  rw [lastCommonAncestor]
  split
  case isTrue h => simp [nHeight] at h
  split
  · exact hl _
  · exact hl _

section

variable (hold : Archived ctx undo binding params pindexOld)
  (hnew : Archived ctx undo binding params pindexNew) (hn : pindexNew ≠ [])
include hold hnew hn

lemma lastCommonAncestor_fork :
    lastCommonAncestor pindexOld pindexNew <:+ pindexOld ∧
    lastCommonAncestor pindexOld pindexNew <:+ pindexNew ∧
    (lastCommonAncestor pindexOld pindexNew = [] → pindexOld = []) := by
  by_cases ho : pindexOld = []
  · rw [ho, lastCommonAncestor_nil]
    exact ⟨nil_suffix, nil_suffix, fun _ => rfl⟩
  have ⟨hso, hsn, hall⟩ := @lastCommonAncestor_suffix _ _ pindexOld pindexNew ho hn
  have ⟨g, hg, hgo, hgn⟩ := hold.root_eq hnew ho hn
  exact ⟨hso, hsn, fun he => absurd (suffix_nil.mp (he ▸ hall g hgo hgn)) hg⟩

lemma replayFrom_recovers (hu : t.undo = undo) (hv : t.view.Coherent)
    (hmix : ∀ out, t.view.getCoin out = binding.coinsAt params pindexOld out ∨
      t.view.getCoin out = binding.coinsAt params pindexNew out) :
    ∃ t', ctx.replayFrom pindexNew.getBlockHash pindexOld.getBlockHash t = .ok true t' ∧
      Replayed ctx binding params (undoUpdates binding undo (lastCommonAncestor pindexOld pindexNew)
        pindexOld) pindexNew t t' := by
  have ⟨_, hfn⟩ := hnew.found _ (suffix_refl _) hn
  by_cases ho : pindexOld = []
  case pos =>
    -- The first flush: what is below the first block is the genesis block.
    have hs : [pindexNew.getLast hn] <:+ pindexNew :=
      ⟨pindexNew.dropLast, dropLast_append_getLast hn⟩
    have hg := hnew.root _ hs (cons_ne_nil _ _) rfl
    have ⟨t', hr, hdone⟩ := @replayHeads_recovers _ ctx undo binding params pindexNew [] []
      [pindexNew.getLast hn] t (ho ▸ hold) hnew hu (suffix_refl _) (fun _ => rfl) hs
      (cons_ne_nil _ _) rfl (coinsAt_genesis hg).symm hv (ho ▸ hmix)
    refine ⟨t', ?_, ?_⟩
    · simp only [replayFrom, hfn, ho]
      have hz : CBlockIndex.getBlockHash [] = 0 := rfl
      rw [if_neg hn, if_pos hz]
      exact hr
    rw [ho, lastCommonAncestor_nil]
    exact hdone
  case neg =>
  have ⟨hzo, hfo⟩ := hold.found _ (suffix_refl _) ho
  have ⟨hso, hsn, hnil⟩ := lastCommonAncestor_fork hold hnew hn
  have hne := mt hnil ho
  have ⟨t', hr, hdone⟩ := replayHeads_recovers hold hnew hu hso hnil hsn hne rfl rfl hv hmix
  refine ⟨t', ?_, hdone⟩
  simp only [replayFrom, hfn, hfo]
  rw [if_neg hn, if_neg hzo, if_neg ho]
  simp only [hne, decide_false, Check.rejectIf, Bool.false_eq_true, if_false]
  exact hr

end

-- A database in the middle of the change from one tip to another one.
structure CCoinsViewDB.Interrupted (db : CCoinsViewDB) (binding : Binding) (params : Params)
    (pindexNew pindexOld : CBlockIndex) : Prop where
  coins : ∀ out, db.coins out = binding.coinsAt params pindexOld out ∨
    db.coins out = binding.coinsAt params pindexNew out
  best : db.bestBlock = none
  heads : db.headBlocks = some [pindexNew.getBlockHash, pindexOld.getBlockHash]

variable {db : CCoinsViewDB} {s : ConnectState} {view : CCoinsViewCache}

lemma Archived.facts (h : Archived ctx undo binding params pindexNew) :
    Grounded (binding.coinsAt params pindexNew) ∧
      Known binding.txOf (binding.coinsAt params pindexNew) := by
  cases pindexNew
  case nil => exact ⟨nofun, nofun⟩
  case cons b pprev =>
  by_cases hp : pprev = []
  · have hg := h.root (b :: pprev) (suffix_refl _) (cons_ne_nil _ _) hp
    rw [coinsAt_genesis hg, tail_cons, hp]
    exact ⟨nofun, nofun⟩
  have ⟨_, _, _, hset, _⟩ := h.kept (b :: pprev) (suffix_refl _) hp
  have hacc := hset.accepts ctx ⟨binding.coinsAt params pprev, fun _ => none⟩ rfl
  have hcoins : (Ledger.connectAll ctx (b :: pprev) (binding.blockOf (b :: pprev)).vtx
      ⟨binding.coinsAt params pprev, fun _ => none⟩).coins =
        binding.coinsAt params (b :: pprev) := by
    rw [connectAll_coins, coinsAt_child (cons_ne_nil _ _) hset.child]
    rfl
  have hk := hset.known
  rw [← hcoins]
  exact ⟨hacc.grounded hset.grounded, hk.connectAll (binding.outputs _)⟩

omit [Crypto] in
lemma unspent_of_grounded (h : ∀ out, db.coins out = m out ∨ db.coins out = m' out)
    (hg : Grounded m) (hg' : Grounded m') : db.toView.unspent = db.coins := by
  funext out
  have hs coin (hc : db.coins out = some coin) : coin.isSpent = false := by
    cases h out
    case inl he => exact (hg out coin (he ▸ hc)).unspent
    case inr he => exact (hg' out coin (he ▸ hc)).unspent
  cases hc : db.coins out
  case none => simp [CCoinsView.unspent, CCoinsViewDB.toView, hc]
  case some coin => simp [CCoinsView.unspent, CCoinsViewDB.toView, hc, Option.filter, hs coin hc]

omit [Crypto] in
lemma overlaid_view (enumeration : Enumeration) (hb : view.base = db.toView) (hv : view.Coherent)
    (hu : db.toView.unspent = db.coins) :
    overlaid db.coins (enumeration.entries view) = view.getCoin := by
  have hlayer : view.layer.onto db.toView = view := by
    rw [← hb]
    rfl
  have hent := (enumeration.visits view.layer).overlaid_entries (hlayer ▸ hv)
  rwa [hu, hlayer] at hent

lemma replayBlocks_interrupted (enumeration) (overLimit : CDBBatch → Bool)
    (hold : Archived ctx s.undo binding params pindexOld)
    (hnew : Archived ctx s.undo binding params pindexNew) (hn : pindexNew ≠ [])
    (hdb : db.Interrupted binding params pindexNew pindexOld) :
    ∃ db' s', ctx.replayBlocks enumeration overLimit db s = .ok (true, db') s' ∧
      db'.coins = binding.coinsAt params pindexNew ∧
      db'.bestBlock = some pindexNew.getBlockHash ∧ db'.headBlocks = none ∧
      (ctx.fAddressIndex → ∀ ledger, HoldsIndex binding.txOf s.addressIndex ledger →
        HoldsIndex binding.txOf s'.addressIndex
          { coins := updateAll ledger.coins (coinUpdates (undoUpdates binding s.undo
              (lastCommonAncestor pindexOld pindexNew) pindexOld))
            records := updateAll ledger.records (recordUpdates (undoUpdates binding s.undo
              (lastCommonAncestor pindexOld pindexNew) pindexOld)) }) := by
  have hun := unspent_of_grounded hdb.coins hold.facts.1 hnew.facts.1
  have hover : (CCoinsViewCache.onto db.toView).getCoin = db.coins := by
    rw [← hun]
    funext out
    exact getCoin_uncached (Finmap.lookup_empty out)
  have ⟨t, hr, hdone⟩ := @replayFrom_recovers _ ctx s.undo binding params pindexNew pindexOld
    { s with view := .onto db.toView } hold hnew hn rfl (over_coherent _) (hover ▸ hdb.coins)
  have hz := (hnew.found _ (suffix_refl _) hn).1
  have htip : db.oldTip t.view.hashBlock = .ok pindexOld.getBlockHash := by
    simp [CCoinsViewDB.oldTip, CCoinsViewDB.getBestBlock, CCoinsViewDB.getHeadBlocks, hdb.best,
      hdb.heads, hdone.best]
  have ⟨batches, hw⟩ := @CCoinsViewDB.batchWrite_succeeds db (enumeration.entries t.view)
    t.view.hashBlock overLimit _ (hdone.best ▸ hz) htip
  have ⟨hc, hb, hh⟩ := CCoinsViewDB.batchWrite_all hw
  refine ⟨db.writeBatches batches, t, ?_, ?_, hdone.best ▸ hb, hh, hdone.index⟩
  · have hheads : db.getHeadBlocks = [pindexNew.getBlockHash, pindexOld.getBlockHash] := by
      rw [CCoinsViewDB.getHeadBlocks, hdb.heads]
      rfl
    have hset : Connect.setView (.onto db.toView) s = .ok () { s with view := .onto db.toView } := rfl
    rw [replayBlocks, EStateM.bind_of_ok hset]
    simp only [hheads]
    rw [EStateM.bind_of_ok hr]
    simp only [EStateM.bind_get, hw]
    rfl
  · rw [hc, overlaid_view enumeration hdone.base hdone.coherent hun, hdone.coins]

lemma replayBlocks_done (h : db.headBlocks = none) (enumeration overLimit) :
    ∃ s', ctx.replayBlocks enumeration overLimit db s = .ok (true, db) s' := by
  refine ⟨{ s with view := .onto db.toView }, ?_⟩
  have hset : Connect.setView (.onto db.toView) s = .ok () { s with view := .onto db.toView } := rfl
  rw [replayBlocks, EStateM.bind_of_ok hset]
  simp only [getHeadBlocks, h]
  rfl

-- A database at one tip, and a cache above it that is at another one.
structure Flushable (db : CCoinsViewDB) (view : CCoinsViewCache) (binding : Binding) (params : Params)
    (pindexNew pindexOld : CBlockIndex) : Prop where
  coins : db.coins = binding.coinsAt params pindexOld
  best : db.getBestBlock = pindexOld.getBlockHash
  heads : db.headBlocks = none
  coherent : view.Coherent
  base : view.base = db.toView
  cached : view.getCoin = binding.coinsAt params pindexNew
  hash : view.hashBlock = pindexNew.getBlockHash

section

variable (h : Flushable db view binding params pindexNew pindexOld)
  (hold : Archived ctx undo binding params pindexOld)
include h hold

lemma Flushable.unspent : db.toView.unspent = db.coins :=
  unspent_of_grounded (fun out => .inl (congrFun h.coins out)) hold.facts.1 hold.facts.1

lemma Flushable.overlaid_entries (enumeration : Enumeration) :
    overlaid db.coins (enumeration.entries view) = binding.coinsAt params pindexNew :=
  (overlaid_view enumeration h.base h.coherent (h.unspent hold)).trans h.cached

lemma Flushable.interrupted {enumeration : Enumeration}
    (hw : db.batchWrite overLimit (enumeration.entries view) view.hashBlock = .ok batches)
    (hk : k ≠ 0) (hl : k < batches.length) :
    (db.writeBatches (batches.take k)).Interrupted binding params pindexNew pindexOld := by
  have ⟨first, old_tip, hp, ho, hc, hb, hh⟩ := batchWrite_interrupted hw hk hl
  have htip : old_tip = pindexOld.getBlockHash := by
    simp only [oldTip, getHeadBlocks, h.heads, h.best, Option.getD_none, ite_self] at ho
    cases ho
    rfl
  refine ⟨fun out => ?_, hb, by rw [hh, htip, h.hash]⟩
  have hmix := @overlaid_mixed _ _ db.coins (enumeration.visits view.layer).entries_nodup hp out
  rw [hc, ← h.coins, ← h.overlaid_entries hold enumeration]
  exact hmix

end

-- However many batches are written, the database ends at the new tip, or else the old one.
theorem replayBlocks_crash (hold : Archived ctx s.undo binding params pindexOld)
    (hnew : Archived ctx s.undo binding params pindexNew) (hn : pindexNew ≠ [])
    (h : Flushable db view binding params pindexNew pindexOld) (enumeration enumeration' : Enumeration)
    (overLimit overLimit' : CDBBatch → Bool) :
    ∃ batches, db.batchWrite overLimit (enumeration.entries view) view.hashBlock = .ok batches ∧
      ∀ k, ∃ db' s', ctx.replayBlocks enumeration' overLimit' (db.writeBatches (batches.take k)) s =
          .ok (true, db') s' ∧
        if k = 0 then db' = db
        else db'.coins = binding.coinsAt params pindexNew ∧
          db'.getBestBlock = pindexNew.getBlockHash ∧ db'.getHeadBlocks = [] := by
  have hz := (hnew.found _ (suffix_refl _) hn).1
  have htip : db.oldTip view.hashBlock = .ok pindexOld.getBlockHash := by
    simp [CCoinsViewDB.oldTip, CCoinsViewDB.getHeadBlocks, h.heads, h.best]
  have ⟨batches, hw⟩ := @CCoinsViewDB.batchWrite_succeeds db (enumeration.entries view) view.hashBlock
    overLimit _ (h.hash ▸ hz) htip
  refine ⟨batches, hw, fun k => ?_⟩
  by_cases hk : k = 0
  · have ⟨s', hr⟩ := @replayBlocks_done _ ctx db s h.heads enumeration' overLimit'
    exact ⟨db, s', by rw [hk]; exact hr, by rw [if_pos hk]⟩
  simp only [if_neg hk]
  by_cases hl : k < batches.length
  · have ⟨db', s', hr, hc, hb, hh, _⟩ := replayBlocks_interrupted enumeration' overLimit' hold hnew hn
      (h.interrupted hold hw hk hl)
    exact ⟨db', s', hr, hc, by rw [CCoinsViewDB.getBestBlock, hb]; rfl,
      by rw [CCoinsViewDB.getHeadBlocks, hh]; rfl⟩
  have ⟨hc, hb, hh⟩ := CCoinsViewDB.batchWrite_all hw
  rw [take_of_length_le (Nat.le_of_not_lt hl)]
  have ⟨s', hr⟩ := @replayBlocks_done _ ctx (db.writeBatches batches) s hh enumeration' overLimit'
  exact ⟨_, s', hr, hc.trans (h.overlaid_entries hold enumeration),
    by rw [CCoinsViewDB.getBestBlock, hb, h.hash]; rfl, by rw [CCoinsViewDB.getHeadBlocks, hh]; rfl⟩

-- An outpoint that a block of one branch creates or spends.
def Touched (binding : Binding) (pindexFork pindexOld : CBlockIndex) (out : COutPoint) : Prop :=
  ∃ p : CBlockIndex, p <:+ pindexOld ∧ pindexFork.length < p.length ∧
    ∃ tx ∈ (binding.blockOf p).vtx, out ∈ tx.prevouts ∨ out ∈ (tx.coins (nHeight p)).map Prod.fst

omit [Crypto] in
lemma keys_disconnectUpdates {ledger : Ledger} (h : ledger.Accepts p tx vprevout) :
    out ∈ (disconnectUpdates p tx vprevout).map Prod.fst ↔
      out ∈ tx.prevouts ∨ out ∈ (tx.coins (nHeight p)).map Prod.fst := by
  have hk : (disconnectUpdates p tx vprevout).map Prod.fst =
      (tx.coins (nHeight p)).map Prod.fst ++ tx.prevouts.reverse := by
    rw [← h.map_fst_zip, ← map_reverse]
    simp [disconnectUpdates, comp_def]
  rw [hk, mem_append, mem_reverse, or_comm]

lemma keys_disconnectAllUpdates {ledger : Ledger} (h : ledger.AcceptsAll ctx p vtx vtxundo) :
    out ∈ (disconnectAllUpdates p (vtx.zip vtxundo)).map Prod.fst ↔
      ∃ tx ∈ vtx, out ∈ tx.prevouts ∨ out ∈ (tx.coins (nHeight p)).map Prod.fst := by
  induction h
  case nil => simp [disconnectAllUpdates]
  case cons head _ hi =>
  rw [zip_cons_cons, disconnectAllUpdates, map_append, mem_append, hi,
    keys_disconnectUpdates head, exists_mem_cons_iff, or_comm]

lemma keys_undoUpdates (h : Archived ctx undo binding params pindexOld)
    (hf : pindexFork <:+ pindexOld) (hn : pindexFork = [] → pindexOld = []) :
    out ∈ (undoUpdates binding undo pindexFork pindexOld).map Prod.fst ↔
      Touched binding pindexFork pindexOld out := by
  induction pindexOld
  case nil =>
    refine ⟨nofun, fun ⟨p, hp, hl, _⟩ => ?_⟩
    rw [suffix_nil.mp hp] at hl
    nomatch hl
  case cons b pprev hi =>
  rw [undoUpdates]
  split
  case isTrue he =>
    refine ⟨nofun, fun ⟨p, hp, hl, _⟩ => ?_⟩
    have hle := hp.length_le
    rw [he] at hle
    omega
  rename_i hne
  have ⟨hs, hfork, _, vtxundo, _, hu, hset, _, _, hacc⟩ := h.above hf hn hne
  have htail := hi (h.suffix (suffix_cons b pprev)) hs fun he => absurd he hfork
  rw [map_append, mem_append, hu, Option.getD_some, keys_disconnectAllUpdates hacc.all, htail]
  constructor
  · intro ho
    cases ho
    case inl ho =>
      exact ⟨b :: pprev, suffix_refl _, Nat.lt_succ_of_le hs.length_le, ho⟩
    case inr ho =>
    have ⟨p, hp, hl, ho⟩ := ho
    exact ⟨p, hp.trans (suffix_cons b pprev), hl, ho⟩
  intro ⟨p, hp, hl, ho⟩
  cases suffix_cons_iff.mp hp
  case inl he => exact .inl (he ▸ ho)
  case inr hp => exact .inr ⟨p, hp, hl, ho⟩

omit [Crypto] in
lemma disconnectAllUpdates_match (h : ∀ p ∈ txs, ∀ coin ∈ p.2, 0 < coin.nHeight) :
    ∀ u ∈ disconnectAllUpdates pindexOld txs,
      u.2.2.filter (·.spend_height = 0) = u.2.1.map Coin.entry := by
  induction txs
  case nil => exact fun _ hm => nomatch hm
  case cons p txs hi =>
  have ⟨hp, hps⟩ := forall_mem_cons.mp h
  intro u hm
  cases mem_append.mp hm
  case inl hm => exact hi hps u hm
  case inr hm => exact disconnectUpdates_match hp u hm

lemma undoUpdates_match (h : Archived ctx undo binding params pindexOld)
    (hf : pindexFork <:+ pindexOld) (hn : pindexFork = [] → pindexOld = []) :
    ∀ u ∈ undoUpdates binding undo pindexFork pindexOld,
      u.2.2.filter (·.spend_height = 0) = u.2.1.map Coin.entry := by
  induction pindexOld
  case nil => exact fun _ hm => nomatch hm
  case cons b pprev hi =>
  rw [undoUpdates]
  split
  · exact fun _ hm => nomatch hm
  rename_i hne
  have ⟨hs, hfork, _, vtxundo, _, hu, hset, _, _, hacc⟩ := h.above hf hn hne
  intro u hm
  rw [hu, Option.getD_some] at hm
  cases mem_append.mp hm
  case inr hm =>
    exact hi (h.suffix (suffix_cons b pprev)) hs (fun he => absurd he hfork) u hm
  case inl hm =>
  have hfits := BlockUndoable.of_accepts hacc hset.grounded
  exact disconnectAllUpdates_match hfits.heights u hm

omit [Crypto] in
lemma Known.eq_of_entry {txOf : Uint256 → CTransaction} (h : Known txOf m) (h' : Known txOf m')
    (he : (m out).map Coin.entry = (m' out).map Coin.entry) : m out = m' out := by
  cases hm : m out
  case none =>
    rw [hm] at he
    exact (Option.map_eq_none_iff.mp he.symm).symm
  rename_i coin
  rw [hm] at he
  have ⟨coin', hm', he⟩ := Option.map_eq_some_iff.mp he.symm
  have ho : some coin'.out = some coin.out := (h' out coin' hm').symm.trans (h out coin hm)
  have hh : coin'.nHeight = coin.nHeight := congrArg CAddressValue.height he
  have hc : coin'.fCoinBase = coin.fCoinBase := congrArg CAddressValue.iscoinbase he
  cases coin
  cases coin'
  simp_all

section

variable (hold : Archived ctx undo binding params pindexOld) (hf : pindexFork <:+ pindexOld)
  (hn : pindexFork = [] → pindexOld = [])
include hold hf hn

lemma undone_touched (ht : Touched binding pindexFork pindexOld out) (m) :
    updateAll m (coinUpdates (undoUpdates binding undo pindexFork pindexOld)) out =
      binding.coinsAt params pindexFork out := by
  rw [← undoUpdates_coinsAt hold hf hn]
  refine updateAll_congr_mem ?_
  rw [coinUpdates, map_map]
  exact (keys_undoUpdates hold hf hn).mpr ht

lemma undone_eq_iff (m) :
    updateAll m (coinUpdates (undoUpdates binding undo pindexFork pindexOld)) = m ↔
      ∀ out, Touched binding pindexFork pindexOld out → m out = binding.coinsAt params pindexFork out := by
  constructor
  · exact fun he out ht => (congrFun he out).symm.trans (undone_touched hold hf hn ht m)
  intro h
  funext out
  by_cases ht : Touched binding pindexFork pindexOld out
  · rw [undone_touched hold hf hn ht, h out ht]
  refine updateAll_not_mem fun hk => ht ?_
  rw [coinUpdates, map_map] at hk
  exact (keys_undoUpdates hold hf hn).mp hk

end

-- An index that reflected one tip agrees with it after the blocks of another branch have been undone
-- in it, if and only if what they touch is the same at the tip and at the fork.
lemma read_undone_iff {index : CAddressIndexDB} {ledger : Ledger}
    (hold : Archived ctx undo binding params pindexOld)
    (hnew : Archived ctx undo binding params pindexNew) (hf : pindexFork <:+ pindexOld)
    (hs : pindexFork <:+ pindexNew) (hn : pindexFork = [] → pindexOld = [])
    (hl : ledger.coins = binding.coinsAt params pindexNew) (hm : ledger.Matches)
    (hx : HoldsIndex binding.txOf index
      { coins := updateAll ledger.coins
          (coinUpdates (undoUpdates binding undo pindexFork pindexOld))
        records := updateAll ledger.records
          (recordUpdates (undoUpdates binding undo pindexFork pindexOld)) }) :
    (∀ script out, (index.read script out).filter (·.spend_height = 0) =
      ((binding.coinsAt params pindexNew out).filter
        (addressScript ·.out.scriptPubKey = script)).map Coin.entry) ↔
    ∀ out, Touched binding pindexFork pindexOld out →
      binding.coinsAt params pindexNew out = binding.coinsAt params pindexFork out := by
  have hmatch := hm.updateAll _ (undoUpdates_match hold hf hn)
  have ⟨_, hknown⟩ := hnew.facts
  have ⟨_, hknown'⟩ := (hnew.suffix hs).facts
  have hfile out coin (hc : binding.coinsAt params pindexNew out = some coin) :
      addressScript coin.out.scriptPubKey = fileOf binding.txOf out := fileOf_eq (hknown out coin hc)
  have hread script out : (index.read script out).filter (·.spend_height = 0) =
      if script = fileOf binding.txOf out then
        (updateAll ledger.coins (coinUpdates (undoUpdates binding undo pindexFork pindexOld)) out).map
          Coin.entry
      else none := by
    rw [hx.1.read]
    split
    · rw [hx.2]; exact hmatch out
    · rfl
  constructor
  · intro h out ht
    have ho := h (fileOf binding.txOf out) out
    rw [hread, if_pos rfl, undone_touched hold hf hn ht] at ho
    refine Known.eq_of_entry hknown hknown' ?_
    rw [ho]
    cases hc : binding.coinsAt params pindexNew out
    case none => rfl
    case some coin => simp [Option.filter, hfile out coin hc]
  intro h script out
  rw [hread, hl, (undone_eq_iff hold hf hn _).mpr h]
  cases hc : binding.coinsAt params pindexNew out
  case none => simp
  rename_i coin
  by_cases hsc : script = fileOf binding.txOf out
  · simp [Option.filter, hfile out coin hc, hsc]
  · simp [Option.filter, hfile out coin hc, hsc, Ne.symm hsc]

-- When the address index agrees with the new tip after a replay.
theorem replayBlocks_read_unspent_iff (hold : Archived ctx s.undo binding params pindexOld)
    (hnew : Archived ctx s.undo binding params pindexNew) (hn : pindexNew ≠ [])
    (hdb : db.Interrupted binding params pindexNew pindexOld) (hi : ctx.fAddressIndex)
    {ledger : Ledger} (hl : ledger.coins = binding.coinsAt params pindexNew)
    (hx : HoldsIndex binding.txOf s.addressIndex ledger) (hm : ledger.Matches)
    (enumeration : Enumeration) (overLimit : CDBBatch → Bool) :
    ∃ db' s', ctx.replayBlocks enumeration overLimit db s = .ok (true, db') s' ∧
      ((∀ script out, (s'.addressIndex.read script out).filter (·.spend_height = 0) =
        ((db'.coins out).filter (addressScript ·.out.scriptPubKey = script)).map Coin.entry) ↔
      ∀ out, Touched binding (lastCommonAncestor pindexOld pindexNew) pindexOld out →
        binding.coinsAt params pindexNew out =
          binding.coinsAt params (lastCommonAncestor pindexOld pindexNew) out) := by
  have ⟨db', s', hr, hc, _, _, hidx⟩ :=
    replayBlocks_interrupted enumeration overLimit hold hnew hn hdb
  have ⟨hso, hsn, hne⟩ := lastCommonAncestor_fork hold hnew hn
  refine ⟨db', s', hr, ?_⟩
  rw [hc]
  exact read_undone_iff hold hnew hso hsn hne hl hm (hidx hi ledger hx)

end

section

def siblingEntry (hash : Uint256) : CBlockIndex :=
  { hash := hash, nVersion := 1, hashMerkleRoot := 7, nTime := 1500000000, nBits := 0x1e0ffff0
    nNonce := 0, fProofOfStake := false } :: genesisEntry

def siblingContext : ConnectContext :=
  { firstContext with
    readBlockFromDisk := fun _ => some firstBlock
    lookupBlockIndex := fun hash => if hash = 1 ∨ hash = 2 then siblingEntry hash else genesisEntry }

def minerOutPoint : COutPoint where
  hash := 7
  n := 0

def minerCoin : Coin where
  out := { nValue := 5, scriptPubKey := [OP_1] }
  nHeight := 1
  fCoinBase := true

def siblingState : ConnectState :=
  { emptyState with
    undo := fun _ => some []
    addressIndex :=
      { cache := ∅
        db := fun key =>
          if key = { script := @fileOf chainHashes firstBinding.txOf minerOutPoint, out := minerOutPoint }
          then some minerCoin.entry else none } }

variable {hash : Uint256}

lemma coinsAt_genesisEntry : firstBinding.coinsAt testNet genesisEntry = fun _ => none :=
  coinsAt_genesis rfl

lemma minerCoinbase_coins : minerCoinbase.coins 1 = [(minerOutPoint, minerCoin)] := by
  decide +kernel

lemma siblingEntry_settled (hash) (hc : hash ≠ testNet.hashGenesisBlock) :
    @Settled chainHashes firstBinding testNet (siblingEntry hash) [] := by
  refine @Settled.mk chainHashes _ _ _ _ (cons_ne_nil _ _) hc (fun ctx ledger hl => ?_) ?_ ?_ ?_
  · have hp : minerCoinbase.prevouts = [] := by decide +kernel
    refine @AcceptsBlock.mk chainHashes _ _ _ _ _ Nat.one_pos ⟨minerCoinbase, [], rfl, rfl, nofun⟩ ?_
    refine @AcceptsAll.cons chainHashes _ _ _ _ _ _ _ ⟨?_, ?_, ?_, ?_⟩ (@AcceptsAll.nil chainHashes _ _ _)
    · rw [hp]; exact .nil
    · rw [hp]; exact nodup_nil
    · exact fun kv _ => by rw [hp, hl]; exact congrFun coinsAt_genesisEntry kv.1
    have hh : nHeight (siblingEntry hash) = 1 := rfl
    rw [hh, minerCoinbase_coins]
    decide
  · exact fun out coin h => nomatch (congrFun coinsAt_genesisEntry out).symm.trans h
  · exact fun out coin h => nomatch (congrFun coinsAt_genesisEntry out).symm.trans h
  intro tx hm out ho
  cases mem_singleton.mp hm
  cases mem_singleton.mp ho
  rfl

lemma suffix_siblingEntry (h : p <:+ siblingEntry hash) :
    p = siblingEntry hash ∨ p = genesisEntry ∨ p = [] := by
  cases suffix_cons_iff.mp h
  case inl he => exact .inl he
  rename_i h
  cases suffix_cons_iff.mp h
  case inl he => exact .inr (.inl he)
  case inr h => exact .inr (.inr (suffix_nil.mp h))

lemma siblingEntry_archived (h : hash = 1 ∨ hash = 2) :
    @Archived chainHashes siblingContext siblingState.undo firstBinding testNet
      (siblingEntry hash) := by
  have ⟨hz, hc⟩ : hash ≠ 0 ∧ hash ≠ testNet.hashGenesisBlock := by
    cases h
    case inl h => rw [h]; decide
    case inr h => rw [h]; decide
  have hgen : testNet.hashGenesisBlock ≠ 0 ∧
      siblingContext.lookupBlockIndex testNet.hashGenesisBlock = genesisEntry := by
    have hn : ¬(testNet.hashGenesisBlock = 1 ∨ testNet.hashGenesisBlock = 2) := by decide
    exact ⟨by decide, by simp [siblingContext, if_neg hn]⟩
  refine @Archived.mk chainHashes _ _ _ _ _ (fun p hp hne ht => ?_) (fun p hp hne => ?_)
    fun p hp hpar => ?_
  · rcases suffix_siblingEntry hp with rfl | rfl | rfl
    case inl => nomatch ht
    case inr.inl => rfl
    case inr.inr => exact absurd rfl hne
  · rcases suffix_siblingEntry hp with rfl | rfl | rfl
    case inl => exact ⟨hz, if_pos h⟩
    case inr.inl => exact hgen
    case inr.inr => exact absurd rfl hne
  rcases suffix_siblingEntry hp with rfl | rfl | rfl
  case inl => exact ⟨[], firstBlock, rfl, siblingEntry_settled hash hc, rfl, firstBlock_stands⟩
  case inr.inl => exact absurd rfl hpar
  case inr.inr => exact absurd rfl hpar

lemma coinsAt_siblingEntry (hc : hash ≠ testNet.hashGenesisBlock) :
    firstBinding.coinsAt testNet (siblingEntry hash) =
      update (fun _ => none) minerOutPoint (some minerCoin) := by
  have hh : nHeight (siblingEntry hash) = 1 := rfl
  have hp : minerCoinbase.prevouts = [] := by decide +kernel
  have hb : (firstBinding.blockOf (siblingEntry hash)).vtx = [minerCoinbase] := rfl
  have ht : tail (siblingEntry hash) = genesisEntry := rfl
  have hat : firstBinding.coinsAt testNet (siblingEntry hash) = _ :=
    coinsAt_child (cons_ne_nil _ _) hc
  rw [hat, hh, hb, ht, coinsAt_genesisEntry]
  rfl

def genesisDB : CCoinsViewDB where
  coins _ := none
  finite := finite_none
  bestBlock := some testNet.hashGenesisBlock
  headBlocks := none

def firstView : CCoinsViewCache :=
  ((CCoinsViewCache.onto genesisDB.toView).setEntry minerOutPoint
    { coin := minerCoin, dirty := true, fresh := true }).setBestBlock 1

lemma firstView_flushable :
    Flushable genesisDB firstView firstBinding testNet (siblingEntry 1) genesisEntry := by
  have hbase : (CCoinsViewCache.onto genesisDB.toView).getCoin = fun _ => none := by
    funext out
    exact getCoin_uncached (Finmap.lookup_empty out)
  have hup := (over_coherent genesisDB.toView).setEntry_updates (o := minerOutPoint)
    (e := { coin := minerCoin, dirty := true, fresh := true }) (fun _ => rfl) nofun
  constructor
  case coins => exact coinsAt_genesisEntry.symm
  case best => rfl
  case heads => rfl
  case coherent => exact hup.coherent.setBestBlock 1
  case base => rfl
  case cached =>
    exact hup.coins
  case hash => rfl

theorem replayBlocks_crash_first :
    ∃ batches, genesisDB.batchWrite (fun _ => true) (someEnumeration.entries firstView)
        firstView.hashBlock = .ok batches ∧
      ∀ k, ∃ db' s', @replayBlocks chainHashes siblingContext someEnumeration (fun _ => true)
          (genesisDB.writeBatches (batches.take k)) siblingState = .ok (true, db') s' ∧
        if k = 0 then db' = genesisDB
        else db'.coins = firstBinding.coinsAt testNet (siblingEntry 1) ∧
          db'.getBestBlock = CBlockIndex.getBlockHash (siblingEntry 1) ∧ db'.getHeadBlocks = [] :=
  have h := siblingEntry_archived (.inl rfl)
  @replayBlocks_crash chainHashes _ _ _ _ _ _ _ _
    (@Archived.suffix chainHashes _ _ _ _ _ _ h (suffix_cons _ _)) h (cons_ne_nil _ _)
    firstView_flushable _ _ _ _

-- A change from one of the two blocks to the other one that was interrupted.

def siblingDB : CCoinsViewDB where
  coins := update (fun _ => none) minerOutPoint (some minerCoin)
  finite := update_finite finite_none _ _
  bestBlock := none
  headBlocks := some [2, 1]

lemma siblingDB_interrupted : siblingDB.Interrupted firstBinding testNet (siblingEntry 2)
    (siblingEntry 1) where
  coins _ := .inl (by rw [coinsAt_siblingEntry (by decide)]; rfl)
  best := rfl
  heads := rfl

def siblingLedger : Ledger where
  coins := firstBinding.coinsAt testNet (siblingEntry 2)
  records := fun out => if out = minerOutPoint then some minerCoin.entry else none

lemma siblingLedger_matches : siblingLedger.Matches := by
  intro out
  simp only [siblingLedger]
  rw [coinsAt_siblingEntry (by decide)]
  by_cases ho : out = minerOutPoint
  · simp [ho, Coin.entry, Option.filter]
  · simp [ho]

lemma siblingState_index :
    @HoldsIndex chainHashes firstBinding.txOf siblingState.addressIndex siblingLedger := by
  refine ⟨⟨fun hc => by simp [siblingState] at hc, fun {key _} hd => ?_⟩, ?_⟩
  · simp only [siblingState] at hd
    split at hd
    case isTrue hk => rw [hk]
    · nomatch hd
  funext out
  have hn : siblingState.addressIndex.cache.lookup out = none := by simp [siblingState]
  rw [CAddressIndexDB.record, read_uncached hn]
  by_cases ho : out = minerOutPoint
  · simp [siblingState, siblingLedger, ho]
  · simp [siblingState, siblingLedger, ho]

lemma lastCommonAncestor_siblings :
    lastCommonAncestor (siblingEntry 1) (siblingEntry 2) = genesisEntry := by
  decide +kernel

theorem replayBlocks_read_unspent_iff_siblings :
    ∃ db' s', @replayBlocks chainHashes siblingContext someEnumeration (fun _ => true) siblingDB
        siblingState = .ok (true, db') s' ∧
      ((∀ script out, (s'.addressIndex.read script out).filter (·.spend_height = 0) =
        ((db'.coins out).filter
          (@addressScript chainHashes ·.out.scriptPubKey = script)).map Coin.entry) ↔
      ∀ out, Touched firstBinding (lastCommonAncestor (siblingEntry 1) (siblingEntry 2))
          (siblingEntry 1) out →
        firstBinding.coinsAt testNet (siblingEntry 2) out =
          firstBinding.coinsAt testNet
            (lastCommonAncestor (siblingEntry 1) (siblingEntry 2)) out) :=
  @replayBlocks_read_unspent_iff chainHashes _ _ _ _ _ _ _ (siblingEntry_archived (.inl rfl))
    (siblingEntry_archived (.inr rfl)) (cons_ne_nil _ _) siblingDB_interrupted rfl _ rfl
    siblingState_index siblingLedger_matches _ _

-- The coin of the common coinbase is lost to the index.
theorem replayBlocks_loses_entry :
    ∃ db' s', @replayBlocks chainHashes siblingContext someEnumeration (fun _ => true) siblingDB
        siblingState = .ok (true, db') s' ∧
      db'.coins minerOutPoint = some minerCoin ∧
      ¬∀ script out, (s'.addressIndex.read script out).filter (·.spend_height = 0) =
        ((db'.coins out).filter
          (@addressScript chainHashes ·.out.scriptPubKey = script)).map Coin.entry := by
  have hold := siblingEntry_archived (.inl rfl)
  have hnew := siblingEntry_archived (.inr rfl)
  have ⟨db', s', hr, hc, _, _, hidx⟩ := @replayBlocks_interrupted chainHashes _ _ _ _ _ _ _
    someEnumeration (fun _ => true) hold hnew (cons_ne_nil _ _) siblingDB_interrupted
  have ⟨hso, hsn, hne⟩ :=
    @lastCommonAncestor_fork chainHashes _ _ _ _ _ _ hold hnew (cons_ne_nil _ _)
  have hiff := @read_undone_iff chainHashes _ _ _ _ _ _ _ _ _ hold hnew hso hsn hne rfl
    siblingLedger_matches (hidx rfl siblingLedger siblingState_index)
  have hcoin := coinsAt_siblingEntry (show (2 : Uint256) ≠ _ by decide)
  refine ⟨db', s', hr, by rw [hc, hcoin, update_self], fun h => ?_⟩
  rw [hc] at h
  have ht : Touched firstBinding (lastCommonAncestor (siblingEntry 1) (siblingEntry 2))
      (siblingEntry 1) minerOutPoint := by
    refine ⟨siblingEntry 1, suffix_refl _, by decide, minerCoinbase, mem_singleton.mpr rfl, .inr ?_⟩
    have hh : nHeight (siblingEntry 1) = 1 := rfl
    exact mem_singleton.mpr rfl
  have heq := hiff.mp h minerOutPoint ht
  nomatch heq

end

end Taler
