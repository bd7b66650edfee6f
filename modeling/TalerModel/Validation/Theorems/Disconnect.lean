import TalerModel.Validation.Theorems.Ledger

namespace Taler

open PartialMap CAddressIndexDB CCoinsViewCache List Function

section

variable {view view' : CCoinsViewCache} {out : COutPoint} {coin : Coin}

lemma CCoinsViewCache.Coherent.applyTxInUndo_updates (hv : view.Coherent) (hc : coin.Restorable) :
    ∃ view', applyTxInUndo coin view out = .ok (.ofClean (!view.haveCoin out), view') ∧
      Updates view view' (update view.getCoin out (some coin)) := by
  have ⟨view', ha, hu⟩ : ∃ view', view.addCoin out coin (view.haveCoin out) = .ok view' ∧
      Updates view view' (update view.getCoin out (some coin)) :=
    hv.addCoin_have hc.unspent hc.spendable
  refine ⟨view', ?_, hu⟩
  have hh : completeUndo coin view out = some coin := if_pos (Nat.pos_iff_ne_zero.mp hc.height)
  simp only [applyTxInUndo, hh, Bool.not_not, ha]
  rfl

end

namespace ConnectContext

open Connect EStateM

variable [Crypto] {ctx : ConnectContext} {block : CBlock} {pindex : CBlockIndex}
  {tx : CTransaction} {s s' t : ConnectState} {i : Nat}

-- The state with another view, and with more writes to the index if there is one.
def moved (ctx : ConnectContext) (view : CCoinsViewCache)
    (writes : List (CAddressKey × CAddressValue)) (s : ConnectState) : ConnectState :=
  { s with
    view := view
    addressIndex := if ctx.fAddressIndex then s.addressIndex.writeAll writes else s.addressIndex }

section

omit [Crypto]

lemma moved_moved :
    ctx.moved view' writes' (ctx.moved view writes s) = ctx.moved view' (writes ++ writes') s := by
  simp only [moved]
  split
  · simp [writeAll, foldl_append]
  · rfl

lemma writeIndex_bind :
    (Connect.when ctx.fAddressIndex (Connect.modifyIndex fun index => index.write key value) >>= f) s =
      f () (ctx.moved s.view [(key, value)] s) := by
  cases hf : ctx.fAddressIndex
  case false => simp [Connect.when, moved, hf]
  case true =>
  simp only [Connect.when, moved, hf, if_true]
  rfl

lemma moved_view : (ctx.moved view writes s).view = view :=
  rfl

lemma moved_nil : ctx.moved s.view [] s = s := by
  simp [moved, writeAll]

lemma setView_bind (ctx : ConnectContext) :
    (Connect.setView view >>= f) s = f () (ctx.moved view [] s) := by
  simp only [moved, writeAll, foldl_nil, ite_self]
  rfl

lemma removeCoin_updates (hv : s.view.Coherent) :
    ∃ matched view', removeCoin pindex tx out o s = .ok matched (ctx.moved view' [] s) ∧
      Updates s.view view' (update s.view.getCoin (tx.outpoint o) none) ∧
      (s.view.getCoin (tx.outpoint o) = some (tx.coin (nHeight pindex) out) → matched = true) := by
  cases hs : s.view.spendCoin (tx.outpoint o)
  case none =>
    have hn := getCoin_of_spendCoin_none hs
    refine ⟨false, s.view, ?_, ?_, by simp [hn]⟩
    · simp only [removeCoin, bind_get, hs, moved_nil]
      rfl
    rw [← hn, update_eq_self]
    exact .refl hv
  case some r =>
  have ⟨coin, view'⟩ := r
  refine ⟨out = coin.out && nHeight pindex = coin.nHeight && tx.isCoinBase = coin.fCoinBase, view',
    ?_, hv.spendCoin_updates hs, ?_⟩
  · simp only [removeCoin, bind_get, hs]
    rw [setView_bind ctx]
    rfl
  intro hc
  simp [spendCoin_coin hs hc, CTransaction.coin]

end

lemma removeOutputs_updates (hv : s.view.Coherent) :
    ∃ fClean' view', ctx.removeOutputs pindex tx vout fClean s =
        .ok fClean' (ctx.moved view' ((outputCoins tx (nHeight pindex) vout).map fun kv =>
          (CAddressKey.ofScript kv.2.out.scriptPubKey kv.1, {})) s) ∧
      Updates s.view view' (eraseAll s.view.getCoin
        ((outputCoins tx (nHeight pindex) vout).map Prod.fst)) ∧
      ((∀ kv ∈ outputCoins tx (nHeight pindex) vout, s.view.getCoin kv.1 = some kv.2) →
        ((outputCoins tx (nHeight pindex) vout).map Prod.fst).Nodup → fClean' = fClean) := by
  induction vout generalizing s fClean
  case nil =>
    refine ⟨fClean, s.view, ?_, Updates.refl hv, fun _ _ => rfl⟩
    simp [removeOutputs, outputCoins, moved_nil, pure, EStateM.pure]
  case cons p vout hi =>
  obtain ⟨out, o⟩ := p
  cases hu : out.scriptPubKey.isUnspendable
  case true =>
    rw [outputCoins_unspendable hu]
    simp only [removeOutputs, hu, if_true]
    exact hi hv
  rw [outputCoins_spendable hu]
  simp only [removeOutputs, hu, Bool.false_eq_true, if_false]
  rw [writeIndex_bind]
  obtain ⟨matched, view1, hr, hu1, hm1⟩ := @removeCoin_updates ctx pindex tx (ctx.moved s.view
    [(CAddressKey.ofScript out.scriptPubKey (tx.outpoint o), {})] s) out o hv
  obtain ⟨fClean', view2, hs, hu2, hm2⟩ := @hi (ctx.moved view1
    [(CAddressKey.ofScript out.scriptPubKey (tx.outpoint o), {})] s) (fClean && matched)
    hu1.coherent
  rw [moved_view] at hu2 hm2
  rw [bind_of_ok hr, moved_moved, append_nil]
  refine ⟨fClean', view2, ?_, ?_, ?_⟩
  · rw [hs, moved_moved]
    rfl
  · have hr := hu1.trans hu2
    rwa [hu1.coins] at hr
  intro hm hn
  obtain ⟨hc, hm⟩ := forall_mem_cons.mp hm
  obtain ⟨hk, hn⟩ := nodup_cons.mp hn
  have hrest kv (hkv : kv ∈ outputCoins tx (nHeight pindex) vout) :
      view1.getCoin kv.1 = some kv.2 := by
    have hne : kv.1 ≠ tx.outpoint o := fun he => hk (mem_map.mpr ⟨kv, hkv, he⟩)
    rw [hu1.coins, update_of_ne hne]
    exact hm kv hkv
  rw [hm2 hrest hn, hm1 hc, Bool.and_true]

lemma restoreInputs_updates {coins : List (COutPoint × Coin)} (hv : s.view.Coherent)
    (hc : ∀ kv ∈ coins, kv.2.Restorable) :
    ∃ fClean' view', ctx.restoreInputs coins fClean s =
        .ok (some fClean') (ctx.moved view' (coins.map fun kv =>
          (CAddressKey.ofScript kv.2.out.scriptPubKey kv.1, kv.2.entry)) s) ∧
      Updates s.view view' (insertAll s.view.getCoin coins) ∧
      ((∀ kv ∈ coins, s.view.getCoin kv.1 = none) → (coins.map Prod.fst).Nodup →
        fClean' = fClean) := by
  induction coins generalizing s fClean
  case nil =>
    refine ⟨fClean, s.view, ?_, Updates.refl hv, fun _ _ => rfl⟩
    simp [restoreInputs, moved_nil, pure, EStateM.pure]
  case cons kv coins hi =>
  obtain ⟨out, coin⟩ := kv
  obtain ⟨hc1, hc⟩ := forall_mem_cons.mp hc
  obtain ⟨view1, ha, hu1⟩ : ∃ view',
      applyTxInUndo coin s.view out = .ok (.ofClean (!s.view.haveCoin out), view') ∧
      Updates s.view view' (update s.view.getCoin out (some coin)) :=
    hv.applyTxInUndo_updates hc1
  obtain ⟨fClean', view2, hs, hu2, hm2⟩ := @hi (ctx.moved view1
    [(CAddressKey.ofScript coin.out.scriptPubKey out, coin.entry)] s)
    (fClean && !s.view.haveCoin out) hu1.coherent hc
  rw [moved_view] at hu2 hm2
  refine ⟨fClean', view2, ?_, ?_, ?_⟩
  · have hres : DisconnectResult.ofClean (!s.view.haveCoin out) ≠ .failed ∧
        decide (DisconnectResult.ofClean (!s.view.haveCoin out) ≠ .unclean) =
          !s.view.haveCoin out := by
      cases s.view.haveCoin out <;> decide
    rw [restoreInputs, writeIndex_bind, bind_get, moved_view, ha]
    rw [bind_of_ok (check_eq_ok.mpr ⟨rfl, rfl⟩)]
    dsimp only
    rw [setView_bind ctx, moved_moved, append_nil, if_neg hres.1, hres.2, hs, moved_moved]
    rfl
  · have hr := hu1.trans hu2
    rwa [hu1.coins] at hr
  intro hm hn
  obtain ⟨hm1, hm⟩ := forall_mem_cons.mp hm
  obtain ⟨hk, hn⟩ := nodup_cons.mp hn
  have hrest kv (hkv : kv ∈ coins) : view1.getCoin kv.1 = none := by
    have hne : kv.1 ≠ out := fun he => hk (mem_map.mpr ⟨kv, hkv, he⟩)
    rw [hu1.coins, update_of_ne hne]
    exact hm kv hkv
  rw [hm2 hrest hn, haveCoin_eq_false.mpr hm1, Bool.not_false, Bool.and_true]

omit [Crypto] in
lemma moved_index : (ctx.moved view writes s).addressIndex =
    s.addressIndex.writeAll (if ctx.fAddressIndex then writes else []) := by
  rw [moved]
  split <;> rfl

-- One state has these coins, and what a disconnection does not touch from another one.
structure Restored (coins : COutPoint → Option Coin) (t t' : ConnectState) : Prop where
  coherent : t'.view.Coherent
  coins : t'.view.getCoin = coins
  base : t'.view.base = t.view.base
  undo : t'.undo = t.undo
  stake : t'.stake = t.stake

-- Where the undo data of a transaction is: the first one has none.
def HasUndo (vtxundo : CBlockUndo) (i : Nat) (tx : CTransaction) (vprevout : List Coin) : Prop :=
  if i = 0 then tx.isCoinBase = true
  else tx.isCoinBase = false ∧ vtxundo[i - 1]? = some vprevout

structure Undoable (tx : CTransaction) (vprevout : List Coin) : Prop where
  length : vprevout.length = tx.prevouts.length
  restorable : ∀ coin ∈ vprevout, coin.Restorable

open Ledger

variable {ledger : Ledger}

omit [Crypto] in
lemma Undoable.of_accepts (ha : ledger.Accepts pindex tx vprevout) (hg : Grounded ledger.coins) :
    Undoable tx vprevout :=
  ⟨ha.spent.length_eq.symm, hg.restorable ha⟩

lemma disconnectTransaction_updates (hv : t.view.Coherent) (hu : Undoable tx vprevout)
    (hi : HasUndo vtxundo i tx vprevout) (hl : ledger.coins = t.view.getCoin) :
    ∃ fClean' t', ctx.disconnectTransaction pindex vtxundo i tx fClean t = .ok (some fClean') t' ∧
      Restored (ledger.disconnect ctx pindex tx vprevout).coins t t' ∧
      t'.addressIndex = t.addressIndex.writeAll (ctx.disconnectWrites pindex tx vprevout) ∧
      ∀ ledger0 : Ledger, ledger0.Accepts pindex tx vprevout →
        ledger.coins = (ledger0.connect ctx pindex tx).coins → fClean' = fClean := by
  obtain ⟨fClean1, view1, hs1, hu1, hm1⟩ :=
    @removeOutputs_updates _ ctx pindex tx t tx.vout.zipIdx fClean hv
  have hclean (ledger0 : Ledger) (hc : ledger.coins = (ledger0.connect ctx pindex tx).coins) :
      fClean1 = fClean := by
    refine hm1 (fun kv hkv => ?_) (tx.coins_nodup _)
    rw [← hl, hc]
    exact connect_coins_new hkv
  rw [disconnectTransaction, bind_of_ok hs1]
  by_cases h0 : i = 0
  · rw [HasUndo, if_pos h0] at hi
    have hp : tx.prevouts = [] := by simp [CTransaction.prevouts, hi]
    refine ⟨fClean1, ctx.moved view1 (removedWrites pindex tx) t, ?_,
      ⟨hu1.coherent, ?_, hu1.base, rfl, rfl⟩, ?_, fun ledger0 _ hc => hclean ledger0 hc⟩
    · rw [if_pos h0]
      rfl
    · rw [moved_view, hu1.coins, ← hl, disconnect, hp]
      rfl
    · rw [moved_index, disconnectWrites, restoredWrites, hp]; simp
  rw [HasUndo, if_neg h0] at hi
  obtain ⟨hcb, hun⟩ := hi
  have hp : tx.prevouts = tx.vin.map CTxIn.prevout := by simp [CTransaction.prevouts, hcb]
  have hlen : vprevout.length = tx.vin.length := by rw [hu.length, hp, length_map]
  obtain ⟨fClean2, view2, hs2, hu2, hm2⟩ := @restoreInputs_updates _ ctx
    (ctx.moved view1 (removedWrites pindex tx) t) fClean1 (tx.prevouts.zip vprevout).reverse
    hu1.coherent
    (fun kv hkv => hu.restorable _ (of_mem_zip (mem_reverse.mp hkv)).2)
  rw [moved_view] at hu2 hm2
  refine ⟨fClean2, ctx.moved view2 (removedWrites pindex tx ++ restoredWrites tx vprevout) t, ?_,
    ⟨hu2.coherent, ?_, hu2.base.trans hu1.base, rfl, rfl⟩, by rw [moved_index]; rfl, ?_⟩
  · simp only [if_neg h0, hun, hlen, ne_eq, not_true_eq_false, if_false, ← hp]
    exact hs2.trans (by rw [moved_moved]; rfl)
  · rw [moved_view, hu2.coins, hu1.coins, ← hl]
    rfl
  intro ledger0 ha hc
  have hc1 : view1.getCoin = eraseAll ledger0.coins tx.prevouts := by
    rw [hu1.coins, ← hl, hc]
    exact eraseAll_insertAll ha.new
  have hempty kv (hkv : kv ∈ (tx.prevouts.zip vprevout).reverse) : view1.getCoin kv.1 = none := by
    rw [hc1]
    exact eraseAll_mem (of_mem_zip (mem_reverse.mp hkv)).1
  rw [hm2 hempty (by rw [map_reverse, ha.map_fst_zip]; exact nodup_reverse.mpr ha.inputs),
    hclean ledger0 hc]

lemma disconnectTransactions_append
    (h : ctx.disconnectTransactions pindex vtxundo vtx fClean t = .ok (some fClean') t') :
    ctx.disconnectTransactions pindex vtxundo (vtx ++ vtx') fClean t =
      ctx.disconnectTransactions pindex vtxundo vtx' fClean' t' := by
  induction vtx generalizing fClean t
  case nil =>
    have ⟨hf, ht⟩ := pure_eq_ok.mp h
    cases hf
    rw [← ht]
    rfl
  case cons p vtx hi =>
  have ⟨r, t1, hd, h⟩ := bind_eq_ok.mp h
  cases r
  case none =>
    have ⟨hf, _⟩ := pure_eq_ok.mp h
    nomatch hf
  case some fClean1 =>
  rw [cons_append, disconnectTransactions, bind_of_ok hd]
  exact hi h

-- A disconnection in a state that holds a ledger, if hashes stand for their transactions.
structure Disconnects (txs : List (CTransaction × List Coin)) (t t' : ConnectState)
    (ledger ledger' : Ledger) : Prop where
  restored : Restored ledger'.coins t t'
  index : ∀ txOf, (∀ p ∈ txs, Bound txOf p.1 p.2) → HoldsIndex txOf t.addressIndex ledger →
    HoldsIndex txOf t'.addressIndex ledger'

lemma disconnectTransactions_updates
    (hu : List.Forall₂ (fun tx vprevout => tx.isCoinBase = false ∧ Undoable tx vprevout) rest undo)
    (hb : vtxundo = before ++ undo) (hv : t.view.Coherent) (hl : ledger.coins = t.view.getCoin) :
    ∃ fClean' t', ctx.disconnectTransactions pindex vtxundo (rest.zipIdx (before.length + 1)).reverse
        fClean t = .ok (some fClean') t' ∧
      Disconnects (rest.zip undo) t t' ledger (ledger.disconnectAll ctx pindex (rest.zip undo)) ∧
      ∀ ledger0 : Ledger, ledger0.AcceptsAll ctx pindex rest undo →
        ledger.coins = (ledger0.connectAll ctx pindex rest).coins → fClean' = fClean := by
  induction hu generalizing before
  case nil => exact ⟨fClean, t, rfl, ⟨⟨hv, hl.symm, rfl, rfl, rfl⟩, fun _ _ hh => hh⟩, fun _ _ _ => rfl⟩
  case cons tx vprevout rest undo head tail hi =>
  have ⟨fClean1, t1, hd1, hr1, hm1⟩ := @hi (before ++ [vprevout]) (by simp [hb])
  have hu1 : HasUndo vtxundo (before.length + 1) tx vprevout := by
    exact ⟨head.1, by simp [hb]⟩
  have ⟨fClean2, t2, hd2, hr2, hx2, hm2⟩ := @disconnectTransaction_updates _ ctx pindex tx t1 _
    (ledger.disconnectAll ctx pindex (rest.zip undo)) vprevout vtxundo fClean1 hr1.restored.coherent
    head.2 hu1 hr1.restored.coins.symm
  refine ⟨fClean2, t2, ?_, ⟨⟨hr2.coherent, hr2.coins, hr2.base.trans hr1.restored.base,
    hr2.undo.trans hr1.restored.undo, hr2.stake.trans hr1.restored.stake⟩, ?_⟩, ?_⟩
  · rw [length_append, length_singleton] at hd1
    rw [zipIdx_cons, reverse_cons, disconnectTransactions_append hd1,
      disconnectTransactions, bind_of_ok hd2]
    rfl
  · intro txOf hbound hh
    have ⟨hbound, hbounds⟩ := forall_mem_cons.mp hbound
    rw [hx2]
    exact (hr1.index txOf hbounds hh).disconnect hbound
  intro ledger0 ha hc
  cases ha
  case cons hhead htail =>
  have hrest : (ledger.disconnectAll ctx pindex (rest.zip undo)).coins =
      (ledger0.connect ctx pindex tx).coins :=
    (disconnectAll_coins_congr hc _).trans htail.disconnectAll_coins
  rw [hm2 ledger0 hhead hrest, hm1 _ htail hc]

def BlockUndoable (block : CBlock) (vtxundo : CBlockUndo) : Prop :=
  ∃ coinbase rest, block.vtx = coinbase :: rest ∧ coinbase.isCoinBase ∧
    List.Forall₂ (fun tx vprevout => tx.isCoinBase = false ∧ Undoable tx vprevout) rest vtxundo

lemma undoable_of_acceptsAll (h : ledger.AcceptsAll ctx pindex rest undo)
    (hg : Grounded ledger.coins) (hp : 0 < nHeight pindex) (hc : ∀ tx ∈ rest, tx.isCoinBase = false) :
    List.Forall₂ (fun tx vprevout => tx.isCoinBase = false ∧ Undoable tx vprevout) rest undo := by
  induction h
  case nil => exact .nil
  case cons head _ hi =>
  have ⟨hcb, hc⟩ := forall_mem_cons.mp hc
  exact .cons ⟨hcb, .of_accepts head hg⟩ (hi (hg.connect head hp) hc)

lemma BlockUndoable.of_accepts (h : ledger.AcceptsBlock ctx pindex block vtxundo)
    (hg : Grounded ledger.coins) : BlockUndoable block vtxundo := by
  have ⟨coinbase, rest, hvtx, hf, hr⟩ := h.first
  have ha := h.all
  rw [hvtx] at ha
  cases ha
  case cons head tail =>
  exact ⟨coinbase, rest, hvtx, hf, undoable_of_acceptsAll tail (hg.connect head h.height) h.height
    fun tx hm => (hr tx hm).1⟩

omit [Crypto] in
lemma BlockUndoable.heights (h : BlockUndoable block vtxundo) :
    ∀ p ∈ block.vtx.zip ([] :: vtxundo), ∀ coin ∈ p.2, 0 < coin.nHeight := by
  intro p hp coin hcoin
  have ⟨_, _, _, _, hrest⟩ := h
  cases mem_cons.mp (of_mem_zip hp).2
  case inl he =>
    rw [he] at hcoin
    nomatch hcoin
  rename_i hm
  have ⟨i, hi, he⟩ := mem_iff_getElem.mp hm
  have hfit := (forall₂_iff_get.mp hrest).2 i (hrest.length_eq ▸ hi) hi
  rw [get_eq_getElem, get_eq_getElem, he] at hfit
  exact (hfit.2.restorable coin hcoin).height

lemma bound_of_acceptsAll (h : ledger.AcceptsAll ctx pindex vtx undo) (hk : Known txOf ledger.coins)
    (ht : ∀ tx ∈ vtx, (txOf tx.getHash).vout = tx.vout) : ∀ p ∈ vtx.zip undo, Bound txOf p.1 p.2 := by
  induction h
  case nil => exact fun _ hm => nomatch hm
  case cons head _ hi =>
  have ⟨ht, hts⟩ := forall_mem_cons.mp ht
  exact forall_mem_cons.mpr ⟨.of_accepts head hk ht, hi (hk.connect ht) hts⟩

lemma disconnectBlock_updates (h : BlockUndoable block vtxundo) (hpar : pindex.tail ≠ [])
    (hu : t.undo pindex = some vtxundo) (hv : t.view.Coherent) (hl : ledger.coins = t.view.getCoin) :
    ∃ fClean t', ctx.disconnectBlock block pindex t = .ok (.ofClean fClean) t' ∧
      Disconnects (block.vtx.zip ([] :: vtxundo)) t t' ledger
        (ledger.disconnectBlock ctx pindex block vtxundo) ∧
      t'.view.hashBlock = CBlockIndex.getBlockHash pindex.tail ∧
      ∀ ledger0 : Ledger, ledger0.AcceptsBlock ctx pindex block vtxundo →
        ledger.coins = (ledger0.connectBlock ctx pindex block).coins → fClean = true := by
  obtain ⟨coinbase, rest, hvtx, hf, hrest⟩ := h
  obtain ⟨fClean1, t1, hd1, hr1, hm1⟩ := @disconnectTransactions_updates _ ctx pindex t ledger rest vtxundo
    vtxundo [] true hrest rfl hv hl
  have hu0 : HasUndo vtxundo 0 coinbase [] := by rw [HasUndo, if_pos rfl]; exact hf
  have hfits : Undoable coinbase [] := ⟨by simp [CTransaction.prevouts, hf], fun _ hm => nomatch hm⟩
  obtain ⟨fClean2, t2, hd2, hr2, hx2, hm2⟩ := @disconnectTransaction_updates _ ctx pindex coinbase t1 0
    (ledger.disconnectAll ctx pindex (rest.zip vtxundo)) [] vtxundo fClean1 hr1.restored.coherent hfits
    hu0 hr1.restored.coins.symm
  have hloop : ctx.disconnectTransactions pindex vtxundo block.vtx.zipIdx.reverse true t =
      .ok (some fClean2) t2 := by
    rw [length_nil] at hd1
    rw [hvtx, zipIdx_cons, reverse_cons, disconnectTransactions_append hd1,
      disconnectTransactions, bind_of_ok hd2]
    rfl
  have hlen : vtxundo.length + 1 = block.vtx.length := by
    rw [hvtx, length_cons, hrest.length_eq]
  rw [Ledger.disconnectBlock, hvtx]
  refine ⟨fClean2, setBestBlock (CBlockIndex.getBlockHash pindex.tail) t2, ?_, ⟨?_, ?_⟩, rfl, ?_⟩
  · simp only [disconnectBlock, bind_get, hu, hlen, ne_eq, not_true_eq_false, if_false]
    rw [bind_of_ok hloop]
    simp only [hpar, decide_false, Check.rejectIf, Bool.false_eq_true, if_false]
    rfl
  · exact ⟨hr2.coherent.setBestBlock _, hr2.coins, hr2.base.trans hr1.restored.base,
      hr2.undo.trans hr1.restored.undo, hr2.stake.trans hr1.restored.stake⟩
  · intro txOf hbound hh
    obtain ⟨hbound, hbounds⟩ := forall_mem_cons.mp hbound
    have hh2 : HoldsIndex txOf (t1.addressIndex.writeAll (ctx.disconnectWrites pindex coinbase [])) _ :=
      (hr1.index txOf hbounds hh).disconnect hbound
    rwa [← hx2] at hh2
  intro ledger0 ha hc
  have hall := ha.all
  rw [Ledger.connectBlock, hvtx] at hc
  rw [hvtx] at hall
  cases hall
  case cons hhead htail =>
  have hcoins : (ledger.disconnectAll ctx pindex (rest.zip vtxundo)).coins =
      (ledger0.connect ctx pindex coinbase).coins :=
    (disconnectAll_coins_congr hc _).trans htail.disconnectAll_coins
  rw [hm2 ledger0 hhead hcoins, hm1 _ htail hc]

-- Disconnecting a block, in any state that holds the coins after it and has its undo data, restores
-- the coins from before it, and the index as well if that is consistent.
lemma disconnectBlock_undoes (h : ledger.AcceptsBlock ctx pindex block vtxundo)
    (hpar : pindex.tail ≠ []) (hg : Grounded ledger.coins) (hu : t.undo pindex = some vtxundo)
    (hv : t.view.Coherent) (ht : t.view.getCoin = (ledger.connectBlock ctx pindex block).coins) :
    ∃ t', ctx.disconnectBlock block pindex t = .ok .ok t' ∧ Restored ledger.coins t t' ∧
      t'.view.hashBlock = CBlockIndex.getBlockHash pindex.tail ∧
      ∀ txOf seen, ledger.Consistent ctx txOf seen → NewBlock txOf seen block →
        HoldsIndex txOf t.addressIndex (ledger.connectBlock ctx pindex block) →
        HoldsIndex txOf t'.addressIndex ledger := by
  have ⟨fClean, t', hd, hr, hb, hm⟩ := @disconnectBlock_updates _ ctx block pindex t
    (ledger.connectBlock ctx pindex block) vtxundo (.of_accepts h hg) hpar hu hv ht.symm
  rw [hm ledger h rfl] at hd
  have hcoins := h.all.disconnectAll_coins
  refine ⟨t', hd, hcoins ▸ hr.restored, hb, fun txOf seen hc hnew hh => ?_⟩
  have hh := hr.index txOf (bound_of_acceptsAll h.all hc.toKnown hnew.outputs) hh
  exact h.all.disconnectAll_connectAll h.height hc hnew.bound (h.unseen hc hnew) ▸ hh

-- Disconnecting the block that was just connected restores coins, best block and index reads.
theorem disconnectBlock_restores (hm : block.Memo) (hv : s.view.Coherent)
    (hg : Grounded s.view.getCoin) (hb : block.getHash ≠ ctx.params.hashGenesisBlock)
    (hu : ∀ undo ∈ s.undo pindex,
      undo = (spentCoins (nHeight pindex) block.vtx s.view.getCoin).tail)
    (h : ctx.connectBlock block pindex false s = .ok () s') :
    ∃ s'', ctx.disconnectBlock block pindex s' = .ok .ok s'' ∧
      s''.view.getCoin = s.view.getCoin ∧ s''.view.getBestBlock = s.view.getBestBlock ∧
      ∀ txOf seen, IndexConsistent ctx txOf seen s → NewBlock txOf seen block →
        s''.addressIndex.read = s.addressIndex.read := by
  have hrefines records := @connectBlock_refines _ ctx block pindex s s' ⟨s.view.getCoin, records⟩
    hm hv hb h rfl
  have ⟨hbest, vtxundo, ha⟩ := hrefines fun _ => none
  have hus : s'.undo pindex = some vtxundo := by
    rw [ha.undo]
    split
    · exact update_self ..
    case isFalse hn =>
    have ⟨undo, he⟩ := Option.ne_none_iff_exists'.mp hn
    rw [he, hu undo he, ← ha.accepts.vtxundo_eq]
  have ⟨s'', hd, hr, hh, _⟩ := disconnectBlock_undoes ha.accepts ha.parent hg hus ha.coherent ha.coins
  refine ⟨s'', hd, hr.coins, ?_, fun txOf seen hc hn => ?_⟩
  · have hview : s''.view =
        { s''.view with base := s.view.base, hashBlock := s.view.getBestBlock } := by
      rw [← hbest, ← hh, ← ha.base, ← hr.base]
    rw [hview]
    exact getBestBlock_getBestBlock s.view _
  -- The index of the same run, now with the records that it had.
  have ⟨_, vtxundo1, ha1⟩ := hrefines (ledgerOf txOf s).records
  have he := ha1.accepts.vtxundo_eq.trans ha.accepts.vtxundo_eq.symm
  have ⟨s1, hd1, _, _, hx⟩ := disconnectBlock_undoes ha1.accepts ha1.parent hg (he ▸ hus)
    ha1.coherent ha1.coins
  have hs : s'' = s1 := by
    rw [hd] at hd1
    injection hd1
  have hidx := hx txOf seen hc.ledger hn
    (ha1.index txOf hc.ledger.toKnown hn.outputs ⟨hc.filed, rfl⟩)
  rw [hs]
  exact hc.filed.read_congr hidx.1 hidx.2

section

def indexedContext : ConnectContext :=
  { stakeContext with fAddressIndex := true, fTxIndex := true }

def stakedTx : CTransaction where
  vin := emptyCoinbase.vin
  vout := [stakedOutput MAX_MONEY]
  hash := 5
  witnessHash := 5

def indexedTx (txid : Uint256) : CTransaction :=
  if txid = 5 then stakedTx else
  if txid = 7 then emptyCoinbase else ((stakeBlock 0).vtx[1]?).getD emptyCoinbase

def indexedState : ConnectState :=
  { stakeState with
    addressIndex :=
      { cache := ∅
        db := fun key =>
          if key = { script := @fileOf acceptsSignatures indexedTx stakedOutPoint, out := stakedOutPoint }
          then some stakedCoin.entry else none } }

section

omit [Crypto]

lemma indexedState_getCoin (h : indexedState.view.getCoin out = some coin) :
    out = stakedOutPoint ∧ coin = stakedCoin :=
  stakedCoins_getCoin h

lemma indexedState_record : CAddressIndexDB.record (@fileOf acceptsSignatures indexedTx)
    indexedState.addressIndex out = if out = stakedOutPoint then some stakedCoin.entry else none := by
  have hn : indexedState.addressIndex.cache.lookup out = none := by simp [indexedState]
  rw [CAddressIndexDB.record, read_uncached hn]
  by_cases ho : out = stakedOutPoint
  · simp [indexedState, ho]
  · simp [indexedState, ho]

lemma indexedState_consistent :
    @IndexConsistent acceptsSignatures indexedContext indexedTx (· = 5) indexedState := by
  refine @IndexConsistent.mk acceptsSignatures _ _ _ _ ?filed ?ledger
  case filed =>
    constructor
    case cache => exact fun hl => by simp [indexedState] at hl
    case db =>
    intro key value hd
    simp only [indexedState] at hd
    split at hd
    case isTrue hk => rw [hk]
    · nomatch hd
  case ledger =>
  constructor
  case known =>
    intro out coin hc
    have ⟨ho, hc⟩ := indexedState_getCoin hc
    rw [ho, hc]
    decide
  case listed =>
    intro out coin _ hc
    have ⟨ho, hc⟩ := indexedState_getCoin hc
    rw [hc]
    exact indexedState_record.trans (if_pos ho)
  case filed =>
    intro out hr
    have hr : CAddressIndexDB.record (@fileOf acceptsSignatures indexedTx)
      indexedState.addressIndex out ≠ none := hr
    rw [indexedState_record] at hr
    by_cases ho : out = stakedOutPoint
    · rw [ho]; rfl
    · simp [ho] at hr
  case closed =>
  intro txid hs
  rw [hs]
  exact fun out ho => by simp [indexedTx, stakedTx, emptyCoinbase, CTransaction.prevouts,
    CTransaction.isCoinBase, COutPoint.isNull] at ho

lemma stakeBlock_new : NewBlock indexedTx (· = 5) (stakeBlock 1600000000) := by
  constructor
  case bound => decide
  case coinbase => decide

lemma indexedState_grounded : Grounded indexedState.view.getCoin := by
  intro out coin hc
  have ⟨_, hc⟩ := indexedState_getCoin hc
  rw [hc]
  constructor <;> decide

theorem disconnectBlock_restores_stake :
    ∃ s' s'', @connectBlock acceptsSignatures indexedContext (stakeBlock 1600000000)
        (stakeEntry 1600000000) false indexedState = .ok () s' ∧
      @disconnectBlock acceptsSignatures indexedContext (stakeBlock 1600000000)
        (stakeEntry 1600000000) s' = .ok .ok s'' ∧
      s''.view.getCoin = indexedState.view.getCoin ∧
      s''.view.getBestBlock = indexedState.view.getBestBlock ∧
      s''.addressIndex.read = indexedState.addressIndex.read := by
  have ⟨s', h⟩ : ∃ s', @connectBlock acceptsSignatures indexedContext (stakeBlock 1600000000)
      (stakeEntry 1600000000) false indexedState = .ok () s' := by decide +kernel
  have ⟨s'', hd, hcoins, hbest, hread⟩ := @disconnectBlock_restores acceptsSignatures indexedContext
    (stakeBlock 1600000000) (stakeEntry 1600000000) indexedState s' (by nofun)
    (over_coherent stakedCoins) indexedState_grounded (by decide) (by nofun) h
  exact ⟨s', s'', h, hd, hcoins, hbest, hread _ _ indexedState_consistent stakeBlock_new⟩

end

abbrev hashesToGenesis : Crypto :=
  { Crypto.additive with blockHash := fun _ => Params.testNet.hashGenesisBlock }

def genesisBlock : CBlock where
  nVersion := 1
  hashPrevBlock := 0
  hashMerkleRoot := 7
  nTime := 1500000000
  nBits := 0x1e0ffff0
  nNonce := 0
  vtx := [emptyCoinbase]

def genesisEntry : CBlockIndex :=
  [@IndexHeader.ofHeader hashesToGenesis genesisBlock.getBlockHeader]

def emptyState : ConnectState :=
  { stakeState with
    view := .onto { getCoin := fun _ => none, getBestBlock := 0, finite := finite_none } }

omit [Crypto] in
theorem disconnectBlock_genesis_fails :
    ∃ s', @connectBlock hashesToGenesis stakeContext genesisBlock genesisEntry false emptyState =
        .ok () s' ∧
      @disconnectBlock hashesToGenesis stakeContext genesisBlock genesisEntry s' = .ok .failed s' := by
  have ⟨s', h, hu⟩ : ∃ s', @connectBlock hashesToGenesis stakeContext genesisBlock genesisEntry false
      emptyState = .ok () s' ∧ (s'.undo genesisEntry).isNone := by
    decide +kernel
  refine ⟨s', h, ?_⟩
  simp only [disconnectBlock, bind_get, Option.isNone_iff_eq_none.mp hu]
  rfl

end

end ConnectContext

end Taler
