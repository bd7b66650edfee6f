import TalerModel.Validation.Ledger
import TalerModel.Validation.Theorems.Money

namespace Taler

open List

namespace ConnectContext

open PartialMap CAddressIndexDB CCoinsViewCache Ledger

variable [Crypto] {ctx : ConnectContext} {block : CBlock} {pindex : CBlockIndex}
  {tx : CTransaction} {totals totals' : Totals} {s s' : ConnectState} {i : Nat}

lemma indexSpent_eq (hc : tx.isCoinBase = false) (hi : s.view.haveInputs tx) (index) :
    ctx.indexSpent pindex tx s.view index =
      index.writeAll (if ctx.fAddressIndex then ctx.spentWrites pindex tx s.view.getCoin else []) := by
  simp only [haveInputs, hc, Bool.false_or, all_eq_true] at hi
  rw [indexSpent]
  cases hf : ctx.fAddressIndex
  case false => rfl
  simp only [Bool.not_true, Bool.false_eq_true, if_false, if_true, writeAll, spentWrites,
    CTransaction.prevouts, hc, zipIdx_map, foldl_map]
  apply foldl_ext
  intro index p hp
  obtain ⟨txin, j⟩ := p
  have hm : txin ∈ tx.vin := by
    have hm := mem_map_of_mem (f := Prod.fst) hp
    rwa [zipIdx_map_fst] at hm
  obtain ⟨coin, hg⟩ := Option.isSome_iff_exists.mp (hi txin hm)
  simp [hg, accessCoin_of_getCoin hg]

lemma indexOutputs_eq (index) : ctx.indexOutputs pindex tx index =
      index.writeAll (if ctx.fAddressIndex then createdWrites pindex tx else []) := by
  rw [indexOutputs]
  cases hf : ctx.fAddressIndex
  case false => rfl
  simp only [Bool.not_true, Bool.false_eq_true, if_false, if_true, writeAll, createdWrites,
    CTransaction.coins, outputCoins, foldl_map, foldl_filterMap]
  apply foldl_ext
  intro index p _
  cases hu : p.1.scriptPubKey.isUnspendable
  case false => simp [createdEntry, Coin.entry, CTransaction.coin, Coin.isCoinBase]
  case true => simp

lemma TransactionConnected.index_eq
    (h : TransactionConnected ctx block pindex i tx totals totals' s s' vprevout added)
    (hi : s.view.haveInputs tx) :
    s'.addressIndex = s.addressIndex.writeAll (ctx.connectWrites pindex tx s.view.getCoin) := by
  have ha (index : CAddressIndexDB) (writes writes' : List (CAddressKey × CAddressValue)) :
      (index.writeAll writes).writeAll writes' = index.writeAll (writes ++ writes') :=
    (foldl_append ..).symm
  rw [h.index, indexOutputs_eq]
  cases hc : tx.isCoinBase
  case true =>
    have hs : ctx.spentWrites pindex tx s.view.getCoin = [] := by
      simp [spentWrites, CTransaction.prevouts, hc]
    rw [connectWrites, hs, if_pos rfl, nil_append]
  case false =>
  rw [if_neg (by simp), indexSpent_eq hc hi, ha, connectWrites]
  split <;> rfl

variable (txOf : Uint256 → CTransaction)

-- The script for the entries of an outpoint, where `txOf` is what a hash is the hash of.
def fileOf (out : COutPoint) : CScript :=
  addressScript (((txOf out.hash).vout[out.n]?.map CTxOut.scriptPubKey).getD [])

def ledgerOf (s : ConnectState) : Ledger where
  coins := s.view.getCoin
  records := s.addressIndex.record (fileOf txOf)

-- The index is filed in this way and agrees with the coins.
structure IndexConsistent (ctx : ConnectContext) (txOf : Uint256 → CTransaction)
    (seen : Uint256 → Prop) (s : ConnectState) : Prop where
  filed : s.addressIndex.Filed (fileOf txOf)
  ledger : (ledgerOf txOf s).Consistent ctx txOf seen

def HoldsIndex (index : CAddressIndexDB) (ledger : Ledger) : Prop :=
  index.Filed (fileOf txOf) ∧ index.record (fileOf txOf) = ledger.records

variable {txOf : Uint256 → CTransaction} {seen : Uint256 → Prop} {ledger : Ledger}

lemma fileOf_eq (h : (txOf out.hash).vout[out.n]? = some txout) :
    (CAddressKey.ofScript txout.scriptPubKey out).script = fileOf txOf out := by
  simp [CAddressKey.ofScript, fileOf, h]

lemma fileOf_created (ht : (txOf tx.getHash).vout = tx.vout) (hm : (out, coin) ∈ tx.coins n) :
    (CAddressKey.ofScript coin.out.scriptPubKey out).script = fileOf txOf out := by
  have ⟨i, he, ho, _⟩ := Ledger.mem_coins_outpoint hm
  apply fileOf_eq
  rw [Ledger.hash_of_mem_coins hm, ht, he]
  exact ho

lemma connectWrites_filed (h : Known txOf ledger.coins) (ht : (txOf tx.getHash).vout = tx.vout)
    (hi : ∀ out ∈ tx.prevouts, ∃ coin, ledger.coins out = some coin) :
    ∀ write ∈ ctx.connectWrites pindex tx ledger.coins,
      write.1.script = fileOf txOf write.1.out := by
  intro write hw
  rw [connectWrites] at hw
  split at hw
  case isFalse => cases hw
  cases mem_append.mp hw
  case inl hw =>
    obtain ⟨⟨out, j⟩, hm, he⟩ := mem_map.mp hw
    have hm : out ∈ tx.prevouts := by
      have hm := mem_map_of_mem (f := Prod.fst) hm
      rwa [zipIdx_map_fst] at hm
    obtain ⟨coin, hc⟩ := hi out hm
    rw [← he]
    dsimp only
    rw [hc]
    exact fileOf_eq (h out coin hc)
  case inr hw =>
  obtain ⟨⟨out, coin⟩, hm, he⟩ := mem_map.mp hw
  rw [← he]
  exact fileOf_created ht hm

structure Bound (txOf : Uint256 → CTransaction) (tx : CTransaction) (vprevout : List Coin) : Prop where
  known : (txOf tx.getHash).vout = tx.vout
  spent : ∀ kv ∈ tx.prevouts.zip vprevout, (txOf kv.1.hash).vout[kv.1.n]? = some kv.2.out

omit [Crypto] in
lemma Bound.of_accepts (ha : ledger.Accepts pindex tx vprevout) (h : Known txOf ledger.coins)
    (ht : (txOf tx.getHash).vout = tx.vout) : Bound txOf tx vprevout :=
  ⟨ht, fun kv hm => h kv.1 kv.2 (ha.mem_zip hm)⟩

lemma disconnectWrites_filed (h : Bound txOf tx vprevout) :
    ∀ write ∈ ctx.disconnectWrites pindex tx vprevout,
      write.1.script = fileOf txOf write.1.out := by
  intro write hw
  rw [disconnectWrites] at hw
  split at hw
  case isFalse => cases hw
  cases mem_append.mp hw
  case inl hw =>
    obtain ⟨⟨out, coin⟩, hm, he⟩ := mem_map.mp hw
    rw [← he]
    exact fileOf_created h.known hm
  rename_i hw
  obtain ⟨kv, hm, he⟩ := mem_map.mp hw
  rw [← he]
  exact fileOf_eq (h.spent kv (mem_reverse.mp hm))

lemma HoldsIndex.connect (h : HoldsIndex txOf index ledger)
    (hc : Known txOf ledger.coins) (ht : (txOf tx.getHash).vout = tx.vout)
    (hi : ∀ out ∈ tx.prevouts, ∃ coin, ledger.coins out = some coin) :
    HoldsIndex txOf (index.writeAll (ctx.connectWrites pindex tx ledger.coins))
      (ledger.connect ctx pindex tx) := by
  have hw := @connectWrites_filed _ ctx pindex tx txOf ledger hc ht hi
  have ⟨hf, hr⟩ := h.1.writeAll hw
  rw [h.2] at hr
  exact ⟨hf, hr⟩

lemma HoldsIndex.disconnect (h : HoldsIndex txOf index ledger) (hb : Bound txOf tx vprevout) :
    HoldsIndex txOf (index.writeAll (ctx.disconnectWrites pindex tx vprevout))
      (ledger.disconnect ctx pindex tx vprevout) := by
  have hw := @disconnectWrites_filed _ ctx pindex tx txOf vprevout hb
  have ⟨hf, hr⟩ := h.1.writeAll hw
  rw [h.2] at hr
  exact ⟨hf, hr⟩

lemma TransactionConnected.refines
    (h : TransactionConnected ctx block pindex i tx totals totals' s s' vprevout added)
    (ht : Connectable s.view S tx) (hv : s.view.Coherent)
    (hn : tx.isCoinBase → ∀ i < tx.vout.length, s.view.getCoin (tx.outpoint i) = none)
    (hl : ledger.coins = s.view.getCoin) :
    ledger.Accepts pindex tx vprevout ∧
    Updates s.view s'.view (ledger.connect ctx pindex tx).coins ∧
    s'.addressIndex = s.addressIndex.writeAll (ctx.connectWrites pindex tx ledger.coins) := by
  have ⟨hi, hu⟩ := h.updated ht hv
  have hnew : ∀ kv ∈ tx.coins (nHeight pindex), eraseAll s.view.getCoin tx.prevouts kv.1 = none := by
    cases hc : tx.isCoinBase
    case false => exact hu.new hc
    intro kv hkv
    have ⟨i, hi, he⟩ := mem_coins hkv
    have hp : tx.prevouts = [] := by simp [CTransaction.prevouts, hc]
    rw [hp, he]
    exact hn hc i hi
  have hout : ∀ kv ∈ tx.coins (nHeight pindex), kv.2.isSpent = false := by
    intro kv hkv
    apply getCoin_unspent
    rw [hu.updates.coins]
    exact insertAll_of_mem (tx.coins_nodup _) hkv
  rw [connect, hl]
  exact ⟨⟨hl ▸ hu.spent, ht.prevouts_nodup, hl ▸ hnew, hout⟩, hu.updates, h.index_eq hi⟩

structure TransactionsRefined (ctx : ConnectContext) (pindex : CBlockIndex)
    (vtx : List CTransaction) (s s' : ConnectState) (ledger : Ledger) : Prop where
  updates : Updates s.view s'.view (ledger.connectAll ctx pindex vtx).coins
  undo : s'.undo = s.undo
  index : ∀ txOf, Known txOf ledger.coins → (∀ tx ∈ vtx, (txOf tx.getHash).vout = tx.vout) →
    HoldsIndex txOf s.addressIndex ledger →
    HoldsIndex txOf s'.addressIndex (ledger.connectAll ctx pindex vtx)

lemma TransactionsConnected.refines
    (h : TransactionsConnected ctx block pindex (rest.zipIdx k) totals totals' s s') (hk : k ≠ 0)
    (hc : ∀ tx ∈ rest, tx.isCoinBase = false) (ht : ∀ tx ∈ rest, Connectable s.view S tx)
    (hv : s.view.Coherent) (hl : ledger.coins = s.view.getCoin) :
    ∃ vtxundo, ledger.AcceptsAll ctx pindex rest vtxundo ∧
      totals'.vtxundo = totals.vtxundo ++ vtxundo ∧ TransactionsRefined ctx pindex rest s s' ledger := by
  induction rest generalizing k totals s ledger
  case nil =>
    cases h
    exact ⟨[], .nil, by simp, hl ▸ Updates.refl hv, rfl, fun _ _ _ hh => hh⟩
  case cons tx rest hi =>
  cases h
  case cons vprevout _ head tail =>
  have ⟨hcb, hcs⟩ := forall_mem_cons.mp hc
  have ⟨ht, hts⟩ := forall_mem_cons.mp ht
  have ⟨ha, hu, hx⟩ := head.refines ht hv (by simp [hcb]) hl
  have ⟨vtxundo, has, hus, hr⟩ := hi tail (Nat.succ_ne_zero k) hcs
    (fun tx hm => (hts tx hm).updates hu) hu.coherent hu.coins.symm
  refine ⟨vprevout :: vtxundo, .cons ha has, ?_, hu.trans hr.updates, hr.undo.trans head.undo, ?_⟩
  · rw [hus, head.vtxundo, if_neg hk, append_assoc]
    rfl
  intro txOf hk hb hh
  have ⟨hb, hbs⟩ := forall_mem_cons.mp hb
  exact hr.index txOf (hk.connect hb) hbs (hx ▸ hh.connect hk hb fun _ => ha.prevout)

omit [Crypto] in
lemma checkTransaction_vin (h : checkTransaction tx true = .ok ()) : tx.vin ≠ [] := by
  have ⟨hv, _⟩ := Check.seq_eq_ok.mp h
  simpa using hv

omit [Crypto] in
lemma prevouts_ne_nil (h : checkTransaction tx true = .ok ()) (hc : tx.isCoinBase = false) :
    tx.prevouts ≠ [] := by
  have hv := checkTransaction_vin h
  simpa [CTransaction.prevouts, hc] using hv

structure BlockRefined (ctx : ConnectContext) (block : CBlock) (pindex : CBlockIndex)
    (s s' : ConnectState) (ledger : Ledger) (vtxundo : CBlockUndo) : Prop where
  parent : pindex.tail ≠ []
  accepts : ledger.AcceptsBlock ctx pindex block vtxundo
  coherent : s'.view.Coherent
  base : s'.view.base = s.view.base
  best : s'.view.hashBlock = pindex.getBlockHash
  coins : s'.view.getCoin = (ledger.connectBlock ctx pindex block).coins
  undo : s'.undo = if s.undo pindex = none
    then Function.update s.undo pindex (some vtxundo) else s.undo
  index : ∀ txOf, Known txOf ledger.coins →
    (∀ tx ∈ block.vtx, (txOf tx.getHash).vout = tx.vout) →
    HoldsIndex txOf s.addressIndex ledger →
    HoldsIndex txOf s'.addressIndex (ledger.connectBlock ctx pindex block)

omit [Crypto] in
lemma nHeight_pos {pindex : CBlockIndex} (h : pindex.tail ≠ []) : 0 < nHeight pindex := by
  have hl := length_pos_iff.mpr h
  rw [length_tail] at hl
  exact hl

omit [Crypto] in
lemma stored_view (s) :
    (stored pindex false vtxundo s).view = s.view.setBestBlock pindex.getBlockHash ∧
    (stored pindex false vtxundo s).addressIndex = s.addressIndex ∧
    (stored pindex false vtxundo s).undo = if s.undo pindex = none
      then Function.update s.undo pindex (some vtxundo) else s.undo := by
  rw [stored, if_neg Bool.false_ne_true, setBestBlock, writeUndoDataForBlock]
  split
  case h_1 hs => simp [hs]
  case h_2 hs => simp [hs]

lemma ContentsConnected.refines
    (h : ContentsConnected ctx block pindex false s s' totals s1 payer valueOut added)
    (hc : checkContents block = .ok ()) (hv : s.view.Coherent)
    (hl : ledger.coins = s.view.getCoin) :
    BlockRefined ctx block pindex s s' ledger totals.vtxundo := by
  have hp := nHeight_pos h.parent
  have hS := Finset.Subset.refl (touched block)
  obtain ⟨coinbase, rest, totals1, s2, hsplit⟩ := LoopSplit.exists hc h.transactions
  have hm : coinbase ∈ block.vtx := by simp [hsplit.vtx]
  obtain ⟨vprevout, _, hd⟩ := hsplit.head
  obtain ⟨ha, hu, hx⟩ :=
    hd.refines (connectable_of_contents hc h.new hS hm) hv (fun _ => h.new _ hm) hl
  have hconn tx (hr : tx ∈ rest) : Connectable s2.view (touched block) tx :=
    (connectable_of_contents hc h.new hS (by simp [hsplit.vtx, hr])).updates hu
  have hothers tx (hr : tx ∈ rest) : tx.isCoinBase = false ∧ tx.prevouts ≠ [] := by
    have ht := (checkContents_ok hc).2 tx (by simp [hsplit.vtx, hr])
    exact ⟨hsplit.others tx hr, prevouts_ne_nil ht (hsplit.others tx hr)⟩
  obtain ⟨vtxundo, has, hus, hr⟩ :=
    hsplit.tail.refines Nat.one_ne_zero hsplit.others hconn hu.coherent hu.coins.symm
  have hvp : vprevout = [] := by
    simpa [CTransaction.prevouts, hsplit.isFirst, eq_comm] using ha.spent
  have hut : totals.vtxundo = vtxundo := by simpa [hd.vtxundo] using hus
  obtain ⟨hview, hindex, hundo⟩ := @stored_view pindex totals.vtxundo
    { s1 with amounts := s1.amounts ++ added }
  rw [← h.final] at hview hindex hundo
  have hup := hu.trans hr.updates
  rw [hut] at hundo ⊢
  constructor
  case parent => exact h.parent
  case accepts =>
    refine ⟨hp, ⟨coinbase, rest, hsplit.vtx, hsplit.isFirst, hothers⟩, ?_⟩
    rw [hsplit.vtx, ← hvp]
    exact .cons ha has
  case coherent => rw [hview]; exact hup.coherent.setBestBlock _
  case base => rw [hview]; exact hup.base
  case best => rw [hview]; rfl
  case coins =>
    rw [hview, setBestBlock_getCoin, Ledger.connectBlock, hsplit.vtx]
    exact hup.coins
  case undo => rw [hundo]; simp only [hr.undo, hd.undo]
  case index =>
  intro txOf hk hbound hh
  rw [hsplit.vtx] at hbound
  obtain ⟨hb, hbs⟩ := forall_mem_cons.mp hbound
  rw [hindex, Ledger.connectBlock, hsplit.vtx]
  exact hr.index txOf (hk.connect hb) hbs (hx ▸ hh.connect hk hb fun _ => ha.prevout)

lemma connectBlock_refines (hm : block.Memo) (hv : s.view.Coherent)
    (hb : block.getHash ≠ ctx.params.hashGenesisBlock)
    (h : ctx.connectBlock block pindex false s = .ok () s') (hl : ledger.coins = s.view.getCoin) :
    CBlockIndex.getBlockHash pindex.tail = s.view.getBestBlock ∧
    ∃ vtxundo, BlockRefined ctx block pindex s s' ledger vtxundo := by
  have ⟨hp, st, h⟩ := connectBlock_ok h
  rw [if_neg hb] at h
  have hc := checkBlock_contents hm hp.checked
  have ⟨totals, _, _, _, _, h⟩ := connectContents_ok h
  have hr := h.refines hc hv hl
  exact ⟨hp.best, totals.vtxundo, hr.parent, hr.accepts, hr.coherent, hr.base, hr.best, hr.coins,
    hr.undo, hr.index⟩

end ConnectContext

end Taler
