import TalerModel.Consensus.Theorems.Amounts
import TalerModel.Validation.Theorems.Connect

namespace Taler

open PartialMap CCoinsViewCache List Check

section

noncomputable def CCoinsViewCache.support (view : CCoinsViewCache) : Finset COutPoint :=
  view.cacheCoins.keys ∪ view.base.finite.toFinset

def Coin.value (coin : Coin) : Int :=
  coin.out.nValue

noncomputable def CCoinsViewCache.totalValue (view : CCoinsViewCache) : Int :=
  total Coin.value view.support view.getCoin

lemma CCoinsViewCache.getCoin_of_not_mem_support {view : CCoinsViewCache}
    (h : o ∉ view.support) : view.getCoin o = none := by
  simp only [support, Finset.mem_union, Finmap.mem_keys, Set.Finite.mem_toFinset,
    Set.mem_ofPred_eq, not_or, not_not] at h
  rw [getCoin_uncached (Finmap.lookup_eq_none.mpr h.1), CCoinsView.unspent, h.2]
  rfl

lemma CCoinsViewCache.totalValue_eq {view : CCoinsViewCache} (h : view.support ⊆ S) :
    view.totalValue = total Coin.value S view.getCoin :=
  (total_eq_of_subset h fun _ => getCoin_of_not_mem_support).symm

variable {tx : CTransaction} {view : CCoinsViewCache} {S : Finset COutPoint}

lemma outputCoins_value_le (ho : ∀ p ∈ vout, 0 ≤ p.1.nValue) :
    ((outputCoins tx n vout).map fun kv => kv.2.value).sum ≤ outputSum (vout.map Prod.fst) := by
  induction vout
  case nil => simp [outputCoins, outputSum]
  case cons p vout hi =>
  obtain ⟨hp, ho⟩ := forall_mem_cons.mp ho
  have hs := hi ho
  have he : outputSum ((p :: vout).map Prod.fst) = p.1.nValue + outputSum (vout.map Prod.fst) := by
    simp [outputSum]
  cases hu : p.1.scriptPubKey.isUnspendable
  case true =>
    rw [outputCoins_unspendable hu]
    linarith
  case false =>
  rw [outputCoins_spendable hu, map_cons, sum_cons, he]
  exact add_le_add_right hs _

lemma coins_value_le (ho : ∀ out ∈ tx.vout, 0 ≤ out.nValue) (n) :
    ((tx.coins n).map fun kv => kv.2.value).sum ≤ outputSum tx.vout := by
  have hz : tx.vout.zipIdx.map Prod.fst = tx.vout := zipIdx_map_fst ..
  have hl : ∀ p ∈ tx.vout.zipIdx, 0 ≤ p.1.nValue := fun p hp =>
    ho p.1 (hz ▸ mem_map_of_mem hp)
  exact hz ▸ outputCoins_value_le hl

def CTransaction.Within (tx : CTransaction) (S : Finset COutPoint) : Prop :=
  (∀ o ∈ tx.prevouts, o ∈ S) ∧ ∀ i < tx.vout.length, tx.outpoint i ∈ S

lemma mem_coins (h : kv ∈ tx.coins n) : ∃ i < tx.vout.length, kv.1 = tx.outpoint i := by
  have ⟨out, i, hm, _, he⟩ := mem_outputCoins h
  have hl := List.mk_mem_zipIdx_iff_getElem?.mp hm
  exact ⟨i, (List.getElem?_eq_some_iff.mp hl).choose, by rw [he]⟩

lemma Updated.total_le (h : Updated tx n view view' vprevout) (hS : tx.Within S)
    (hn : tx.prevouts.Nodup) (ho : ∀ out ∈ tx.vout, 0 ≤ out.nValue)
    (hnew : ∀ kv ∈ tx.coins n, eraseAll view.getCoin tx.prevouts kv.1 = none) :
    total Coin.value S view'.getCoin ≤ total Coin.value S view.getCoin -
      (tx.prevouts.map fun o => (view.getCoin o).elim 0 Coin.value).sum + outputSum tx.vout := by
  have hk : ∀ kv ∈ tx.coins n, kv.1 ∈ S := fun kv hkv => by
    have ⟨i, hi, he⟩ := mem_coins hkv
    exact he ▸ hS.2 i hi
  rw [h.updates.coins, total_insertAll hk (tx.coins_nodup n) hnew, total_eraseAll hS.1 hn]
  exact add_le_add_right (coins_value_le ho n) _

lemma inputSum_eq (hc : tx.isCoinBase = false) (hi : view.haveInputs tx) :
    (tx.prevouts.map fun o => (view.getCoin o).elim 0 Coin.value).sum = inputSum view tx.vin := by
  simp only [haveInputs, hc, Bool.false_or, all_eq_true] at hi
  simp only [CTransaction.prevouts, hc, Bool.false_eq_true, if_false, inputSum, map_map]
  refine congrArg sum (map_congr_left fun txin hm => ?_)
  obtain ⟨coin, hg⟩ := Option.isSome_iff_exists.mp (hi txin hm)
  simp [hg, accessCoin_of_getCoin hg, Coin.value]

end

section

variable {block : CBlock}

lemma checkTransaction_inRange (h : checkTransaction tx true = .ok ()) :
    OutputsInRange 0 tx.vout ∧ (tx.vin.map CTxIn.prevout).Nodup := by
  have ⟨_, h⟩ := seq_eq_ok.mp h
  have ⟨_, h⟩ := seq_eq_ok.mp h
  have ⟨_, h⟩ := seq_eq_ok.mp h
  have ⟨ho, h⟩ := seq_eq_ok.mp h
  have ⟨hd, _⟩ := seq_eq_ok.mp h
  exact ⟨checkOutputs_inRange (le_refl 0) (by decide) ho, by simpa [hasDuplicateInputs] using hd⟩

lemma checkContents_coinbase (h : checkContents block = .ok ()) :
    ∃ coinbase rest, block.vtx = coinbase :: rest ∧ coinbase.isCoinBase ∧
      ∀ tx ∈ rest, tx.isCoinBase = false := by
  obtain ⟨_, h⟩ := seq_eq_ok.mp h
  obtain ⟨hc, _⟩ := seq_eq_ok.mp h
  cases hv : block.vtx
  case nil => simp [hv, checkCoinbase, dos] at hc
  case cons coinbase rest =>
  rw [hv] at hc
  obtain ⟨hc, hr⟩ := seq_eq_ok.mp hc
  exact ⟨coinbase, rest, rfl, by simpa using hc, by simpa using hr⟩

variable [Crypto]

def CBlock.Memo (block : CBlock) : Prop :=
  block.fChecked → checkContents block = .ok ()

lemma checkBlock_contents (hm : block.Memo)
    (h : (checkBlock ctx block pindexPrev fCheckPOW fCheckMerkleRoot).1 = .ok ()) :
    checkContents block = .ok () := by
  simp only [checkBlock] at h
  split at h
  case isTrue hc => exact hm hc
  split at h
  case h_1 => cases h
  case h_2 hb => exact (checkBeforeMemo_ok.mp hb).2.2

end

namespace ConnectContext

variable {ctx : ConnectContext} {block : CBlock} {pindex : CBlockIndex} {tx : CTransaction}
  {totals totals' : Totals} {s s' : ConnectState} {i : Nat} {S : Finset COutPoint}

-- A transaction that the block's checks let through, in a view that hides none of its outputs.
structure Connectable (view : CCoinsViewCache) (S : Finset COutPoint) (tx : CTransaction) :
    Prop where
  outputs : OutputsInRange 0 tx.vout
  inputs : (tx.vin.map CTxIn.prevout).Nodup
  shown : ∀ i < tx.vout.length, view.Shown (tx.outpoint i)
  within : tx.Within S

lemma Connectable.updates (h : Connectable view S tx) (hu : Updates view view' m) :
    Connectable view' S tx :=
  { h with shown := fun i hi => hu.shown _ (h.shown i hi) }

lemma Connectable.prevouts_nodup (h : Connectable view S tx) : tx.prevouts.Nodup := by
  simp only [CTransaction.prevouts]
  split
  · exact nodup_nil
  · exact h.inputs

-- What is spent by transactions with inputs goes to their outputs and to the fees.
structure Spends (S : Finset COutPoint) (totals totals' : Totals) (s s' : ConnectState) : Prop where
  updates : Updates s.view s'.view s'.view.getCoin
  money : total Coin.value S s'.view.getCoin + totals'.nFees ≤
    total Coin.value S s.view.getCoin + totals.nFees
  fees : 0 ≤ totals'.nFees ∧ totals'.nFees ≤ MAX_MONEY

variable [Crypto]

section

variable (h : TransactionConnected ctx block pindex i tx totals totals' s s' vprevout added)
include h

lemma TransactionConnected.updated (ht : Connectable s.view S tx) (hv : s.view.Coherent) :
    s.view.haveInputs tx ∧ Updated tx (nHeight pindex) s.view s'.view vprevout := by
  have hf : s.view.haveInputs tx := by
    cases hc : tx.isCoinBase
    case true => simp [haveInputs, hc]
    case false =>
    obtain ⟨_, ⟨⟨_, _, hfee, _⟩, _⟩, _⟩ := h.inputs hc
    exact (checkTxInputs_paid ht.outputs hfee).1.found
  exact ⟨hf, hv.updateCoins_updated ht.inputs hf ht.shown h.coins⟩

lemma TransactionConnected.spends (hc : tx.isCoinBase = false) (ht : Connectable s.view S tx)
    (hv : s.view.Coherent) (hf : 0 ≤ totals.nFees ∧ totals.nFees ≤ MAX_MONEY) :
    Spends S totals totals' s s' := by
  have ⟨totals1, ⟨⟨txfee, _, hfee, hm, hn, _⟩, _⟩, hn1, _⟩ := h.inputs hc
  have ⟨hp, _⟩ := checkTxInputs_paid ht.outputs hfee
  have ⟨_, hu⟩ := h.updated ht hv
  have hl := hu.total_le ht.within ht.prevouts_nodup ht.outputs.nonneg (hu.new hc)
  have hs : FitsInt64 (totals.nFees + txfee) :=
    fitsInt64_of_le (by linarith [hp.nonneg]) (by linarith [hp.le])
  rw [wrap64_eq hs] at hm hn
  rw [inputSum_eq hc hp.found] at hl
  constructor
  case updates => exact hu.updates.coins ▸ hu.updates
  case money => rw [hn1, hn, hp.eq]; linarith
  case fees => rw [hn1, hn]; exact moneyRange_iff.mp hm

end

lemma TransactionsConnected.spends
    (h : TransactionsConnected ctx block pindex vtx totals totals' s s')
    (hc : ∀ p ∈ vtx, p.1.isCoinBase = false) (ht : ∀ p ∈ vtx, Connectable s.view S p.1)
    (hv : s.view.Coherent) (hf : 0 ≤ totals.nFees ∧ totals.nFees ≤ MAX_MONEY) :
    Spends S totals totals' s s' := by
  induction h
  case nil => exact ⟨Updates.refl hv, le_refl _, hf⟩
  case cons head _ hi =>
  have ⟨hc, hcs⟩ := forall_mem_cons.mp hc
  have ⟨ht, hts⟩ := forall_mem_cons.mp ht
  have h1 := head.spends hc ht hv hf
  have h2 := hi hcs (fun p hp => (hts p hp).updates h1.updates) h1.updates.coherent h1.fees
  exact ⟨h1.updates.trans h2.updates, h2.money.trans h1.money, h2.fees⟩

lemma TransactionConnected.plain
    (h : TransactionConnected ctx block pindex i tx totals totals' s s' vprevout added)
    (hi : ¬isCoinstake block i) (ho : OutputsInRange 0 tx.vout)
    (hf : 0 ≤ totals.nFees ∧ totals.nFees ≤ MAX_MONEY) :
    totals'.posReward = totals.posReward ∧ ∀ n ∈ added, FitsInt64 n := by
  cases hc : tx.isCoinBase
  case true =>
    have ⟨_, hp, ha⟩ := h.coinbase hc
    exact ⟨hp, by simp [ha]⟩
  have ⟨totals1, ⟨⟨txfee, rewardAmounts, hfee, _, _, ha, hr⟩, _⟩, _, hp1⟩ := h.inputs hc
  have ⟨hp, hff⟩ := checkTxInputs_paid ho hfee
  rw [if_neg hi] at hr
  have hs : FitsInt64 (totals.nFees + txfee) :=
    fitsInt64_of_le (by linarith [hp.nonneg]) (by linarith [hp.le])
  refine ⟨hp1.trans hr.1, fun n hn => ?_⟩
  rw [ha, hr.2, append_nil] at hn
  cases mem_append.mp hn
  case inl hn => exact hff n hn
  case inr hn => exact mem_singleton.mp hn ▸ hs

lemma TransactionsConnected.plain
    (h : TransactionsConnected ctx block pindex vtx totals totals' s s')
    (hi : ∀ p ∈ vtx, ¬isCoinstake block p.2)
    (hc : ∀ p ∈ vtx, p.1.isCoinBase = false) (ht : ∀ p ∈ vtx, Connectable s.view S p.1)
    (hv : s.view.Coherent) (hf : 0 ≤ totals.nFees ∧ totals.nFees ≤ MAX_MONEY) :
    totals'.posReward = totals.posReward ∧
    ∃ added, s'.amounts = s.amounts ++ added ∧ ∀ n ∈ added, FitsInt64 n := by
  induction h
  case nil => exact ⟨rfl, [], by simp, by simp⟩
  case cons head _ ih =>
  have ⟨hi, his⟩ := forall_mem_cons.mp hi
  have ⟨hc, hcs⟩ := forall_mem_cons.mp hc
  have ⟨ht, hts⟩ := forall_mem_cons.mp ht
  have h1 := head.spends hc ht hv hf
  have ⟨hp, ha⟩ := head.plain hi ht.outputs hf
  have ⟨hps, added, he, has⟩ :=
    ih his hcs (fun p hp => (hts p hp).updates h1.updates) h1.updates.coherent h1.fees
  refine ⟨hps.trans hp, _, by rw [he, head.amounts, append_assoc], fun n hn => ?_⟩
  exact (mem_append.mp hn).elim (ha n) (has n)

omit [Crypto] in
lemma getFee_fits : (getFee rate nSize).Fits FitsInt64 ↔ FitsInt64 (rate * nSize) := by
  simp [getFee]

lemma TransactionConnected.coinstake
    (h : TransactionConnected ctx block pindex i tx totals totals' s s' vprevout added)
    (hp : ctx.params.Sane) (hi : isCoinstake block i) (hc : tx.isCoinBase = false)
    (ho : OutputsInRange 0 tx.vout) (hf : 0 ≤ totals.nFees ∧ totals.nFees ≤ MAX_MONEY) :
    ∃ nCoinAge, getCoinAge ctx.params ctx.chainActive tx s.view block.nTime = some nCoinAge ∧
      InputsInRange ctx.params s.view (nHeight pindex) 0 tx.vin ∧
      totals'.posReward =
        (getProofOfStakeReward ctx.params (wrap64 nCoinAge) pindex.nPowHeight).val ∧
      ((∀ n ∈ added, FitsInt64 n) ↔ exactReward ctx.params nCoinAge pindex.nPowHeight < 2 ^ 63 ∧
        DEFAULT_TRANSACTION_MINFEE * tx.serializeSize < 2 ^ 63) := by
  have ⟨totals1, ⟨⟨txfee, rewardAmounts, hfee, _, _, ha, hr⟩, _⟩, _, hp1⟩ := h.inputs hc
  have ⟨hpd, hff⟩ := checkTxInputs_paid ho hfee
  rw [if_pos hi] at hr
  have ⟨nCoinAge, hg, hpr, hra⟩ := hr
  have hs : FitsInt64 (totals.nFees + txfee) :=
    fitsInt64_of_le (by linarith [hpd.nonneg]) (by linarith [hpd.le])
  have ⟨_, hx⟩ := getProofOfStakeReward_exact hp pindex.nPowHeight
    (getCoinAge_le_of_sane hp hpd.inputs hg)
  refine ⟨nCoinAge, hg, hpd.inputs, hp1.trans hpr, ?_⟩
  have hn : 0 ≤ DEFAULT_TRANSACTION_MINFEE * tx.serializeSize :=
    mul_nonneg (by decide) (Int.natCast_nonneg _)
  rw [← hx, ← fitsInt64_of_nonneg hn, ← getFee_fits, ha, hra]
  simp only [forall_mem_append]
  constructor
  · exact fun ⟨_, hfe, hre⟩ => ⟨hre, hfe⟩
  · exact fun ⟨hre, hfe⟩ => ⟨⟨hff, by simpa using hs⟩, hfe, hre⟩

lemma TransactionConnected.creates
    (h : TransactionConnected ctx block pindex 0 tx {} totals' s s' vprevout added)
    (hc : tx.isCoinBase) (ht : Connectable s.view S tx) (hv : s.view.Coherent)
    (hn : ∀ i < tx.vout.length, s.view.getCoin (tx.outpoint i) = none) :
    Updates s.view s'.view (insertAll s.view.getCoin (tx.coins (nHeight pindex))) ∧
    total Coin.value S s'.view.getCoin ≤ total Coin.value S s.view.getCoin + outputSum tx.vout := by
  obtain ⟨_, hu⟩ := h.updated ht hv
  have hp : tx.prevouts = [] := by simp [CTransaction.prevouts, hc]
  have hnew : ∀ kv ∈ tx.coins (nHeight pindex), eraseAll s.view.getCoin tx.prevouts kv.1 = none := by
    intro kv hk
    obtain ⟨i, hi, he⟩ := mem_coins hk
    rw [hp, he]
    exact hn i hi
  have hl := hu.total_le ht.within ht.prevouts_nodup ht.outputs.nonneg hnew
  have hup := hu.updates
  rw [hp] at hl hup
  exact ⟨hup, by simpa using hl⟩

def touched (block : CBlock) : Finset COutPoint :=
  (block.vtx.flatMap fun tx =>
    tx.prevouts ++ (range tx.vout.length).map tx.outpoint).toFinset

omit [Crypto] in
lemma within_of_touched (hm : tx ∈ block.vtx) (hS : touched block ⊆ S) : tx.Within S := by
  constructor
  case left =>
    intro o ho
    apply hS
    simp only [touched, mem_toFinset, mem_flatMap, mem_append]
    exact ⟨tx, hm, .inl ho⟩
  case right =>
  intro i hi
  apply hS
  simp only [touched, mem_toFinset, mem_flatMap, mem_append]
  exact ⟨tx, hm, .inr (mem_map_of_mem (mem_range.mpr hi))⟩

omit [Crypto] in
lemma connectable_of_contents (hc : checkContents block = .ok ()) (hn : NewOutputs block view)
    (hS : touched block ⊆ S) (hm : tx ∈ block.vtx) : Connectable view S tx := by
  have ⟨_, ht⟩ := checkContents_ok hc
  have ⟨ho, hi⟩ := checkTransaction_inRange (ht tx hm)
  exact ⟨ho, hi, fun i hi => shown_of_getCoin (hn tx hm i hi), within_of_touched hm hS⟩

-- How the loop over the transactions of a block begins: with the coinbase, and then the others.
structure LoopSplit (ctx : ConnectContext) (block : CBlock) (pindex : CBlockIndex) (totals : Totals)
    (s s' : ConnectState) (coinbase : CTransaction) (rest : List CTransaction) (totals1 : Totals)
    (s1 : ConnectState) : Prop where
  vtx : block.vtx = coinbase :: rest
  isFirst : coinbase.isCoinBase
  others : ∀ tx ∈ rest, tx.isCoinBase = false
  head : ∃ vprevout added,
    TransactionConnected ctx block pindex 0 coinbase {} totals1 s s1 vprevout added
  tail : TransactionsConnected ctx block pindex (rest.zipIdx 1) totals1 totals s1 s'

lemma LoopSplit.exists (hc : checkContents block = .ok ())
    (h : TransactionsConnected ctx block pindex block.vtx.zipIdx {} totals s s') :
    ∃ coinbase rest totals1 s1,
      LoopSplit ctx block pindex totals s s' coinbase rest totals1 s1 := by
  have ⟨coinbase, rest, hv, hf, ho⟩ := checkContents_coinbase hc
  rw [hv, zipIdx_cons] at h
  cases h
  case cons head tail => exact ⟨coinbase, rest, _, _, hv, hf, ho, ⟨_, _, head⟩, tail⟩

variable {coinbase : CTransaction} {rest : List CTransaction} {totals1 : Totals} {s1 : ConnectState}

section

variable (h : LoopSplit ctx block pindex totals s s' coinbase rest totals1 s1)
include h

lemma LoopSplit.first (hc : checkContents block = .ok ()) (hn : NewOutputs block s.view)
    (hv : s.view.Coherent) (hS : touched block ⊆ S) :
    Updates s.view s1.view (insertAll s.view.getCoin (coinbase.coins (nHeight pindex))) ∧
    total Coin.value S s1.view.getCoin ≤
      total Coin.value S s.view.getCoin + outputSum coinbase.vout ∧
    totals1.nFees = 0 ∧ totals1.posReward = 0 ∧ s1.amounts = s.amounts := by
  have ⟨_, _, hd⟩ := h.head
  have hm : coinbase ∈ block.vtx := by simp [h.vtx]
  have ⟨hu, ht⟩ := hd.creates h.isFirst (connectable_of_contents hc hn hS hm) hv (hn _ hm)
  have ⟨hf, hp, ha⟩ := hd.coinbase h.isFirst
  exact ⟨hu, ht, hf, hp, by rw [hd.amounts, ha, append_nil]⟩

lemma LoopSplit.mem_rest (hp : p ∈ rest.zipIdx n) : p.1 ∈ rest ∧ p.1 ∈ block.vtx := by
  have hr : p.1 ∈ rest := by
    have hm := mem_map_of_mem (f := Prod.fst) hp
    rwa [zipIdx_map_fst] at hm
  exact ⟨hr, by simp [h.vtx, hr]⟩

section

variable (hc : checkContents block = .ok ()) (hn : NewOutputs block s.view) (hv : s.view.Coherent)
  (hS : touched block ⊆ S)
include hc hn hv hS

lemma LoopSplit.connectable : ∀ p ∈ rest.zipIdx 1, Connectable s1.view S p.1 := by
  have ⟨hu, _⟩ := h.first hc hn hv hS
  exact fun p hp => (connectable_of_contents hc hn hS (h.mem_rest hp).2).updates hu

lemma LoopSplit.spends : Spends S totals1 totals s1 s' := by
  have ⟨hu, _, hf, _⟩ := h.first hc hn hv hS
  exact h.tail.spends (fun p hp => h.others _ (h.mem_rest hp).1) (h.connectable hc hn hv hS)
    hu.coherent (by rw [hf]; decide)

end

end

omit [Crypto] in
lemma blockSubsidy_fits (hp : FitsInt64 posReward) :
    FitsInt64 (ctx.blockSubsidy block pindex posReward).val := by
  simp only [blockSubsidy]
  split
  · have ⟨hl, hu, _⟩ := @getBlockSubsidy_le ctx.params pindex.nPowHeight
    exact fitsInt64_of_le hl (by simp only [MAX_MONEY, COIN] at hu ⊢; linarith)
  · exact hp

section

variable (h : LoopSplit ctx block pindex totals s s' coinbase rest totals1 s1)
  (hc : checkContents block = .ok ())
include h hc

lemma LoopSplit.payer_eq (hr : RewardChecked ctx block pindex totals payer valueOut added) :
    payer = coinbase ∧ valueOut = outputSum coinbase.vout ∧ OutputsInRange 0 coinbase.vout := by
  have hm : coinbase ∈ block.vtx := by simp [h.vtx]
  have he : payer = coinbase := by simpa [h.vtx, eq_comm] using hr.head
  have ⟨ho, _⟩ := checkTransaction_inRange ((checkContents_ok hc).2 _ hm)
  have hv := hr.value
  rw [he, (getValueOut_eq ho).1] at hv
  exact ⟨he, (Option.some.inj hv).symm, ho⟩

section

variable (hn : NewOutputs block s.view) (hv : s.view.Coherent) (hS : touched block ⊆ S)
  (hp : FitsInt64 totals.posReward)
  (hr : RewardChecked ctx block pindex totals payer valueOut added)
include hn hv hS hp hr

lemma LoopSplit.total_le :
    total Coin.value S s'.view.getCoin ≤ total Coin.value S s.view.getCoin +
      (ctx.blockSubsidy block pindex totals.posReward).val := by
  have ⟨_, ht, hf, _⟩ := h.first hc hn hv hS
  have hs := h.spends hc hn hv hS
  have ⟨_, hvo, _⟩ := h.payer_eq hc hr
  have hb : FitsInt64 (ctx.blockSubsidy block pindex totals.posReward).val := blockSubsidy_fits hp
  have hw := wrap64_le (by linarith [hs.fees.1, hb.1] :
    -(2 ^ 63) ≤ totals.nFees + (ctx.blockSubsidy block pindex totals.posReward).val)
  have hle := hr.le
  have hmo := hs.money
  linarith

lemma LoopSplit.reward_fits : ∀ n ∈ added, FitsInt64 n := by
  have hs := h.spends hc hn hv hS
  have ⟨he, hvo, ho⟩ := h.payer_eq hc hr
  have hb : FitsInt64 (ctx.blockSubsidy block pindex totals.posReward).val := blockSubsidy_fits hp
  have hpos := outputSum_nonneg ho.nonneg
  have hle := hr.le
  have hfu := hs.fees.2
  simp only [MAX_MONEY, COIN] at hfu
  have hlt := lt_of_wrap64_nonneg (by linarith) (by linarith [hb.2] :
    totals.nFees + (ctx.blockSubsidy block pindex totals.posReward).val < 2 ^ 64)
  have hsum : FitsInt64 (totals.nFees + (ctx.blockSubsidy block pindex totals.posReward).val) :=
    ⟨by linarith [hs.fees.1, hb.1], hlt⟩
  have hsub : (ctx.blockSubsidy block pindex totals.posReward).Fits FitsInt64 := by
    simp only [blockSubsidy]
    split
    · exact (getBlockSubsidy_le _).2.2.2
    · simp
  rw [hr.added, he]
  simp only [forall_mem_append]
  exact ⟨⟨hsub, by simpa using hsum⟩, (getValueOut_eq ho).2⟩

end

end

def stakeAge (ctx : ConnectContext) (block : CBlock) (view : CCoinsViewCache) : Nat :=
  (block.vtx[1]?.bind fun coinstake =>
    getCoinAge ctx.params ctx.chainActive coinstake view block.nTime).getD 0

-- What keeps the amounts of a coinstake in range: the minimal fee and the reward are the only
-- products whose factors are not bounded by the checks before them.
def RewardFits (ctx : ConnectContext) (block : CBlock) (pindex : CBlockIndex)
    (view : CCoinsViewCache) : Prop :=
  block.isProofOfStake → ∀ coinstake ∈ block.vtx[1]?,
    exactReward ctx.params (stakeAge ctx block view) pindex.nPowHeight < 2 ^ 63 ∧
    DEFAULT_TRANSACTION_MINFEE * coinstake.serializeSize < 2 ^ 63

omit [Crypto] in
lemma getCoin_of_mature
    (hu : Updates view view' (insertAll view.getCoin (coinbase.coins n)))
    (hc : coinbase.isCoinBase) (hm : InputsInRange ctx.params view' n 0 tx.vin) :
    ∀ txin ∈ tx.vin, view'.getCoin txin.prevout = view.getCoin txin.prevout := by
  intro txin hmem
  rw [hu.coins]
  by_cases hk : txin.prevout ∈ (coinbase.coins n).map Prod.fst
  case neg => exact insertAll_not_mem hk
  have ⟨coin, hcm, hg⟩ := @exists_of_insertAll _ _ _ view.getCoin _ _ hk
  rw [← hu.coins] at hg
  have ⟨out, _, _, _, he⟩ := mem_outputCoins hcm
  have hco : coin = coinbase.coin n out := (Prod.ext_iff.mp he).2
  have him := (hm.coins txin hmem).2
  rw [accessCoin_of_getCoin hg, hco] at him
  have hmat : 0 < coinMaturity ctx.params n := by
    simp only [coinMaturity]
    split <;> decide
  simp [spendsImmature, CTransaction.coin, Coin.isCoinBase, hc] at him
  omega

lemma LoopSplit.amounts (h : LoopSplit ctx block pindex totals s s' coinbase rest totals1 s1)
    (hp : ctx.params.Sane) (hc : checkContents block = .ok ()) (hn : NewOutputs block s.view)
    (hv : s.view.Coherent) (hS : touched block ⊆ S)
    (hst : block.isProofOfStake → ∃ coinstake, block.vtx[1]? = some coinstake) :
    FitsInt64 totals.posReward ∧
    (block.isProofOfStake → totals.posReward = (getProofOfStakeReward ctx.params
      (wrap64 (stakeAge ctx block s.view)) pindex.nPowHeight).val) ∧
    ∃ added, s'.amounts = s.amounts ++ added ∧
      ((∀ n ∈ added, FitsInt64 n) ↔ RewardFits ctx block pindex s.view) := by
  have ⟨hu, _, hf, hpr, ha⟩ := h.first hc hn hv hS
  have hcn := h.connectable hc hn hv hS
  have hno p (hm : p ∈ rest.zipIdx 1) := h.others _ (h.mem_rest hm).1
  have hf1 : 0 ≤ totals1.nFees ∧ totals1.nFees ≤ MAX_MONEY := by rw [hf]; decide
  cases hs : block.isProofOfStake
  case false =>
    have hi : ∀ p ∈ rest.zipIdx 1, ¬isCoinstake block p.2 := by simp [isCoinstake, hs]
    have ⟨hpo, added, hae, haf⟩ := h.tail.plain hi hno hcn hu.coherent hf1
    refine ⟨by rw [hpo, hpr]; decide, nofun, added, by rw [hae, ha], ?_⟩
    exact ⟨fun _ => by simp [RewardFits, hs], fun _ => haf⟩
  have ⟨coinstake, hst⟩ := hst hs
  have ⟨rest', hr⟩ : ∃ rest', rest = coinstake :: rest' := by
    cases rest
    case nil => simp [h.vtx] at hst
    case cons tx rest' => exact ⟨rest', by simpa [h.vtx] using hst⟩
  have hi : isCoinstake block 1 := by simp [isCoinstake, hs]
  have hi2 : ∀ p ∈ rest'.zipIdx 2, ¬isCoinstake block p.2 := fun p hm => by
    have hl := le_snd_of_mem_zipIdx hm
    simp only [isCoinstake, Bool.and_eq_true, decide_eq_true_eq]
    omega
  have ht := h.tail
  rw [hr, zipIdx_cons] at ht hno hcn
  have ⟨hno1, hno2⟩ := forall_mem_cons.mp hno
  have ⟨hcn1, hcn2⟩ := forall_mem_cons.mp hcn
  cases ht
  case cons head tail =>
  have ⟨nCoinAge, hg, hin, hpo, hiff⟩ := head.coinstake hp hi hno1 hcn1.outputs hf1
  have hsp := head.spends hno1 hcn1 hu.coherent hf1
  have ⟨hpo2, added, hae, haf⟩ := tail.plain hi2 hno2
    (fun p hm => (hcn2 p hm).updates hsp.updates) hsp.updates.coherent hsp.fees
  -- The coinstake spends no output of the coinbase, so its age is that in the view before.
  have hage : stakeAge ctx block s.view = nCoinAge := by
    rw [getCoinAge_congr (getCoin_of_mature hu h.isFirst hin)] at hg
    simp [stakeAge, hst, hg]
  have hx := (getProofOfStakeReward_exact hp pindex.nPowHeight
    (getCoinAge_le_of_sane hp hin hg)).1
  refine ⟨?_, fun _ => by rw [hpo2, hpo, hage], _, by rw [hae, head.amounts, ha, append_assoc], ?_⟩
  · rw [hpo2, hpo, hx]
    exact wrap64_fits _
  simp only [forall_mem_append, hiff, and_iff_left haf, RewardFits, hs, hst, hage,
    Option.mem_some_iff, forall_eq', forall_true_left]

lemma ContentsConnected.money
    (h : ContentsConnected ctx block pindex fJustCheck s s' totals s1 payer valueOut added)
    (hp : ctx.params.Sane) (hc : checkContents block = .ok ()) (hv : s.view.Coherent)
    (hst : block.isProofOfStake → ∃ coinstake, block.vtx[1]? = some coinstake) :
    s'.view.totalValue ≤ s.view.totalValue +
      (ctx.blockSubsidy block pindex (getProofOfStakeReward ctx.params
        (wrap64 (stakeAge ctx block s.view)) pindex.nPowHeight).val).val ∧
    ∃ added, s'.amounts = s.amounts ++ added ∧
      ((∀ n ∈ added, FitsInt64 n) ↔ RewardFits ctx block pindex s.view) := by
  have hS : touched block ⊆ s.view.support ∪ s'.view.support ∪ touched block :=
    Finset.subset_union_right
  have ⟨coinbase, rest, totals1, _, hl⟩ := LoopSplit.exists hc h.transactions
  have ⟨hpf, hpe, added1, ha, hiff⟩ := hl.amounts hp hc h.new hv hS hst
  have hle := hl.total_le hc h.new hv hS hpf h.reward
  have hview : s'.view.getCoin = s1.view.getCoin ∧ s'.amounts = s1.amounts ++ added := by
    rw [h.final, stored]
    split
    · exact ⟨rfl, rfl⟩
    simp only [setBestBlock, writeUndoDataForBlock]
    split <;> exact ⟨rfl, rfl⟩
  constructor
  case left =>
    have hsub : ctx.blockSubsidy block pindex totals.posReward =
        ctx.blockSubsidy block pindex (getProofOfStakeReward ctx.params
          (wrap64 (stakeAge ctx block s.view)) pindex.nPowHeight).val := by
      by_cases hs : block.isProofOfStake
      · rw [hpe hs]
      · simp [blockSubsidy, CBlock.isProofOfWork, hs]
    have h1 : s.view.support ⊆ s.view.support ∪ s'.view.support ∪ touched block :=
      Finset.subset_union_left.trans Finset.subset_union_left
    have h2 : s'.view.support ⊆ s.view.support ∪ s'.view.support ∪ touched block :=
      Finset.subset_union_right.trans Finset.subset_union_left
    rw [CCoinsViewCache.totalValue_eq h2, CCoinsViewCache.totalValue_eq h1, hview.1, ← hsub]
    exact hle
  case right =>
  have hrf := hl.reward_fits hc h.new hv hS hpf h.reward
  refine ⟨added1 ++ added, by rw [hview.2, ha, append_assoc], ?_⟩
  simp only [forall_mem_append, and_iff_left hrf, hiff]

omit [Crypto] in
lemma checkBlockAmounts_fits (hc : checkContents block = .ok ()) :
    (checkBlockAmounts block).Fits FitsInt64 := by
  simp only [checkBlockAmounts, Traced.Fits]
  split
  · simp
  intro n hn
  obtain ⟨tx, hm, hn⟩ := mem_flatMap.mp hn
  exact (checkTransaction_inRange ((checkContents_ok hc).2 tx hm)).1.fits n hn

-- What a block may add to the value of all coins. The coinbase of the genesis block is not connected.
def scheduled (ctx : ConnectContext) (block : CBlock) (pindex : CBlockIndex)
    (view : CCoinsViewCache) : CAmount :=
  if block.getHash = ctx.params.hashGenesisBlock then 0 else
  if block.isProofOfWork then (getBlockSubsidy ctx.params pindex.nPowHeight).val
  else (getProofOfStakeReward ctx.params (wrap64 (stakeAge ctx block view)) pindex.nPowHeight).val

omit [Crypto] in
lemma blockSubsidy_val : (ctx.blockSubsidy block pindex posReward).val =
    if block.isProofOfWork then (getBlockSubsidy ctx.params pindex.nPowHeight).val
    else posReward := by
  rw [blockSubsidy]
  split <;> rfl

-- No connected block adds more to the value of all coins than is scheduled for it. The operations on
-- amounts that are made on the way do not overflow, except for the products that are computed for a
-- coinstake, and for these it is known when they do.
theorem connectBlock_money (hp : ctx.params = Params.mainNet ∨ ctx.params = Params.testNet)
    (hm : block.Memo) (hv : s.view.Coherent)
    (h : ctx.connectBlock block pindex fJustCheck { s with amounts := [] } = .ok () s') :
    s'.view.totalValue ≤ s.view.totalValue + scheduled ctx block pindex s.view ∧
    ((∀ n ∈ s'.amounts, FitsInt64 n) ↔
      block.getHash = ctx.params.hashGenesisBlock ∨ RewardFits ctx block pindex s.view) := by
  have hp : ctx.params.Sane := by
    rcases hp with hp | hp <;> rw [hp]
    · exact Params.mainNet_sane
    · exact Params.testNet_sane
  have ⟨hb, st, h⟩ := connectBlock_ok h
  have hc := checkBlock_contents hm hb.checked
  have hcf := checkBlockAmounts_fits hc
  split at h
  case isTrue hg =>
    have hview : s'.view.totalValue = s.view.totalValue ∧
        s'.amounts = (checkBlockAmounts block).exact := by
      rw [h]
      split <;> exact ⟨rfl, rfl⟩
    rw [hview.1, hview.2, scheduled, if_pos hg]
    exact ⟨by simp, fun _ => .inl hg, fun _ => hcf⟩
  case isFalse hg =>
  have ⟨_, _, _, _, _, h⟩ := connectContents_ok h
  have ⟨hle, added, ha, hiff⟩ := h.money hp hc hv hb.coinstake
  constructor
  case left =>
    rw [scheduled, if_neg hg, ← blockSubsidy_val]
    exact hle
  case right =>
  rw [ha, or_iff_right hg]
  simp only [forall_mem_append]
  exact ⟨fun ⟨_, h⟩ => hiff.mp h, fun h => ⟨hcf, hiff.mpr h⟩⟩

section

-- The block and chain of the examples: almost the whole supply is staked at the time `nTime`.

abbrev acceptsSignatures : Crypto :=
  { Crypto.additive with verify := fun _ _ _ => true }

def stakedOutput (nValue : CAmount) : CTxOut where
  nValue := nValue
  scriptPubKey := 0x21 :: 0x02 :: replicate 32 0 ++ [OP_CHECKSIG]

def stakedOutPoint : COutPoint where
  hash := 5
  n := 0

def stakedCoins : CCoinsView where
  getCoin out :=
    if out = stakedOutPoint then
      some { out := stakedOutput MAX_MONEY, nHeight := 1, fCoinBase := false }
    else none
  getBestBlock := 1000
  finite := by
    apply (Set.finite_singleton stakedOutPoint).subset
    intro out h
    by_contra hne
    exact h (if_neg hne)

def stakedCoin : Coin where
  out := stakedOutput MAX_MONEY
  nHeight := 1
  fCoinBase := false

omit [Crypto] in
lemma stakedCoins_getCoin (h : (CCoinsViewCache.onto stakedCoins).getCoin out = some coin) :
    out = stakedOutPoint ∧ coin = stakedCoin := by
  rw [getCoin_uncached (by simp [onto]), CCoinsView.unspent] at h
  obtain ⟨hg, _⟩ := Option.filter_eq_some_iff.mp h
  by_cases ho : out = stakedOutPoint
  · rw [ho] at hg
    exact ⟨ho, (Option.some.inj hg).symm⟩
  · simp [onto, stakedCoins, ho] at hg

def stakeChain : CBlockIndex :=
  (range 21).map fun i =>
    { hash := 1000 + i
      nVersion := 2
      hashMerkleRoot := 0
      nTime := 1590000000 - 4500000 * i
      nBits := 0
      nNonce := 0
      fProofOfStake := false }

def stakeBlock (nTime : Nat) : CBlock where
  nVersion := 2
  hashPrevBlock := 1000
  hashMerkleRoot := 15
  nTime := nTime
  nBits := 0x1d00ffff
  nNonce := 0
  nFlags := BLOCK_PROOF_OF_STAKE
  vtx := [emptyCoinbase,
    { vin := [{ prevout := stakedOutPoint }]
      vout := [stakedOutput (MAX_MONEY - COIN)]
      hash := 8
      witnessHash := 8 }]
  vchBlockSig := [1]

def stakeEntry (nTime : Nat) : CBlockIndex :=
  @IndexHeader.ofHeader acceptsSignatures (stakeBlock nTime).getBlockHeader :: stakeChain

def stakeContext : ConnectContext where
  params := Params.testNet
  chainActive := stakeChain
  pcoinsTip := stakedCoins
  lookupBlockIndex _ := []
  readBlockFromDisk _ := none
  fAddressIndex := false
  fTxIndex := false
  checkInputs _ _ _ := .ok ()
  fScriptQueue := false

def stakeState : ConnectState where
  view := .onto stakedCoins
  addressIndex := { cache := ∅, db := fun _ => none }
  stake := { generated := fun _ => true, modifiers := fun _ => none, stakeHashes := fun _ => none }
  undo _ := none

def connectStake (nTime : Nat) : EStateM.Result Failure ConnectState Unit :=
  @connectBlock acceptsSignatures stakeContext (stakeBlock nTime) (stakeEntry nTime) false stakeState

omit [Crypto] in
theorem connectBlock_money_stake :
    ∃ s', connectStake 1600000000 = .ok () s' ∧
    s'.view.totalValue ≤ stakeState.view.totalValue +
      @scheduled acceptsSignatures stakeContext (stakeBlock 1600000000) (stakeEntry 1600000000)
        stakeState.view ∧
    ∀ n ∈ s'.amounts, FitsInt64 n := by
  have ⟨s', h, hf⟩ : ∃ s', connectStake 1600000000 = .ok () s' ∧ ∀ n ∈ s'.amounts, FitsInt64 n := by
    decide +kernel
  have hm := @connectBlock_money stakeContext (stakeBlock 1600000000) (stakeEntry 1600000000)
    stakeState s' acceptsSignatures false (.inr rfl) (by nofun)
    (CCoinsViewCache.over_coherent stakedCoins) h
  exact ⟨s', h, hm.1, hf⟩

omit [Crypto] in
theorem connectBlock_reward_overflows :
    ∃ s', connectStake 1900000000 = .ok () s' ∧ ∃ n ∈ s'.amounts, ¬FitsInt64 n := by
  decide +kernel

end

end ConnectContext

end Taler
