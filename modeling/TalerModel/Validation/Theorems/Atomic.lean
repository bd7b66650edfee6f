import TalerModel.Validation.Theorems.Disconnect
import TalerModel.Validation.Theorems.Reconnect

namespace Taler

open Check

namespace ConnectContext

open Connect EStateM PartialMap CAddressIndexDB CCoinsViewCache Ledger

variable {ctx : ConnectContext} {block : CBlock} {pindex : CBlockIndex} {tx : CTransaction}
  {totals totals' : Totals} {s s' : ConnectState} {i : Nat}

-- What the steps of a connection leave alone, whatever their outcome.

lemma get_keeps (h : ∀ s, Keeps part (f s)) : Keeps part (get >>= f) :=
  .bind (fun _ => rfl) h

lemma updateReward_keeps :
    (ctx.updateReward block pindex i tx txfee posReward).Keeps ConnectState.stores := by
  unfold updateReward
  split
  · refine get_keeps fun _ => traced_keeps.bind fun _ => check_keeps.bind fun _ => ?_
    split
    · exact check_keeps
    · exact traced_keeps
  · exact .pure _

lemma countSigOps_keeps : (ctx.countSigOps pindex tx totals).Keeps id :=
  get_keeps fun _ => check_keeps.bind fun _ => check_keeps.bind fun _ => .pure _

lemma checkScripts_keeps : (ctx.checkScripts pindex tx totals).Keeps id := by
  unfold checkScripts
  split
  · exact .pure _
  · exact get_keeps fun _ => check_keeps.bind fun _ => .pure _

lemma applyTransaction_keeps :
    (applyTransaction pindex i tx totals).Keeps ConnectState.addressIndex :=
  get_keeps fun _ => check_keeps.bind fun _ => .bind (fun _ => rfl) fun _ => .pure _

lemma checkReward_keeps : (ctx.checkReward block pindex totals).Keeps ConnectState.addressIndex := by
  have htraced {α : Type} {x : Traced α} : (traced x).Keeps ConnectState.addressIndex := fun _ => rfl
  refine htraced.bind fun _ => htraced.bind fun _ => ?_
  split
  · exact check_keeps
  refine htraced.bind fun valueOut => ?_
  cases valueOut
  case none => exact check_keeps
  case some => exact check_keeps

lemma storeBlock_keeps : (storeBlock pindex blockundo).Keeps ConnectState.addressIndex := by
  refine .bind (fun s => ?_) fun _ _ => rfl
  have hw : (writeUndoDataForBlock pindex blockundo s).addressIndex = s.addressIndex := by
    unfold writeUndoDataForBlock
    split <;> rfl
  exact hw

variable [Crypto]

lemma connectInputs_onError :
    (ctx.connectInputs block pindex i tx totals).KeepsOnError ConnectState.stores := by
  unfold connectInputs
  split
  · exact (Keeps.pure _).onError
  refine Keeps.bind_onError (fun _ => rfl) fun _ => traced_keeps.bind_onError fun _ =>
    check_keeps.bind_onError fun _ => traced_keeps.bind_onError fun _ =>
    check_keeps.bind_onError fun _ => updateReward_keeps.bind_onError fun _ =>
    check_keeps.bind_onError fun _ => ?_
  exact fun _ _ _ h => nomatch h

lemma connectTransaction_error
    (h : ctx.connectTransaction block pindex i tx totals s = .error e s') :
    s'.addressIndex = s.addressIndex ∧ ctx.connectInputs block pindex i tx totals s = .error e s' ∨
    ∃ totals1 s1, ctx.connectInputs block pindex i tx totals s = .ok totals1 s1 ∧
      (s'.addressIndex = s1.addressIndex ∨
        s'.addressIndex = ctx.indexOutputs pindex tx s1.addressIndex) := by
  cases bind_eq_error.mp h
  case inl hi => exact .inl ⟨congrArg Prod.snd (connectInputs_onError _ _ _ hi), hi⟩
  rename_i h
  have ⟨totals1, s1, hi, h⟩ := h
  refine .inr ⟨totals1, s1, hi, ?_⟩
  cases bind_eq_error.mp h
  case inl hc => exact .inl (congrArg _ (countSigOps_keeps.onError _ _ _ hc))
  rename_i h
  have ⟨totals2, s2, hc, h⟩ := h
  have hs2 := (countSigOps_ok hc).1
  cases bind_eq_error.mp h
  case inl hk => exact .inl ((congrArg _ (checkScripts_keeps.onError _ _ _ hk)).trans (by rw [hs2]; rfl))
  rename_i h
  have ⟨totals3, s3, hk, h⟩ := h
  have hs3 := (checkScripts_ok hk).1
  refine .inr ((applyTransaction_keeps.onError _ _ _ h).trans ?_)
  rw [hs3, hs2]

-- The checks that a transaction's inputs have to pass before anything is written for it.
structure InputsPass (ctx : ConnectContext) (block : CBlock) (pindex : CBlockIndex) (i : Nat)
    (tx : CTransaction) (view : CCoinsViewCache) (nFees txfee : CAmount) : Prop where
  fee : (checkTxInputs ctx.params ctx.chainActive tx view (nHeight pindex)
    pindex.getBlockTime).val = .ok txfee
  inRange : moneyRange (wrap64 (nFees + txfee))
  coinstake : isCoinstake block i →
    (getFee DEFAULT_TRANSACTION_MINFEE tx.serializeSize).val ≤ txfee ∧
    ∃ nCoinAge, getCoinAge ctx.params ctx.chainActive tx view block.nTime = some nCoinAge
  locks : ctx.checkSequenceLocks pindex tx view = .ok ()

omit [Crypto] in
lemma updateReward_returns_iff :
    (∃ reward s', ctx.updateReward block pindex i tx txfee posReward s = .ok reward s') ↔
      (isCoinstake block i →
        (getFee DEFAULT_TRANSACTION_MINFEE tx.serializeSize).val ≤ txfee ∧
        ∃ nCoinAge, getCoinAge ctx.params ctx.chainActive tx s.view block.nTime = some nCoinAge) := by
  unfold updateReward
  split
  case isTrue hc =>
    rw [coinstakeReward, bind_get, traced_bind]
    simp only [hc, true_implies, rejectIf_bind, exists_and_left, decide_eq_false_iff_not, not_lt]
    refine and_congr_right fun _ => ?_
    cases ha : getCoinAge ctx.params ctx.chainActive tx s.view block.nTime
    case none => simp [check, plainError]
    case some => simp [traced]
  case isFalse hc =>
    refine iff_of_true ⟨posReward, s, rfl⟩ fun h => absurd h hc

lemma connectInputs_returns_iff (hc : tx.isCoinBase = false) :
    (∃ totals' s', ctx.connectInputs block pindex i tx totals s = .ok totals' s') ↔
      ∃ txfee, InputsPass ctx block pindex i tx s.view totals.nFees txfee := by
  constructor
  · rintro ⟨totals', s', h⟩
    simp only [connectInputs, hc, Bool.false_eq_true, if_false, bind_get, traced_bind] at h
    obtain ⟨txfee, hf, h⟩ := check_bind.mp h
    obtain ⟨hm, h⟩ := rejectIf_bind.mp h
    obtain ⟨posReward, s1, hu, h⟩ := bind_eq_ok.mp h
    obtain ⟨_, hl, _⟩ := check_bind.mp h
    have hc := updateReward_returns_iff.mp ⟨posReward, s1, hu⟩
    exact ⟨txfee, hf, by simpa using hm, hc, hl⟩
  rintro ⟨txfee, h⟩
  have hm : (!moneyRange (amount (totals.nFees + txfee)).val) = false := by simpa using h.inRange
  obtain ⟨posReward, s1, hu⟩ : ∃ posReward s1,
      ctx.updateReward block pindex i tx txfee totals.posReward { s with
        amounts := s.amounts ++ (checkTxInputs ctx.params ctx.chainActive tx s.view
          (nHeight pindex) pindex.getBlockTime).exact ++ (amount (totals.nFees + txfee)).exact } =
        .ok posReward s1 :=
    updateReward_returns_iff.mpr h.coinstake
  refine ⟨{ totals with nFees := (amount (totals.nFees + txfee)).val, posReward := posReward },
    { s1 with addressIndex := ctx.indexSpent pindex tx s.view s1.addressIndex }, ?_⟩
  simp only [connectInputs, hc, Bool.false_eq_true, if_false, bind_get, traced_bind]
  refine check_bind.mpr ⟨txfee, h.fee, ?_⟩
  refine rejectIf_bind.mpr ⟨hm, ?_⟩
  rw [bind_of_ok hu]
  refine check_bind.mpr ⟨(), h.locks, ?_⟩
  rfl

section

variable {txOf : Uint256 → CTransaction} {seen : Uint256 → Prop} {ledger : Ledger}
  {S : Finset COutPoint} {out : COutPoint}

-- An output whose entry stays for the rest of a block: spent, or created by the coinbase.
structure Marked (pindex : CBlockIndex) (seen : Uint256 → Prop) (coins : COutPoint → Option Coin)
    (out : COutPoint) : Prop where
  seen : seen out.hash
  immature : ∀ coin, coins out = some coin → coin.isCoinBase ∧ coin.nHeight = nHeight pindex

section

omit [Crypto]

lemma exists_coin_of_checkTxInputs (hc : tx.isCoinBase = false) (hl : ledger.coins = view.getCoin)
    (hf : (checkTxInputs ctx.params ctx.chainActive tx view (nHeight pindex)
      pindex.getBlockTime).val = .ok txfee) :
    ∀ out ∈ tx.prevouts, ∃ coin, ledger.coins out = some coin ∧
      spendsImmature ctx.params coin (nHeight pindex) = false := by
  intro out ho
  have hall : ∀ txin ∈ tx.vin, view.haveCoin txin.prevout := by
    simpa [haveInputs, hc] using haveInputs_of_checkTxInputs hf
  obtain ⟨txin, hm, he⟩ : ∃ txin ∈ tx.vin, txin.prevout = out := by
    simpa [CTransaction.prevouts, hc] using ho
  obtain ⟨coin, hg⟩ := Option.isSome_iff_exists.mp (hall txin hm)
  have hmat := mature_of_checkTxInputs hf txin hm
  rw [accessCoin_of_getCoin hg] at hmat
  exact ⟨coin, by rw [hl, ← he, hg], hmat⟩

lemma Marked.not_mem_prevouts (h : Marked pindex seen ledger.coins out)
    (hi : ∀ out ∈ tx.prevouts, ∃ coin, ledger.coins out = some coin ∧
      spendsImmature ctx.params coin (nHeight pindex) = false) : out ∉ tx.prevouts := by
  intro ho
  have ⟨coin, hc, hm⟩ := hi out ho
  have ⟨hcb, hh⟩ := h.immature coin hc
  have hpos : 0 < coinMaturity ctx.params (nHeight pindex) := by
    unfold coinMaturity
    split <;> decide
  simp [spendsImmature, hcb, hh] at hm
  omega

lemma Marked.not_mem_coins (h : Marked pindex seen ledger.coins out) (hn : ¬seen tx.getHash) :
    out ∉ (tx.coins (nHeight pindex)).map Prod.fst :=
  not_mem_coins_of_ne fun he => hn (he ▸ h.seen)

end

lemma Marked.connect (h : Marked pindex seen ledger.coins out) (hp : out ∉ tx.prevouts)
    (hn : ¬seen tx.getHash) :
    Marked pindex (fun txid => txid = tx.getHash ∨ seen txid)
      (ledger.connect ctx pindex tx).coins out := by
  constructor
  case seen => exact .inr h.seen
  case immature =>
  rw [connect_coins_other hp (h.not_mem_coins hn)]
  exact h.immature

lemma connectTransaction_error_writes (hf : ctx.fAddressIndex) (hc : tx.isCoinBase = false)
    (h : ctx.connectTransaction block pindex i tx totals s = .error e s') :
    s'.addressIndex = s.addressIndex ∧ ctx.connectInputs block pindex i tx totals s = .error e s' ∨
    (∃ txfee, InputsPass ctx block pindex i tx s.view totals.nFees txfee) ∧
    ∃ created, (created = [] ∨ created = createdWrites pindex tx) ∧
      s'.addressIndex =
        s.addressIndex.writeAll (ctx.spentWrites pindex tx s.view.getCoin ++ created) := by
  refine (connectTransaction_error h).imp_right fun ⟨totals1, s1, hi, hx⟩ => ?_
  have ⟨txfee, hpass⟩ := (connectInputs_returns_iff hc).mp ⟨totals1, s1, hi⟩
  have ⟨_, _, hs1⟩ := connectInputs_ok hc hi
  have hspent : s1.addressIndex =
      s.addressIndex.writeAll (ctx.spentWrites pindex tx s.view.getCoin) := by
    rw [hs1]
    rw [indexSpent_eq hc (haveInputs_of_checkTxInputs hpass.fee), if_pos hf]
  refine ⟨⟨txfee, hpass⟩, ?_⟩
  cases hx
  case inl hx => exact ⟨[], .inl rfl, by rw [hx, hspent, List.append_nil]⟩
  rename_i hx
  refine ⟨createdWrites pindex tx, .inr rfl, ?_⟩
  rw [hx, indexOutputs_eq, if_pos hf, hspent]
  exact (List.foldl_append ..).symm

-- The outputs that the two parts of a transaction's writes are for.

lemma out_of_mem_spentWrites {coins : COutPoint → Option Coin}
    (h : w ∈ ctx.spentWrites pindex tx coins) : w.1.out ∈ tx.prevouts := by
  have ⟨⟨out, j⟩, hm, he⟩ := List.mem_map.mp h
  have hm := List.mem_map_of_mem (f := Prod.fst) hm
  rw [List.zipIdx_map_fst] at hm
  rw [← he]
  exact hm

lemma out_of_mem_createdWrites (h : w ∈ createdWrites pindex tx) :
    w.1.out ∈ (tx.coins (nHeight pindex)).map Prod.fst := by
  have ⟨kv, hm, he⟩ := List.mem_map.mp h
  rw [← he]
  exact List.mem_map_of_mem hm

lemma partial_filed (hf : ctx.fAddressIndex) (hc : ledger.Consistent ctx txOf seen)
    (ht : txOf tx.getHash = tx) (hi : ∀ out ∈ tx.prevouts, ∃ coin, ledger.coins out = some coin)
    (hcr : created = [] ∨ created = createdWrites pindex tx) :
    ∀ write ∈ ctx.spentWrites pindex tx ledger.coins ++ created,
      write.1.script = fileOf txOf write.1.out := by
  intro write hw
  apply @connectWrites_filed _ ctx pindex tx txOf ledger hc.toKnown (congrArg CTransaction.vout ht) hi
  rw [connectWrites, if_pos hf]
  cases List.mem_append.mp hw
  case inl hw => exact List.mem_append_left _ hw
  rename_i hw
  cases hcr
  case inl hcr => simp [hcr] at hw
  case inr hcr => exact List.mem_append_right _ (hcr ▸ hw)

section

variable (h : Marked pindex seen ledger.coins out) (hf : ctx.fAddressIndex)
include h hf

lemma Marked.error (hc : tx.isCoinBase = false) (hne : tx.prevouts ≠ [])
    (ht : txOf tx.getHash = tx) (hl : ledger.coins = s.view.getCoin)
    (hcon : ledger.Consistent ctx txOf seen) (hx : HoldsIndex txOf s.addressIndex ledger)
    (hr : ctx.connectTransaction block pindex i tx totals s = .error e s') :
    s'.addressIndex.record (fileOf txOf) out = s.addressIndex.record (fileOf txOf) out := by
  cases connectTransaction_error_writes hf hc hr
  case inl hr => rw [hr.1]
  rename_i hr
  have ⟨⟨txfee, hpass⟩, created, hcr, hr⟩ := hr
  have hi := exists_coin_of_checkTxInputs hc hl hpass.fee
  have hin out (ho : out ∈ tx.prevouts) : ∃ coin, ledger.coins out = some coin := by
    have ⟨coin, hcoin, _⟩ := hi out ho
    exact ⟨coin, hcoin⟩
  have ⟨out', ho'⟩ := List.exists_mem_of_ne_nil _ hne
  have ⟨coin', hc'⟩ := hin out' ho'
  have hn := hcon.unseen_of_coin ht ho' hc'
  rw [hr, ← hl]
  apply hx.1.writeAll_other (partial_filed hf hcon ht hin hcr)
  intro w hw he
  cases List.mem_append.mp hw
  case inl hw => exact h.not_mem_prevouts hi (he ▸ out_of_mem_spentWrites hw)
  rename_i hw
  cases hcr
  case inl hcr => simp [hcr] at hw
  case inr hcr => exact h.not_mem_coins hn (he ▸ out_of_mem_createdWrites (hcr ▸ hw))

lemma Marked.connectTransactions {rest : List CTransaction} (hp : 0 < nHeight pindex)
    (hc : ∀ tx ∈ rest, tx.isCoinBase = false ∧ tx.prevouts ≠ [])
    (ht : ∀ tx ∈ rest, txOf tx.getHash = tx) (hs : ∀ tx ∈ rest, Connectable s.view S tx)
    (hv : s.view.Coherent) (hl : ledger.coins = s.view.getCoin)
    (hcon : ledger.Consistent ctx txOf seen) (hx : HoldsIndex txOf s.addressIndex ledger) :
    (ctx.connectTransactions block pindex (rest.zipIdx k) totals s).final.addressIndex.record
      (fileOf txOf) out = s.addressIndex.record (fileOf txOf) out := by
  induction rest generalizing k totals s ledger seen
  case nil => rfl
  case cons tx rest hi =>
  have ⟨⟨hcb, hne⟩, hcs⟩ := List.forall_mem_cons.mp hc
  have ⟨ht, hts⟩ := List.forall_mem_cons.mp ht
  have ⟨hs, hss⟩ := List.forall_mem_cons.mp hs
  rw [List.zipIdx_cons, ConnectContext.connectTransactions]
  cases hr : ctx.connectTransaction block pindex k tx totals s
  case error => rw [bind_of_error hr]; exact h.error hf hcb hne ht hl hcon hx hr
  rename_i totals1 s1
  rw [bind_of_ok hr]
  have ⟨vprevout, added, hd⟩ := connectTransaction_ok hr
  have ⟨ha, hu, hw⟩ := hd.refines hs hv (by simp [hcb]) hl
  have ⟨_, hpass, _⟩ := hd.inputs hcb
  have ⟨txfee, _, hfee, _⟩ := hpass.fee
  have hn := hcon.unseen ht ha hne
  have ho := h.not_mem_prevouts (exists_coin_of_checkTxInputs hcb hl hfee)
  have hx1 : HoldsIndex txOf s1.addressIndex (ledger.connect ctx pindex tx) :=
    hw ▸ hx.connect hcon.toKnown (congrArg CTransaction.vout ht) fun _ => ha.prevout
  rw [hi (h.connect ho hn) hcs hts (fun tx hm => (hss tx hm).updates hu) hu.coherent
    hu.coins.symm (hcon.connect ht ha hn hp) hx1, hx1.2, hx.2]
  exact connect_records_other ho (h.not_mem_coins hn)

end

lemma connectTransaction_coinbase (hc : tx.isCoinBase)
    (hs : getLegacySigOpCount tx * WITNESS_SCALE_FACTOR ≤ MAX_BLOCK_SIGOPS_COST) :
    ctx.connectTransaction block pindex i tx {} s =
      applyTransaction pindex i tx
        { nSigOpsCost := 0 + getLegacySigOpCount tx * WITNESS_SCALE_FACTOR }
        { s with addressIndex := ctx.indexOutputs pindex tx s.addressIndex } := by
  have hi : ctx.connectInputs block pindex i tx {} s = .ok {} s := by
    simp only [connectInputs, hc, if_true]
    rfl
  have hg : ctx.countSigOps pindex tx {} s =
      .ok { nSigOpsCost := 0 + getLegacySigOpCount tx * WITNESS_SCALE_FACTOR } s := by
    have hcost : getTransactionSigOpCost tx s.view (getBlockScriptFlags pindex ctx.params) =
        .ok (getLegacySigOpCount tx * WITNESS_SCALE_FACTOR) := by
      simp [getTransactionSigOpCost, hc]
    refine check_bind.mpr ⟨_, hcost, rejectIf_bind.mpr ⟨?_, rfl⟩⟩
    simpa using hs
  have hk totals : ctx.checkScripts pindex tx totals s = .ok totals s := by
    simp only [checkScripts, hc, if_true]
    rfl
  rw [connectTransaction, bind_of_ok hi, bind_of_ok hg, bind_of_ok (hk _)]
  rfl

omit [Crypto] in
lemma addOutputs_unspendable (hu : ∀ p ∈ vout, p.1.scriptPubKey.isUnspendable)
    (hn : ∀ p ∈ vout, p.1.isNull = false) : addOutputs tx n fCheck vout view = .ok view := by
  induction vout
  case nil => rfl
  case cons p vout hi =>
  have ⟨hu, hus⟩ := List.forall_mem_cons.mp hu
  have ⟨hn, hns⟩ := List.forall_mem_cons.mp hn
  have ha overwrite : view.addCoin (tx.outpoint p.2) (tx.coin n p.1) overwrite = .ok view := by
    have hsp : (tx.coin n p.1).isSpent = false := hn
    have hus : (tx.coin n p.1).out.scriptPubKey.isUnspendable := hu
    simp [addCoin, hsp, hus]
  rw [addOutputs, ha]
  exact hi hus hns

omit [Crypto] in
lemma updateCoins_unlisted {view : CCoinsViewCache} (hc : tx.isCoinBase)
    (hk : tx.coins n = []) (ho : OutputsInRange 0 tx.vout) :
    view.updateCoins tx n = .ok ([], view) := by
  have hu : ∀ p ∈ tx.vout.zipIdx, p.1.scriptPubKey.isUnspendable := by
    simpa [CTransaction.coins, outputCoins] using hk
  have hn : ∀ p ∈ tx.vout.zipIdx, p.1.isNull = false := by
    intro p hp
    have hm := List.mem_map_of_mem (f := Prod.fst) hp
    rw [List.zipIdx_map_fst] at hm
    have hpos := ho.nonneg p.1 hm
    exact decide_eq_false fun he => absurd (he ▸ hpos) (by decide)
  have hm : view.markInputsSpent tx = .ok ([], view) := if_pos hc
  exact bind_eq_ok.mpr ⟨_, hm, bind_eq_ok.mpr ⟨_, addOutputs_unspendable hu hn, rfl⟩⟩

structure LoopBegins (ctx : ConnectContext) (block : CBlock) (pindex : CBlockIndex)
    (txOf : Uint256 → CTransaction) (seen : Uint256 → Prop) (s : ConnectState) (ledger : Ledger) :
    Prop where
  height : 0 < nHeight pindex
  contents : checkContents block = .ok ()
  outputs : NewOutputs block s.view
  new : NewBlock txOf seen block
  coherent : s.view.Coherent
  coins : ledger.coins = s.view.getCoin
  consistent : ledger.Consistent ctx txOf seen
  index : HoldsIndex txOf s.addressIndex ledger

omit [Crypto] in
lemma contents_split (h : checkContents block = .ok ()) :
    ∃ coinbase rest, block.vtx = coinbase :: rest ∧ coinbase.isCoinBase ∧
      (∀ tx ∈ rest, tx.isCoinBase = false ∧ tx.prevouts ≠ []) ∧
      getLegacySigOpCount coinbase * WITNESS_SCALE_FACTOR ≤ MAX_BLOCK_SIGOPS_COST := by
  have ⟨coinbase, rest, hvtx, hcb, hrest⟩ := checkContents_coinbase h
  have ⟨_, htx⟩ := checkContents_ok h
  have ⟨_, h⟩ := seq_eq_ok.mp h
  have ⟨_, h⟩ := seq_eq_ok.mp h
  have ⟨_, hsig⟩ := seq_eq_ok.mp h
  refine ⟨coinbase, rest, hvtx, hcb, fun tx hm => ⟨hrest tx hm, ?_⟩, ?_⟩
  · exact prevouts_ne_nil (htx tx (by simp [hvtx, hm])) (hrest tx hm)
  have hle : ¬(block.vtx.map getLegacySigOpCount).sum * WITNESS_SCALE_FACTOR >
      MAX_BLOCK_SIGOPS_COST := by simpa using hsig
  rw [hvtx, List.map_cons, List.sum_cons, Nat.add_mul] at hle
  omega

lemma LoopBegins.created_marks (h : LoopBegins ctx block pindex txOf seen s ledger)
    (hf : ctx.fAddressIndex) (hvtx : block.vtx = coinbase :: rest) (hcb : coinbase.isCoinBase)
    (hrest : ∀ tx ∈ rest, tx.isCoinBase = false ∧ tx.prevouts ≠ [])
    (hsig : getLegacySigOpCount coinbase * WITNESS_SCALE_FACTOR ≤ MAX_BLOCK_SIGOPS_COST)
    (hm : (out, coin) ∈ coinbase.coins (nHeight pindex)) :
    (ctx.connectTransactions block pindex block.vtx.zipIdx {} s).final.addressIndex.record
      (fileOf txOf) out ≠ s.addressIndex.record (fileOf txOf) out := by
  obtain ⟨hbound, hcoin⟩ := h.new
  rw [hvtx] at hbound hcoin
  obtain ⟨hb, hbs⟩ := List.forall_mem_cons.mp hbound
  have hn := hcoin _ rfl
  have hnone : coinbase.prevouts = [] := by simp [CTransaction.prevouts, hcb]
  have hold : s.addressIndex.record (fileOf txOf) out = none := by
    rw [h.index.2]
    exact h.consistent.record_none hn hm
  have hwrites : ctx.indexOutputs pindex coinbase s.addressIndex =
      s.addressIndex.writeAll (ctx.connectWrites pindex coinbase ledger.coins) := by
    have hs : ctx.spentWrites pindex coinbase ledger.coins = [] := by simp [spentWrites, hnone]
    rw [indexOutputs_eq, connectWrites, hs, List.nil_append]
  have hx1 : HoldsIndex txOf (ctx.indexOutputs pindex coinbase s.addressIndex)
      (ledger.connect ctx pindex coinbase) :=
    hwrites ▸ h.index.connect h.consistent.toKnown (congrArg CTransaction.vout hb) (by simp [hnone])
  have hnew : (ctx.indexOutputs pindex coinbase s.addressIndex).record (fileOf txOf) out =
      some coin.entry := by
    rw [hx1.2]
    exact connect_records_new hf h.height hm
  suffices hfinal : (ctx.connectTransactions block pindex block.vtx.zipIdx {} s).final.addressIndex.record
      (fileOf txOf) out = some coin.entry by
    rw [hfinal, hold]
    simp
  rw [hvtx, List.zipIdx_cons, ConnectContext.connectTransactions]
  cases hr : ctx.connectTransaction block pindex 0 coinbase {} s
  case error e s' =>
    rw [bind_of_error hr]
    rw [connectTransaction_coinbase hcb hsig] at hr
    have hk := applyTransaction_keeps.onError _ _ _ hr
    exact (congrArg (CAddressIndexDB.record (fileOf txOf) · out) hk).trans hnew
  rename_i totals1 s1
  rw [bind_of_ok hr]
  have hmem : coinbase ∈ block.vtx := by simp [hvtx]
  obtain ⟨vprevout, added, hd⟩ := connectTransaction_ok hr
  have hS := Finset.Subset.refl (touched block)
  obtain ⟨ha, hu, hw⟩ := hd.refines (connectable_of_contents h.contents h.outputs hS hmem) h.coherent
    (fun _ => h.outputs _ hmem) h.coins
  have hmark : Marked pindex (fun txid => txid = coinbase.getHash ∨ seen txid)
      (ledger.connect ctx pindex coinbase).coins out := by
    constructor
    case seen => exact .inl (hash_of_mem_coins hm)
    case immature =>
    intro coin' hc
    rw [connect_coins_new hm] at hc
    obtain ⟨_, _, _, _, he⟩ := mem_outputCoins hm
    cases hc
    cases he
    exact ⟨hcb, rfl⟩
  have hconn tx (hr : tx ∈ rest) : Connectable s1.view (touched block) tx :=
    (connectable_of_contents h.contents h.outputs hS (by simp [hvtx, hr])).updates hu
  refine (hmark.connectTransactions hf h.height hrest hbs hconn hu.coherent
    hu.coins.symm (h.consistent.connect hb ha hn h.height) (hw ▸ hwrites ▸ hx1)).trans ?_
  rw [hw, ← hwrites, hnew]

omit [Crypto] in
lemma spentEntry_live_ne (hp : 0 < nHeight pindex) :
    (ctx.spentEntry pindex tx coin j).live ≠ some coin.entry := by
  intro h
  rw [CAddressValue.live] at h
  split at h
  · have hh := congrArg CAddressValue.spend_height (Option.some.inj h)
    exact absurd hh (Nat.pos_iff_ne_zero.mp hp)
  · cases h

lemma spent_marks {rest : List CTransaction} (hf : ctx.fAddressIndex) (hp : 0 < nHeight pindex)
    (hc : ∀ t ∈ tx :: rest, t.isCoinBase = false ∧ t.prevouts ≠ [])
    (ht : ∀ t ∈ tx :: rest, txOf t.getHash = t)
    (hs : ∀ t ∈ tx :: rest, Connectable s.view S t) (hv : s.view.Coherent)
    (hl : ledger.coins = s.view.getCoin) (hcon : ledger.Consistent ctx txOf seen)
    (hx : HoldsIndex txOf s.addressIndex ledger) (ho : out ∈ tx.prevouts)
    (hpass : InputsPass ctx block pindex k tx s.view totals.nFees txfee) :
    (ctx.connectTransactions block pindex ((tx :: rest).zipIdx k) totals s).final.addressIndex.record
      (fileOf txOf) out ≠ s.addressIndex.record (fileOf txOf) out := by
  obtain ⟨⟨hcb, hne⟩, hcs⟩ := List.forall_mem_cons.mp hc
  obtain ⟨ht, hts⟩ := List.forall_mem_cons.mp ht
  obtain ⟨hs, hss⟩ := List.forall_mem_cons.mp hs
  have hi := exists_coin_of_checkTxInputs hcb hl hpass.fee
  have hin out (ho : out ∈ tx.prevouts) : ∃ coin, ledger.coins out = some coin := by
    obtain ⟨coin, hcoin, _⟩ := hi out ho
    exact ⟨coin, hcoin⟩
  obtain ⟨coin, hcoin⟩ := hin out ho
  have hn := hcon.unseen_of_coin ht ho hcoin
  have hseen := (hcon.known hcoin).1
  have hncr : out ∉ (tx.coins (nHeight pindex)).map Prod.fst :=
    not_mem_coins_of_ne fun he => hn (he ▸ hseen)
  suffices hfinal : ∃ j,
      (ctx.connectTransactions block pindex ((tx :: rest).zipIdx k) totals s).final.addressIndex.record
        (fileOf txOf) out = (ctx.spentEntry pindex tx coin j).live by
    obtain ⟨j, hfinal⟩ := hfinal
    rw [hfinal, hx.2, hcon.listed hf hcoin]
    exact spentEntry_live_ne hp
  rw [List.zipIdx_cons, ConnectContext.connectTransactions]
  cases hr : ctx.connectTransaction block pindex k tx totals s
  case error e s' =>
    rw [bind_of_error hr]
    have hw := connectTransaction_error_writes hf hcb hr
    obtain ⟨totals1, s1, hok⟩ := (connectInputs_returns_iff hcb).mpr ⟨txfee, hpass⟩
    obtain ⟨_, created, hcr, hw⟩ := hw.resolve_left fun hno => by
      rw [hok] at hno
      cases hno.2
    rw [← hl] at hw
    obtain ⟨j, hj⟩ := @updateAll_spentWrites _ ctx pindex tx out coin ledger.coins hs.prevouts_nodup ho
      hcoin ledger.records
    have hrec := (hx.1.writeAll (partial_filed hf hcon ht hin hcr)).2
    have hnot : out ∉ (recorded created).map Prod.fst := by
      cases hcr
      case inl hcr => simp [hcr, recorded]
      case inr hcr => simpa [hcr, recorded, createdWrites, CAddressKey.ofScript] using hncr
    refine ⟨j, ?_⟩
    rw [Result.final, hw, hrec, hx.2, recorded_append, updateAll_append, updateAll_not_mem hnot, hj]
  case ok totals1 s1 =>
  rw [bind_of_ok hr]
  obtain ⟨vprevout, added, hd⟩ := connectTransaction_ok hr
  obtain ⟨ha, hu, hw⟩ := hd.refines hs hv (by simp [hcb]) hl
  have hx1 : HoldsIndex txOf s1.addressIndex (ledger.connect ctx pindex tx) :=
    hw ▸ hx.connect hcon.toKnown (congrArg CTransaction.vout ht) hin
  have hmark : Marked pindex (fun txid => txid = tx.getHash ∨ seen txid)
      (ledger.connect ctx pindex tx).coins out :=
    ⟨.inr hseen, fun _ hc => by simp [connect_coins_spent ho hncr] at hc⟩
  obtain ⟨coin', j, hcoin', hj⟩ := connect_records_spent hf ha ho hncr
  rw [hcoin] at hcoin'
  cases hcoin'
  refine ⟨j, (hmark.connectTransactions hf hp hcs hts (fun tx hm => (hss tx hm).updates hu)
    hu.coherent hu.coins.symm (hcon.connect ht ha hn hp) hx1).trans ?_⟩
  rw [hx1.2, hj]

end

def prepare (ctx : ConnectContext) (block : CBlock) (pindex : CBlockIndex) (fJustCheck : Bool) :
    Connect Unit := do
  Connect.check <| rejectIf (pindex = [] || pindex.getBlockHash ≠ block.getHash)
    (fault .assertion)
  let hashProofOfStake ← ctx.checkKernel block pindex
  ctx.storeStake block pindex hashProofOfStake fJustCheck
  ctx.checkBlockAgain block pindex fJustCheck
  assertBestBlock pindex

lemma connectBlock_eq : ctx.connectBlock block pindex fJustCheck =
    (ctx.prepare block pindex fJustCheck >>= fun _ =>
      if block.getHash = ctx.params.hashGenesisBlock then
        Connect.when (!fJustCheck) (modify (setBestBlock pindex.getBlockHash))
      else ctx.connectContents block pindex fJustCheck) := by
  simp [connectBlock, prepare]

lemma prepare_keeps : (ctx.prepare block pindex fJustCheck).Keeps ConnectState.stores :=
  check_keeps.bind fun _ => checkKernel_keeps.bind fun _ => storeStake_keeps.bind fun _ =>
    checkBlockAgain_keeps.bind fun _ => get_keeps fun _ => check_keeps

lemma prepare_contents (hm : block.Memo)
    (h : ctx.prepare block pindex fJustCheck s = .ok () s') : checkContents block = .ok () := by
  have ⟨_, _, h⟩ := check_bind.mp h
  have ⟨_, _, _, h⟩ := bind_eq_ok.mp h
  have ⟨_, _, _, h⟩ := bind_eq_ok.mp h
  have ⟨_, _, hb, _⟩ := bind_eq_ok.mp h
  exact checkBlock_contents hm (ok_of_mapError.mp (check_eq_ok.mp hb).1)

-- A connection writes to the index: for the coinbase, or if the next inputs pass.
structure WritesIndex (ctx : ConnectContext) (block : CBlock) (pindex : CBlockIndex)
    (fJustCheck : Bool) (s : ConnectState) : Prop where
  indexed : ctx.fAddressIndex
  child : block.getHash ≠ ctx.params.hashGenesisBlock
  prepared : ∃ s1, ctx.prepare block pindex fJustCheck s = .ok () s1
  parent : pindex.tail ≠ []
  outputs : NewOutputs block s.view
  listed : (∃ coinbase ∈ block.vtx.head?, coinbase.coins (nHeight pindex) ≠ []) ∨
    ∃ tx ∈ block.vtx[1]?, ∃ txfee, InputsPass ctx block pindex 1 tx s.view 0 txfee

lemma connectTransaction_keeps (hf : ctx.fAddressIndex = false) :
    (ctx.connectTransaction block pindex i tx totals).Keeps ConnectState.addressIndex := by
  have hindex {α : Type} {x : Connect α} (h : x.Keeps ConnectState.stores) :
      x.Keeps ConnectState.addressIndex := h.map Prod.snd
  refine .bind ?_ fun _ => (countSigOps_keeps.map _).bind fun _ =>
    (checkScripts_keeps.map _).bind fun _ => .bind ?_ fun _ => applyTransaction_keeps
  · unfold connectInputs
    split
    · exact .pure _
    refine get_keeps fun _ => (hindex traced_keeps).bind fun _ => check_keeps.bind fun _ =>
      (hindex traced_keeps).bind fun _ => check_keeps.bind fun _ =>
      (hindex updateReward_keeps).bind fun _ => check_keeps.bind fun _ => .bind ?_ fun _ => .pure _
    exact fun s => by simp [modifyIndex, indexSpent, hf, modify, modifyGet, MonadStateOf.modifyGet,
      EStateM.modifyGet, Result.final]
  exact fun s => by simp [modifyIndex, indexOutputs, hf, modify, modifyGet, MonadStateOf.modifyGet,
    EStateM.modifyGet, Result.final]

lemma connectTransactions_keeps (hf : ctx.fAddressIndex = false) :
    (ctx.connectTransactions block pindex vtx totals).Keeps ConnectState.addressIndex := by
  induction vtx generalizing totals
  case nil => exact .pure _
  case cons p vtx hi => exact (connectTransaction_keeps hf).bind fun _ => hi

lemma connectTransaction_unlisted (hcb : tx.isCoinBase)
    (hsig : getLegacySigOpCount tx * WITNESS_SCALE_FACTOR ≤ MAX_BLOCK_SIGOPS_COST)
    (hcr : tx.coins (nHeight pindex) = []) (hout : OutputsInRange 0 tx.vout) :
    ctx.connectTransaction block pindex 0 tx {} s =
      .ok { nSigOpsCost := 0 + getLegacySigOpCount tx * WITNESS_SCALE_FACTOR } s := by
  have hindex : ctx.indexOutputs pindex tx s.addressIndex = s.addressIndex := by
    rw [indexOutputs_eq, createdWrites, hcr, List.map_nil, ite_self]
    rfl
  rw [connectTransaction_coinbase hcb hsig, hindex, applyTransaction, bind_get]
  exact check_bind.mpr ⟨_, updateCoins_unlisted hcb hcr hout, rfl⟩

lemma connectTransactions_silent (hc : checkContents block = .ok ())
    (hcr : ∀ coinbase ∈ block.vtx.head?, coinbase.coins (nHeight pindex) = [])
    (hin : ∀ tx ∈ block.vtx[1]?, ∀ txfee, ¬InputsPass ctx block pindex 1 tx s.view 0 txfee) :
    (ctx.connectTransactions block pindex block.vtx.zipIdx {} s).final.addressIndex =
      s.addressIndex := by
  have ⟨coinbase, rest, hvtx, hcb, hrest, hsig⟩ := contents_split hc
  have hcr := hcr coinbase (by simp [hvtx])
  have ⟨hout, _⟩ := checkTransaction_inRange ((checkContents_ok hc).2 coinbase (by simp [hvtx]))
  rw [hvtx, List.zipIdx_cons, connectTransactions,
    bind_of_ok (connectTransaction_unlisted hcb hsig hcr hout)]
  cases rest
  case nil => rfl
  case cons tx rest =>
  have htx := (hrest tx List.mem_cons_self).1
  rw [List.zipIdx_cons, connectTransactions, connectTransaction]
  cases hi : ctx.connectInputs block pindex (0 + 1) tx
    { nSigOpsCost := 0 + getLegacySigOpCount coinbase * WITNESS_SCALE_FACTOR } s
  case ok totals' s' =>
    have ⟨txfee, hp⟩ := (connectInputs_returns_iff htx).mp ⟨totals', s', hi⟩
    exact absurd hp (hin tx (by simp [hvtx]) txfee)
  case error e s' =>
  rw [bind_of_error (bind_of_error hi)]
  exact congrArg Prod.snd (connectInputs_onError _ _ _ hi)

omit [Crypto] in
lemma newOutputs_iff : NewOutputs block s.view ↔
    (block.vtx.any fun tx =>
      (List.range tx.vout.length).any fun o => s.view.haveCoin (tx.outpoint o)) = false := by
  simp [NewOutputs, haveCoin]

lemma connectContents_final (hp : pindex.tail ≠ []) (hn : NewOutputs block s.view) :
    (ctx.connectContents block pindex fJustCheck s).final.addressIndex =
      (ctx.connectTransactions block pindex block.vtx.zipIdx {} s).final.addressIndex := by
  have hb : checkBIP30 block s = .ok () s := by
    rw [checkBIP30, bind_get, newOutputs_iff.mp hn]
    rfl
  rw [connectContents, bind_of_ok (check_assert (decide_eq_false hp)), bind_of_ok hb]
  refine final_bind fun _ => checkReward_keeps.bind fun _ => check_keeps.bind fun _ => ?_
  unfold when
  split
  · exact storeBlock_keeps
  · exact .pure _

lemma connectContents_rejects (h : ¬(pindex.tail ≠ [] ∧ NewOutputs block s.view)) :
    (ctx.connectContents block pindex fJustCheck s).final = s := by
  by_cases hp : pindex.tail = []
  · rw [connectContents, bind_of_error (check_fault (decide_eq_true hp))]
    rfl
  have hn := newOutputs_iff.not.mp fun hn => h ⟨hp, hn⟩
  rw [Bool.not_eq_false] at hn
  have hb : ∃ e, checkBIP30 block s = .error e s := by
    rw [checkBIP30, bind_get, hn]
    exact ⟨_, rfl⟩
  obtain ⟨_, hb⟩ := hb
  rw [connectContents, bind_of_ok (check_assert (decide_eq_false hp)), bind_of_error hb]
  rfl

lemma connectBlock_silent (hm : block.Memo) (h : ¬WritesIndex ctx block pindex fJustCheck s) :
    (ctx.connectBlock block pindex fJustCheck s).final.addressIndex = s.addressIndex := by
  have hkeep := @prepare_keeps ctx block pindex _ fJustCheck s
  rw [connectBlock_eq]
  cases hp : ctx.prepare block pindex fJustCheck s
  case error e s1 =>
    rw [hp] at hkeep
    rw [bind_of_error hp]
    exact congrArg Prod.snd hkeep
  rename_i _ s1
  rw [hp] at hkeep
  have hview : s1.view = s.view := congrArg Prod.fst hkeep
  have hindex : s1.addressIndex = s.addressIndex := congrArg Prod.snd hkeep
  rw [bind_of_ok hp, ← hindex]
  split
  · unfold when
    split <;> rfl
  rename_i hg
  by_cases hc : pindex.tail ≠ [] ∧ NewOutputs block s1.view
  case neg => rw [connectContents_rejects hc]
  rw [connectContents_final hc.1 hc.2]
  cases hf : ctx.fAddressIndex
  case false => exact connectTransactions_keeps hf s1
  have hnot hl := h ⟨hf, hg, ⟨s1, hp⟩, hc.1, hview ▸ hc.2, hl⟩
  refine connectTransactions_silent (prepare_contents hm hp) ?_ ?_
  · intro coinbase hcb
    by_contra hne
    exact hnot (.inl ⟨coinbase, hcb, hne⟩)
  intro tx htx txfee hpass
  exact hnot (.inr ⟨tx, htx, txfee, hview ▸ hpass⟩)

lemma WritesIndex.changes (h : WritesIndex ctx block pindex fJustCheck s) (hm : block.Memo)
    (hv : s.view.Coherent) (hc : IndexConsistent ctx txOf seen s) (hn : NewBlock txOf seen block) :
    (ctx.connectBlock block pindex fJustCheck s).final.addressIndex.read ≠ s.addressIndex.read := by
  obtain ⟨s1, hp⟩ := h.prepared
  have hkeep := @prepare_keeps ctx block pindex _ fJustCheck s
  rw [hp] at hkeep
  have hview : s1.view = s.view := congrArg Prod.fst hkeep
  have hindex : s1.addressIndex = s.addressIndex := congrArg Prod.snd hkeep
  have hbegins : LoopBegins ctx block pindex txOf seen s1 (ledgerOf txOf s) :=
    ⟨nHeight_pos h.parent, prepare_contents hm hp, hview ▸ h.outputs, hn, hview ▸ hv,
      by rw [hview]; rfl, hc.ledger, hindex ▸ ⟨hc.filed, rfl⟩⟩
  obtain ⟨coinbase, rest, hvtx, hcb, hrest, hsig⟩ := contents_split hbegins.contents
  suffices hmark : ∃ out,
      (ctx.connectTransactions block pindex block.vtx.zipIdx {} s1).final.addressIndex.record
        (fileOf txOf) out ≠ s1.addressIndex.record (fileOf txOf) out by
    obtain ⟨out, hmark⟩ := hmark
    intro hread
    rw [connectBlock_eq, bind_of_ok hp, if_neg h.child,
      connectContents_final h.parent hbegins.outputs, ← hindex] at hread
    exact hmark (by rw [record, record, hread])
  by_cases hcr : coinbase.coins (nHeight pindex) = []
  case neg =>
    obtain ⟨kv, hm⟩ := List.exists_mem_of_ne_nil _ hcr
    exact ⟨kv.1, hbegins.created_marks h.indexed hvtx hcb hrest hsig hm⟩
  have hnot : ¬∃ coinbase ∈ block.vtx.head?, coinbase.coins (nHeight pindex) ≠ [] := by
    simp [hvtx, hcr]
  obtain ⟨tx, htx, txfee, hpass⟩ := h.listed.resolve_left hnot
  obtain ⟨hout, _⟩ := checkTransaction_inRange
    ((checkContents_ok hbegins.contents).2 coinbase (by simp [hvtx]))
  rw [hvtx, List.getElem?_cons_succ] at htx
  cases rest
  case nil => simp at htx
  case cons tx' rest =>
  have htx : tx' = tx := by simpa using htx
  subst htx
  obtain ⟨out, ho⟩ := List.exists_mem_of_ne_nil _ (hrest tx' List.mem_cons_self).2
  have hbound := hn.bound
  rw [hvtx] at hbound
  have hconn tx (hr : tx ∈ tx' :: rest) :=
    connectable_of_contents hbegins.contents hbegins.outputs (Finset.Subset.refl _)
      (by rw [hvtx]; exact List.mem_cons_of_mem _ hr)
  refine ⟨out, ?_⟩
  rw [hvtx, List.zipIdx_cons, connectTransactions,
    bind_of_ok (connectTransaction_unlisted hcb hsig hcr hout)]
  exact spent_marks h.indexed hbegins.height hrest (List.forall_mem_cons.mp hbound).2 hconn
    hbegins.coherent hbegins.coins hbegins.consistent hbegins.index ho (hview ▸ hpass)

-- A connection leaves the index just if it writes nothing, provided it was consistent.
theorem connectBlock_read_eq_iff (hm : block.Memo) (hv : s.view.Coherent) :
    (¬WritesIndex ctx block pindex fJustCheck s →
      (ctx.connectBlock block pindex fJustCheck s).final.addressIndex.read = s.addressIndex.read) ∧
    ∀ txOf seen, IndexConsistent ctx txOf seen s → NewBlock txOf seen block →
      ((ctx.connectBlock block pindex fJustCheck s).final.addressIndex.read = s.addressIndex.read ↔
        ¬WritesIndex ctx block pindex fJustCheck s) := by
  have hsilent (h : ¬WritesIndex ctx block pindex fJustCheck s) :
      (ctx.connectBlock block pindex fJustCheck s).final.addressIndex.read = s.addressIndex.read := by
    rw [connectBlock_silent hm h]
  exact ⟨hsilent, fun txOf seen hc hn => ⟨fun hr hw => hw.changes hm hv hc hn hr, hsilent⟩⟩

section

-- The staking block of the examples above when it is only checked, and when its scripts fail.

omit [Crypto] in
theorem connectBlock_read_eq_iff_stake :
    (@connectBlock acceptsSignatures indexedContext (stakeBlock 1600000000) (stakeEntry 1600000000)
        true indexedState).final.addressIndex.read = indexedState.addressIndex.read ↔
      ¬@WritesIndex acceptsSignatures indexedContext (stakeBlock 1600000000) (stakeEntry 1600000000)
        true indexedState := by
  have hm : (stakeBlock 1600000000).Memo := by nofun
  have hiff := @connectBlock_read_eq_iff indexedContext (stakeBlock 1600000000)
    (stakeEntry 1600000000) indexedState acceptsSignatures true hm (over_coherent stakedCoins)
  exact hiff.2 indexedTx (· = 5) indexedState_consistent stakeBlock_new

def failsScripts : ConnectContext :=
  { indexedContext with checkInputs := fun _ _ _ => .dos 100 REJECT_INVALID "" }

def rejected : EStateM.Result Failure ConnectState Unit → Bool
  | .error (.returned _) _ => true
  | _ => false

omit [Crypto] in
theorem connectBlock_changes_index :
    (EStateM.returns (fun _ s' => s'.addressIndex.read (@fileOf acceptsSignatures indexedTx
        stakedOutPoint) stakedOutPoint ≠ some stakedCoin.entry)
      (@connectBlock acceptsSignatures indexedContext (stakeBlock 1600000000)
        (stakeEntry 1600000000) true indexedState)) ∧
    rejected (@connectBlock acceptsSignatures failsScripts (stakeBlock 1600000000)
      (stakeEntry 1600000000) false indexedState) ∧
    (@connectBlock acceptsSignatures failsScripts (stakeBlock 1600000000) (stakeEntry 1600000000)
      false indexedState).final.addressIndex.read (@fileOf acceptsSignatures indexedTx
        stakedOutPoint) stakedOutPoint ≠ some stakedCoin.entry ∧
    indexedState.addressIndex.read (@fileOf acceptsSignatures indexedTx stakedOutPoint)
      stakedOutPoint = some stakedCoin.entry := by
  decide +kernel

end

end ConnectContext

end Taler
