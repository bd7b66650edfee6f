import Mathlib
import TalerModel.Coins.Theorems.View
import TalerModel.Validation.ConnectBlock
import TalerModel.Validation.Theorems.CheckBlock

namespace Taler

open Check ConnectState

def ConnectState.stores (s : ConnectState) : CCoinsViewCache × CAddressIndexDB :=
  (s.view, s.addressIndex)

namespace Connect

open EStateM

variable {s s' : ConnectState} {c : Check α} {x : Traced α}

lemma check_eq_ok : check c s = .ok a s' ↔ c = .ok a ∧ s' = s := by
  cases c
  case ok => simp [check, eq_comm]
  case error => simp [check]

lemma traced_eq_ok :
    traced x s = .ok a s' ↔ a = x.val ∧ s' = { s with amounts := s.amounts ++ x.exact } := by
  simp [traced, eq_comm]

lemma stake_eq_ok {x : Stake α} (h : stake x s = .ok a s') :
    ∃ st, x s.stake = .ok a st ∧ s' = { s with stake := st } := by
  simp only [stake] at h
  split at h
  case h_1 hx =>
    cases h
    exact ⟨_, hx, rfl⟩
  case h_2 => nomatch h

lemma check_keeps : (check c).Keeps part := by
  intro s
  cases c <;> rfl

lemma traced_keeps : (traced x).Keeps stores :=
  fun _ => rfl

lemma stake_keeps {x : Stake α} : (stake x).Keeps stores := by
  intro s
  unfold stake
  split <;> rfl

lemma traced_bind : (traced x >>= f) s = f x.val { s with amounts := s.amounts ++ x.exact } :=
  rfl

lemma modify_eq_ok : (modify f : Connect Unit) s = .ok a s' ↔ s' = f s := by
  simp [modify, modifyGet, MonadStateOf.modifyGet, EStateM.modifyGet, eq_comm]

lemma modify_bind : ((modify g : Connect Unit) >>= f) s = f () (g s) :=
  rfl

lemma check_bind : (check c >>= f) s = .ok b s' ↔ ∃ a, c = .ok a ∧ f a s = .ok b s' := by
  cases c
  case ok => exact ⟨fun h => ⟨_, rfl, h⟩, fun ⟨_, he, h⟩ => by cases he; exact h⟩
  case error => simp [check, bind, EStateM.bind]

lemma check_assert (h : b = false) : check (rejectIf b r) s = .ok () s := by
  rw [h]
  rfl

lemma check_fault (h : b = true) : check (rejectIf b (fault f)) s = .error (.fault f) s := by
  rw [h]
  rfl

lemma rejectIf_bind {c : Bool} :
    (check (rejectIf c (.dos l n r k)) >>= f) s = .ok b s' ↔ c = false ∧ f () s = .ok b s' := by
  rw [check_bind]
  exact ⟨fun ⟨_, hc, h⟩ => ⟨rejectIf_dos_eq_ok.mp hc, h⟩,
    fun ⟨hc, h⟩ => ⟨(), rejectIf_dos_eq_ok.mpr hc, h⟩⟩

end Connect

namespace ConnectContext

open Connect EStateM

variable {ctx : ConnectContext} {block : CBlock} {pindex : CBlockIndex} {tx : CTransaction}
  {totals totals' : Totals} {s s' : ConnectState} {i : Nat}

lemma coinstakeReward_ok (h : ctx.coinstakeReward block pindex tx txfee s = .ok reward s') :
    ∃ nCoinAge, getCoinAge ctx.params ctx.chainActive tx s.view block.nTime = some nCoinAge ∧
      reward = (getProofOfStakeReward ctx.params (wrap64 nCoinAge) pindex.nPowHeight).val ∧
      s' = { s with
        amounts := s.amounts ++ (getFee DEFAULT_TRANSACTION_MINFEE tx.serializeSize).exact ++
          (getProofOfStakeReward ctx.params (wrap64 nCoinAge) pindex.nPowHeight).exact } := by
  rw [coinstakeReward, bind_get, traced_bind] at h
  have ⟨_, h⟩ := rejectIf_bind.mp h
  cases ha : getCoinAge ctx.params ctx.chainActive tx s.view block.nTime
  case none => simp [ha, check, plainError] at h
  rename_i nCoinAge
  simp only [ha] at h
  have ⟨hr, hs⟩ := traced_eq_ok.mp h
  exact ⟨nCoinAge, rfl, hr, hs⟩

-- What a transaction with inputs adds to the totals and to the recorded amounts.
structure InputsConnected (ctx : ConnectContext) (block : CBlock) (pindex : CBlockIndex) (i : Nat)
    (tx : CTransaction) (totals totals' : Totals) (view : CCoinsViewCache) (added : List Int) :
    Prop where
  fee : ∃ txfee rewardAmounts,
    (checkTxInputs ctx.params ctx.chainActive tx view (nHeight pindex) pindex.getBlockTime).val =
      .ok txfee ∧
    moneyRange (wrap64 (totals.nFees + txfee)) ∧
    totals'.nFees = wrap64 (totals.nFees + txfee) ∧
    added =
      (checkTxInputs ctx.params ctx.chainActive tx view (nHeight pindex)
        pindex.getBlockTime).exact ++ [totals.nFees + txfee] ++ rewardAmounts ∧
    if isCoinstake block i then
      ∃ nCoinAge, getCoinAge ctx.params ctx.chainActive tx view block.nTime = some nCoinAge ∧
        totals'.posReward =
          (getProofOfStakeReward ctx.params (wrap64 nCoinAge) pindex.nPowHeight).val ∧
        rewardAmounts = (getFee DEFAULT_TRANSACTION_MINFEE tx.serializeSize).exact ++
          (getProofOfStakeReward ctx.params (wrap64 nCoinAge) pindex.nPowHeight).exact
    else totals'.posReward = totals.posReward ∧ rewardAmounts = []
  vtxundo : totals'.vtxundo = totals.vtxundo

lemma updateReward_ok (h : ctx.updateReward block pindex i tx txfee posReward s = .ok reward s') :
    ∃ rewardAmounts, s' = { s with amounts := s.amounts ++ rewardAmounts } ∧
    if isCoinstake block i then
      ∃ nCoinAge, getCoinAge ctx.params ctx.chainActive tx s.view block.nTime = some nCoinAge ∧
        reward = (getProofOfStakeReward ctx.params (wrap64 nCoinAge) pindex.nPowHeight).val ∧
        rewardAmounts = (getFee DEFAULT_TRANSACTION_MINFEE tx.serializeSize).exact ++
          (getProofOfStakeReward ctx.params (wrap64 nCoinAge) pindex.nPowHeight).exact
    else reward = posReward ∧ rewardAmounts = [] := by
  simp only [updateReward] at h
  split at h
  case isTrue hi =>
    have ⟨nCoinAge, ha, hr, hs⟩ := coinstakeReward_ok h
    refine ⟨_, by rw [hs, List.append_assoc], ?_⟩
    rw [if_pos hi]
    exact ⟨nCoinAge, ha, hr, rfl⟩
  rename_i hi
  have ⟨hr, hs⟩ := pure_eq_ok.mp h
  refine ⟨[], by simp [hs], ?_⟩
  rw [if_neg hi]
  exact ⟨hr.symm, rfl⟩

variable [Crypto]

lemma connectInputs_ok (hc : tx.isCoinBase = false)
    (h : ctx.connectInputs block pindex i tx totals s = .ok totals' s') :
    ∃ added, InputsConnected ctx block pindex i tx totals totals' s.view added ∧
      s' = { s with
        addressIndex := ctx.indexSpent pindex tx s.view s.addressIndex
        amounts := s.amounts ++ added } := by
  simp only [connectInputs, hc, Bool.false_eq_true, if_false, bind_get, traced_bind] at h
  have ⟨txfee, hf, h⟩ := check_bind.mp h
  have ⟨hm, h⟩ := rejectIf_bind.mp h
  have ⟨posReward, s1, hu, h⟩ := bind_eq_ok.mp h
  have ⟨rewardAmounts, hs, hr⟩ := updateReward_ok hu
  have ⟨_, _, h⟩ := check_bind.mp h
  have ⟨ht, hs'⟩ := pure_eq_ok.mp h
  subst hs ht hs'
  refine ⟨_, ⟨⟨txfee, rewardAmounts, hf, by simpa using hm, rfl, rfl, hr⟩, rfl⟩, ?_⟩
  simp

-- What a transaction does to the state. Whether it is a coinbase decides about the inputs.
structure TransactionConnected (ctx : ConnectContext) (block : CBlock) (pindex : CBlockIndex)
    (i : Nat) (tx : CTransaction) (totals totals' : Totals) (s s' : ConnectState)
    (vprevout : List Coin) (added : List Int) : Prop where
  coinbase : tx.isCoinBase →
    totals'.nFees = totals.nFees ∧ totals'.posReward = totals.posReward ∧ added = []
  inputs : tx.isCoinBase = false → ∃ totals1,
    InputsConnected ctx block pindex i tx totals totals1 s.view added ∧
    totals'.nFees = totals1.nFees ∧ totals'.posReward = totals1.posReward
  vtxundo : totals'.vtxundo = totals.vtxundo ++ if i = 0 then [] else [vprevout]
  coins : s.view.updateCoins tx (nHeight pindex) = .ok (vprevout, s'.view)
  index : s'.addressIndex = ctx.indexOutputs pindex tx
    (if tx.isCoinBase then s.addressIndex else ctx.indexSpent pindex tx s.view s.addressIndex)
  stake : s'.stake = s.stake
  undo : s'.undo = s.undo
  amounts : s'.amounts = s.amounts ++ added

section

omit [Crypto]

lemma countSigOps_ok (h : ctx.countSigOps pindex tx totals s = .ok totals' s') :
    s' = s ∧ totals'.nFees = totals.nFees ∧ totals'.posReward = totals.posReward ∧
    totals'.vtxundo = totals.vtxundo := by
  have ⟨_, _, h⟩ := check_bind.mp h
  have ⟨_, h⟩ := rejectIf_bind.mp h
  have ⟨ht, hs⟩ := pure_eq_ok.mp h
  subst ht hs
  exact ⟨rfl, rfl, rfl, rfl⟩

lemma checkScripts_ok (h : ctx.checkScripts pindex tx totals s = .ok totals' s') :
    s' = s ∧ totals'.nFees = totals.nFees ∧ totals'.posReward = totals.posReward ∧
    totals'.vtxundo = totals.vtxundo := by
  simp only [checkScripts] at h
  split at h
  · have ⟨ht, hs⟩ := pure_eq_ok.mp h
    subst ht hs
    exact ⟨rfl, rfl, rfl, rfl⟩
  have ⟨_, _, h⟩ := check_bind.mp h
  have ⟨ht, hs⟩ := pure_eq_ok.mp h
  subst ht hs
  exact ⟨rfl, rfl, rfl, rfl⟩

lemma applyTransaction_ok (h : applyTransaction pindex i tx totals s = .ok totals' s') :
    ∃ vprevout, s.view.updateCoins tx (nHeight pindex) = .ok (vprevout, s'.view) ∧
      s' = { s with view := s'.view } ∧
      totals' = { totals with
        vtxundo := totals.vtxundo ++ if i = 0 then [] else [vprevout] } := by
  have ⟨⟨vprevout, view⟩, hu, h⟩ := check_bind.mp h
  have ⟨ht, hs⟩ := pure_eq_ok.mp h
  subst ht hs
  exact ⟨vprevout, hu, rfl, rfl⟩

end

lemma connectTransaction_ok
    (h : ctx.connectTransaction block pindex i tx totals s = .ok totals' s') :
    ∃ vprevout added,
      TransactionConnected ctx block pindex i tx totals totals' s s' vprevout added := by
  have ⟨totals1, s1, hi, h⟩ := bind_eq_ok.mp h
  have ⟨totals2, s2, hg, h⟩ := bind_eq_ok.mp h
  have ⟨totals3, s3, hc, h⟩ := bind_eq_ok.mp h
  have ⟨vprevout, hu, hs, ht⟩ := applyTransaction_ok h
  have ⟨hs3, hf3, hp3, hv3⟩ := checkScripts_ok hc
  have ⟨hs2, hf2, hp2, hv2⟩ := countSigOps_ok hg
  subst ht hs3 hs2
  cases hcb : tx.isCoinBase
  case true =>
    simp only [connectInputs, hcb, if_true] at hi
    have ⟨ht1, hs1⟩ := pure_eq_ok.mp hi
    subst ht1 hs1
    refine ⟨vprevout, [], ?_⟩
    constructor
    case coinbase => exact fun _ => ⟨by simp [hf3, hf2], by simp [hp3, hp2], rfl⟩
    case inputs => simp [hcb]
    case vtxundo => simp [hv3, hv2]
    case coins => exact hu
    case index => rw [hs]; simp [hcb]
    case stake => rw [hs]
    case undo => rw [hs]
    case amounts => rw [hs]; simp
  case false =>
  have ⟨added, hin, hs1⟩ := connectInputs_ok hcb hi
  subst hs1
  refine ⟨vprevout, added, ?_⟩
  constructor
  case coinbase => simp [hcb]
  case inputs =>
    exact fun _ => ⟨totals1, hin, by simp [hf3, hf2], by simp [hp3, hp2]⟩
  case vtxundo => simp [hv3, hv2, hin.vtxundo]
  case coins => exact hu
  case index => rw [hs]; simp [hcb]
  case stake => rw [hs]
  case undo => rw [hs]
  case amounts => rw [hs]

inductive TransactionsConnected (ctx : ConnectContext) (block : CBlock) (pindex : CBlockIndex) :
    List (CTransaction × Nat) → Totals → Totals → ConnectState → ConnectState → Prop
  | nil {totals : Totals} {s : ConnectState} :
    TransactionsConnected ctx block pindex [] totals totals s s
  | cons {i : Nat} {tx : CTransaction} {rest : List (CTransaction × Nat)}
    {totals totals1 totals' : Totals} {s s1 s' : ConnectState} {vprevout : List Coin}
    {added : List Int}
    (head : TransactionConnected ctx block pindex i tx totals totals1 s s1 vprevout added)
    (tail : TransactionsConnected ctx block pindex rest totals1 totals' s1 s') :
    TransactionsConnected ctx block pindex ((tx, i) :: rest) totals totals' s s'

lemma connectTransactions_ok
    (h : ctx.connectTransactions block pindex vtx totals s = .ok totals' s') :
    TransactionsConnected ctx block pindex vtx totals totals' s s' := by
  induction vtx generalizing totals s
  case nil =>
    have ⟨ht, hs⟩ := pure_eq_ok.mp h
    subst ht hs
    exact .nil
  case cons p rest hi =>
  have ⟨totals1, s1, ht, h⟩ := bind_eq_ok.mp h
  have ⟨_, _, ht⟩ := connectTransaction_ok ht
  exact .cons ht (hi h)

structure RewardChecked (ctx : ConnectContext) (block : CBlock) (pindex : CBlockIndex)
    (totals : Totals) (coinbase : CTransaction) (valueOut : CAmount) (added : List Int) : Prop where
  head : block.vtx.head? = some coinbase
  value : coinbase.getValueOut.val = some valueOut
  le : valueOut ≤ wrap64 (totals.nFees + (ctx.blockSubsidy block pindex totals.posReward).val)
  added : added = (ctx.blockSubsidy block pindex totals.posReward).exact ++
    [totals.nFees + (ctx.blockSubsidy block pindex totals.posReward).val] ++
    coinbase.getValueOut.exact

omit [Crypto] in
lemma checkReward_ok (h : ctx.checkReward block pindex totals s = .ok () s') :
    ∃ coinbase valueOut added,
      RewardChecked ctx block pindex totals coinbase valueOut added ∧
      s' = { s with amounts := s.amounts ++ added } := by
  simp only [checkReward, traced_bind] at h
  cases hh : block.vtx.head?
  case none => simp [hh, check, fault] at h
  rename_i coinbase
  simp only [hh, traced_bind] at h
  cases hv : coinbase.getValueOut.val
  case none => simp [hv, check, fault] at h
  rename_i valueOut
  simp only [hv, check_eq_ok, rejectIf_dos_eq_ok, Bool.or_eq_false_iff, amount_val,
    decide_eq_false_iff_not, gt_iff_lt, not_lt] at h
  exact ⟨coinbase, valueOut, _, ⟨hh, hv, h.1.1, rfl⟩, by simp [h.2]⟩

def stored (pindex : CBlockIndex) (fJustCheck : Bool) (blockundo : CBlockUndo) (s : ConnectState) :
    ConnectState :=
  if fJustCheck then s
  else setBestBlock pindex.getBlockHash (writeUndoDataForBlock pindex blockundo s)

omit [Crypto] in
lemma storeBlock_ok (h : when (!fJustCheck) (storeBlock pindex blockundo) s = .ok () s') :
    s' = stored pindex fJustCheck blockundo s := by
  cases fJustCheck
  case true => exact (pure_eq_ok.mp h).2.symm
  case false =>
  exact modify_eq_ok.mp h

def NewOutputs (block : CBlock) (view : CCoinsViewCache) : Prop :=
  ∀ tx ∈ block.vtx, ∀ i < tx.vout.length, view.getCoin (tx.outpoint i) = none

structure ContentsConnected (ctx : ConnectContext) (block : CBlock) (pindex : CBlockIndex)
    (fJustCheck : Bool) (s s' : ConnectState) (totals : Totals) (s1 : ConnectState)
    (coinbase : CTransaction) (valueOut : CAmount) (added : List Int) : Prop where
  parent : pindex.tail ≠ []
  new : NewOutputs block s.view
  transactions : TransactionsConnected ctx block pindex block.vtx.zipIdx {} totals s s1
  reward : RewardChecked ctx block pindex totals coinbase valueOut added
  final : s' = stored pindex fJustCheck totals.vtxundo
    { s1 with amounts := s1.amounts ++ added }

lemma connectContents_ok (h : ctx.connectContents block pindex fJustCheck s = .ok () s') :
    ∃ totals s1 coinbase valueOut added,
      ContentsConnected ctx block pindex fJustCheck s s' totals s1 coinbase valueOut added := by
  have ⟨_, hp, h⟩ := check_bind.mp h
  have ⟨(), s0, hc, h⟩ := bind_eq_ok.mp h
  have ⟨hb, hs0⟩ := check_eq_ok.mp hc
  have ⟨totals, s1, ht, h⟩ := bind_eq_ok.mp h
  have ⟨_, s2, hq, h⟩ := bind_eq_ok.mp h
  have ⟨coinbase, valueOut, added, hr, hs2⟩ := checkReward_ok hq
  have ⟨_, h⟩ := rejectIf_bind.mp h
  rw [hs0] at ht
  rw [hs2] at h
  refine ⟨totals, s1, coinbase, valueOut, added, ?_⟩
  constructor
  case parent =>
    intro hn
    simp [hn, rejectIf, fault] at hp
  case new =>
    intro tx ht i hi
    simp only [rejectIf_dos_eq_ok, List.any_eq_false, List.any_eq_true, List.mem_range,
      not_exists, not_and] at hb
    simpa [CCoinsViewCache.haveCoin] using hb tx ht i hi
  case transactions => exact connectTransactions_ok ht
  case reward => exact hr
  case final => exact storeBlock_ok h

lemma checkKernel_eq_ok (h : ctx.checkKernel block pindex s = .ok hashProof s') :
    (block.isProofOfStake = false ∧ s' = s) ∨
    ∃ coinstake txin coin st, 2 ≤ ctx.params.forkNumber (nHeight pindex) ∧
      block.vtx[1]? = some coinstake ∧ coinstake.vin.head? = some txin ∧
      ctx.pcoinsTip.unspent txin.prevout = some coin ∧
      checkProofOfStake ctx.params ctx.chainActive block.getBlockHeader txin.prevout
        coin.out.nValue (ctx.correctCoin txin.prevout coin).1
        (ctx.correctCoin txin.prevout coin).2 s.stake = .ok (some hashProof) st ∧
      s' = { s with stake := st } := by
  simp only [checkKernel] at h
  split at h
  case isTrue hp => exact .inl ⟨by simpa using hp, (pure_eq_ok.mp h).2.symm⟩
  split at h
  · simp [check, plainError] at h
  rename_i hfork
  cases hv : block.vtx[1]?
  case none => simp [hv, check, plainError] at h
  rename_i coinstake
  simp only [hv] at h
  cases hi : coinstake.vin
  case nil => simp [hi, check, plainError] at h
  case cons txin _ =>
  simp only [hi] at h
  cases hc : ctx.pcoinsTip.unspent txin.prevout
  case none => simp [hc, check, dos] at h
  rename_i coin
  simp only [hc] at h
  obtain ⟨found, s1, hk, h⟩ := bind_eq_ok.mp h
  obtain ⟨st, hpos, hs⟩ := stake_eq_ok hk
  cases found
  case none => simp [check, dos] at h
  case some =>
  obtain ⟨he, hs'⟩ := pure_eq_ok.mp h
  exact .inr ⟨coinstake, txin, coin, st, Nat.le_of_not_lt hfork, rfl, by rw [hi]; rfl, hc,
    he ▸ hpos, hs' ▸ hs⟩

lemma checkKernel_ok (h : ctx.checkKernel block pindex s = .ok hashProof s') :
    (block.isProofOfStake → ∃ coinstake, block.vtx[1]? = some coinstake) ∧
    ∃ st, s' = { s with stake := st } := by
  cases checkKernel_eq_ok h
  case inl h => exact ⟨fun ht => by simp [ht] at h, s.stake, h.2⟩
  case inr h =>
  have ⟨coinstake, _, _, st, _, hv, _, _, _, hs⟩ := h
  exact ⟨fun _ => ⟨coinstake, hv⟩, st, hs⟩

lemma storeStake_ok (h : ctx.storeStake block pindex hashProof fJustCheck s = .ok () s') :
    ∃ st, s' = { s with stake := st } := by
  simp only [storeStake] at h
  split at h
  · exact ⟨s.stake, (pure_eq_ok.mp h).2.symm⟩
  have ⟨_, _, hk, h⟩ := bind_eq_ok.mp h
  have ⟨st, _, hs⟩ := stake_eq_ok hk
  simp only [modifyStake, modify_bind, hs] at h
  simp only [when] at h
  split at h
  · exact ⟨_, modify_eq_ok.mp h⟩
  · exact ⟨_, (pure_eq_ok.mp h).2.symm⟩

lemma checkKernel_keeps_of
    (hs : ∀ header out nValue time offset, (stake (checkProofOfStake ctx.params
      ctx.chainActive header out nValue time offset)).Keeps f) :
    (ctx.checkKernel block pindex).Keeps f := by
  unfold checkKernel
  split
  · exact .pure _
  split
  · exact check_keeps
  split
  · exact check_keeps
  split
  case h_1 => exact check_keeps
  case h_2 =>
  split
  case h_1 => exact check_keeps
  refine (hs _ _ _ _ _).bind fun found => ?_
  cases found
  case none => exact check_keeps
  case some => exact .pure _

lemma checkKernel_keeps : (ctx.checkKernel block pindex).Keeps stores :=
  checkKernel_keeps_of fun _ _ _ _ _ => stake_keeps

lemma storeStake_keeps : (ctx.storeStake block pindex hashProof fJustCheck).Keeps stores := by
  unfold storeStake
  split
  · exact .pure _
  refine stake_keeps.bind fun _ => .bind (fun _ => rfl) fun _ => ?_
  unfold when
  split
  · exact fun _ => rfl
  · exact .pure _

lemma checkBlockAgain_keeps : (ctx.checkBlockAgain block pindex fJustCheck).Keeps stores :=
  traced_keeps.bind fun _ => check_keeps

lemma connectBlock_misplaced (h : CBlockIndex.getBlockHash pindex.tail ≠ s.view.getBestBlock) :
    (ctx.connectBlock block pindex fJustCheck).Fails s (·.stores = s.stores) := by
  refine check_keeps.bind_fails fun _ s1 h1 => checkKernel_keeps.bind_fails fun _ s2 h2 =>
    storeStake_keeps.bind_fails fun _ s3 h3 => checkBlockAgain_keeps.bind_fails fun _ s4 h4 => ?_
  have hv : s4.view = s.view := congrArg Prod.fst (h4.trans (h3.trans (h2.trans h1)))
  have ha : assertBestBlock pindex s4 = .error (.fault .assertion) s4 := by
    simp [assertBestBlock, bind_get, rejectIf, hv, h, check, fault]
  exact ⟨_, s4, bind_of_error ha, rfl⟩

structure BlockPrepared (ctx : ConnectContext) (block : CBlock) (pindex : CBlockIndex)
    (fJustCheck : Bool) (s : ConnectState) : Prop where
  entry : pindex ≠ []
  hash : pindex.getBlockHash = block.getHash
  coinstake : block.isProofOfStake → ∃ coinstake, block.vtx[1]? = some coinstake
  checked : (checkBlock ctx.checkContext block pindex.tail (!fJustCheck) (!fJustCheck)).1 = .ok ()
  best : CBlockIndex.getBlockHash pindex.tail = s.view.getBestBlock

def prepared (block : CBlock) (st : StakeStore) (s : ConnectState) : ConnectState :=
  { s with stake := st, amounts := s.amounts ++ (checkBlockAmounts block).exact }

omit [Crypto] in
lemma ok_of_mapError {c : Check α} : c.mapError f = .ok a ↔ c = .ok a := by
  cases c <;> simp [Except.mapError]

lemma connectBlock_ok (h : ctx.connectBlock block pindex fJustCheck s = .ok () s') :
    BlockPrepared ctx block pindex fJustCheck s ∧ ∃ st,
    if block.getHash = ctx.params.hashGenesisBlock then
      s' = if fJustCheck then prepared block st s
        else setBestBlock pindex.getBlockHash (prepared block st s)
    else ctx.connectContents block pindex fJustCheck (prepared block st s) = .ok () s' := by
  obtain ⟨_, ha, h⟩ := check_bind.mp h
  obtain ⟨hash, s1, hk, h⟩ := bind_eq_ok.mp h
  obtain ⟨hv, st1, hs1⟩ := checkKernel_ok hk
  obtain ⟨_, s2, hm, h⟩ := bind_eq_ok.mp h
  obtain ⟨st, hs2⟩ := storeStake_ok hm
  obtain ⟨_, s3, hb, h⟩ := bind_eq_ok.mp h
  obtain ⟨hb, hs3⟩ := check_eq_ok.mp hb
  obtain ⟨_, s4, hp, h⟩ := bind_eq_ok.mp h
  obtain ⟨hp, hs4⟩ := check_eq_ok.mp hp
  rw [hs1] at hs2
  rw [hs2] at hs3
  rw [hs3] at hp hs4
  rw [hs4] at h
  have ha : pindex ≠ [] ∧ pindex.getBlockHash = block.getHash := by
    simp only [rejectIf] at ha
    split at ha
    · cases ha
    case isFalse hn => simpa using hn
  have hp : CBlockIndex.getBlockHash pindex.tail = s.view.getBestBlock := by
    simp only [rejectIf] at hp
    split at hp
    · cases hp
    case isFalse hn => simpa using hn
  refine ⟨⟨ha.1, ha.2, hv, ok_of_mapError.mp hb, hp⟩, st, ?_⟩
  split at h
  case isTrue hg =>
    rw [if_pos hg]
    cases fJustCheck
    case true => exact (pure_eq_ok.mp h).2.symm
    case false => exact modify_eq_ok.mp h
  case isFalse hg =>
  rw [if_neg hg]
  exact h

end ConnectContext

end Taler
