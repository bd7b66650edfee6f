import TalerModel.Chain.Theorems.Stake
import TalerModel.Validation.Theorems.Ledger

namespace Taler

open CCoinsViewCache Connect Check

-- The block of an entry is on the active chain or the next one for it.
def OnChain (pindex tip : CBlockIndex) : Prop :=
  tip = pindex.tail ∨ pindex <:+ tip

variable {pindex tip tip' : CBlockIndex} {coin : Coin}

lemma OnChain.getAncestor_lt (h : OnChain pindex tip) (hh : height < nHeight pindex) :
    getAncestor tip height = getAncestor pindex.tail height := by
  cases h
  case inl h => rw [h]
  case inr h =>
  have hn : pindex ≠ [] := List.ne_nil_of_length_pos (by rw [nHeight] at hh; omega)
  rw [getAncestor_tail hh, getAncestor_suffix h hn hh.le]

lemma OnChain.getAncestor_self (h : OnChain pindex tip) (hp : pindex ≠ []) :
    getAncestor tip (nHeight pindex) = [] ∨ getAncestor tip (nHeight pindex) = pindex := by
  cases h
  case inl h =>
    rw [h, getAncestor]
    split
    · exact .inl rfl
    rename_i hn
    simp only [nHeight, List.length_tail] at hn
    have hz : pindex.tail.length = 0 := by rw [List.length_tail]; omega
    rw [List.length_eq_zero_iff.mp hz]
    exact .inl List.drop_nil
  case inr h => exact .inr (getAncestor_eq h hp)

section

variable {params : Params} {view other : CCoinsViewCache} {tx : CTransaction}

lemma OnChain.spendsTooEarly (h : OnChain pindex tip) (h' : OnChain pindex tip') (hp : pindex ≠ [])
    (hc : coin.nHeight ≤ nHeight pindex) :
    spendsTooEarly params tip' coin height pindex.getBlockTime =
      spendsTooEarly params tip coin height pindex.getBlockTime := by
  by_cases he : coin.nHeight = nHeight pindex
  · have hself {tip : CBlockIndex} (h : OnChain pindex tip) :
        Taler.spendsTooEarly params tip coin height pindex.getBlockTime = false := by
      rw [Taler.spendsTooEarly, he]
      cases h.getAncestor_self hp
      case inl ha => simp [ha]
      case inr ha => simp [ha]
    rw [hself h, hself h']
  have hlt := Nat.lt_of_le_of_ne hc he
  rw [Taler.spendsTooEarly, Taler.spendsTooEarly, h.getAncestor_lt hlt, h'.getAncestor_lt hlt]

lemma OnChain.coinTime (h : OnChain pindex tip) (h' : OnChain pindex tip')
    (hc : coin.nHeight < nHeight pindex) : coinTime tip' coin = coinTime tip coin := by
  rw [Taler.coinTime, Taler.coinTime, h.getAncestor_lt hc, h'.getAncestor_lt hc]

def HeightsUpTo (height : Nat) (view : CCoinsViewCache) : Prop :=
  ∀ out coin, view.getCoin out = some coin → coin.nHeight ≤ height

lemma accessCoin_again (hc : other.getCoin = view.getCoin) (hi : view.haveCoin out) :
    ∃ coin, view.getCoin out = some coin ∧ view.accessCoin out = coin ∧
      other.accessCoin out = coin := by
  have ⟨coin, hg⟩ := Option.isSome_iff_exists.mp hi
  exact ⟨coin, hg, accessCoin_of_getCoin hg, accessCoin_of_getCoin ((congrFun hc out).trans hg)⟩

section

variable (h : OnChain pindex tip) (h' : OnChain pindex tip') (hp : pindex ≠ [])
  (hh : HeightsUpTo (nHeight pindex) view) (hc : other.getCoin = view.getCoin)
include h h' hp hh hc

lemma checkInputValues_again (hi : ∀ txin ∈ vin, view.haveCoin txin.prevout) :
    checkInputValues params tip' other height pindex.getBlockTime n vin =
      checkInputValues params tip view height pindex.getBlockTime n vin := by
  induction vin generalizing n
  case nil => rfl
  case cons txin vin hn =>
  have ⟨hi0, hi⟩ := List.forall_mem_cons.mp hi
  have ⟨coin, hg, ha, ha'⟩ := accessCoin_again hc hi0
  simp only [checkInputValues, ha, ha', h.spendsTooEarly h' hp (hh _ _ hg), hn hi]

lemma checkTxInputs_again (hcb : tx.isCoinBase = false) :
    checkTxInputs params tip' tx other height pindex.getBlockTime =
      checkTxInputs params tip tx view height pindex.getBlockTime := by
  have he : other.haveInputs tx = view.haveInputs tx := by
    simp only [haveInputs, haveCoin, hc]
  cases hi : view.haveInputs tx
  case false => simp [checkTxInputs, he, hi]
  have hall : ∀ txin ∈ tx.vin, view.haveCoin txin.prevout := by
    simpa [haveInputs, hcb] using hi
  simp only [checkTxInputs, he, checkInputValues_again h h' hp hh hc hall]

end

lemma sumCentSeconds_again (h : OnChain pindex tip) (h' : OnChain pindex tip')
    (hc : other.getCoin = view.getCoin)
    (hh : ∀ txin ∈ vin, ∀ coin ∈ view.getCoin txin.prevout, coin.nHeight < nHeight pindex) :
    sumCentSeconds params tip' other nTime n vin = sumCentSeconds params tip view nTime n vin := by
  induction vin generalizing n
  case nil => rfl
  case cons txin vin hn =>
  have ⟨hh0, hh⟩ := List.forall_mem_cons.mp hh
  cases hg : view.getCoin txin.prevout
  case none => simp only [sumCentSeconds, hc, hg]
  case some coin =>
    simp only [sumCentSeconds, hc, hg, centSeconds, h.coinTime h' (hh0 coin hg), hn hh]

section

variable (h : (checkTxInputs params tip tx view height time).val = .ok txfee)
include h

lemma haveInputs_of_checkTxInputs : view.haveInputs tx := by
  cases hi : view.haveInputs tx
  case true => rfl
  case false => simp [checkTxInputs, hi, dos] at h

lemma mature_of_checkTxInputs :
    ∀ txin ∈ tx.vin, spendsImmature params (view.accessCoin txin.prevout) height = false := by
  simp only [checkTxInputs, haveInputs_of_checkTxInputs h, Bool.not_true, Bool.false_eq_true,
    if_false, Traced.bind_val] at h
  cases hc : (checkInputValues params tip view height time 0 tx.vin).val
  case error => simp [hc] at h
  case ok =>
  obtain ⟨hr, _⟩ := checkInputValues_inRange (le_refl 0) (by simp [MAX_MONEY, COIN]) hc
  exact fun txin hm => (hr.coins txin hm).2

end

lemma inputCoins_again (hc : other.getCoin = view.getCoin)
    (hi : ∀ txin ∈ tx.vin, view.haveCoin txin.prevout) :
    inputCoins tx other = inputCoins tx view := by
  refine List.map_congr_left fun txin hm => ?_
  have ⟨_, _, ha, ha'⟩ := accessCoin_again hc (hi txin hm)
  rw [ha, ha']

end

namespace ConnectContext

open Connect EStateM

structure Like (s t : ConnectState) : Prop where
  coherent : s.view.Coherent
  coherent' : t.view.Coherent
  coins : t.view.getCoin = s.view.getCoin

variable {ctx : ConnectContext} {block : CBlock} {tx : CTransaction} {totals totals' : Totals}
  {s s' t : ConnectState} {i : Nat} {coins : CCoinsView}

lemma get_reaches (h : Reaches (f t) t a post) : Reaches (get >>= f) t a post :=
  h

lemma check_reaches (hc : c = .ok a) (h : Reaches (f a) t b post) :
    Reaches (check c >>= f) t b post := by
  rw [hc]
  exact h

lemma traced_reaches (h : Reaches (f x.val) { t with amounts := t.amounts ++ x.exact } b post) :
    Reaches (traced x >>= f) t b post :=
  h

lemma modify_reaches (h : Reaches (f ()) (g t) a post) :
    Reaches ((modify g : Connect Unit) >>= f) t a post :=
  h

lemma pure_reaches (h : post t) : Reaches (pure a : Connect α) t a post :=
  ⟨t, rfl, h⟩

section

variable (hv : t.view.getCoin = s.view.getCoin) (h : OnChain pindex ctx.chainActive)
  (h' : OnChain pindex tip)
include hv h h'

lemma coinstakeReward_again
    (hh : ∀ txin ∈ tx.vin, ∀ coin ∈ s.view.getCoin txin.prevout, coin.nHeight < nHeight pindex)
    (hr : ctx.coinstakeReward block pindex tx txfee s = .ok reward s') :
    Reaches ((ctx.withTip tip coins).coinstakeReward block pindex tx txfee) t reward
      (·.view = t.view) := by
  have ha : getCoinAge ctx.params tip tx t.view block.nTime =
      getCoinAge ctx.params ctx.chainActive tx s.view block.nTime := by
    simp only [getCoinAge, sumCentSeconds_again h h' hv hh]
  rw [coinstakeReward, bind_get, traced_bind] at hr
  obtain ⟨hf, hr⟩ := rejectIf_bind.mp hr
  refine get_reaches (traced_reaches (check_reaches (rejectIf_dos_eq_ok.mpr hf) ?_))
  simp only [withTip, ha]
  cases hn : getCoinAge ctx.params ctx.chainActive tx s.view block.nTime
  case none => simp [hn, check, plainError] at hr
  simp only [hn] at hr
  rw [(traced_eq_ok.mp hr).1]
  exact ⟨_, traced_eq_ok.mpr ⟨rfl, rfl⟩, rfl⟩

lemma updateReward_again
    (hh : isCoinstake block i → ∀ txin ∈ tx.vin, ∀ coin ∈ s.view.getCoin txin.prevout,
      coin.nHeight < nHeight pindex)
    (hr : ctx.updateReward block pindex i tx txfee posReward s = .ok reward s') :
    Reaches ((ctx.withTip tip coins).updateReward block pindex i tx txfee posReward) t reward
      (·.view = t.view) := by
  rw [updateReward] at hr ⊢
  split at hr
  case isTrue hi =>
    rw [if_pos hi]
    exact coinstakeReward_again hv h h' (hh hi) hr
  case isFalse hi =>
  rw [if_neg hi, (pure_eq_ok.mp hr).1]
  exact pure_reaches rfl

end

lemma checkSequenceLocks_again (hv : other.getCoin = view.getCoin)
    (hi : ∀ txin ∈ tx.vin, view.haveCoin txin.prevout) :
    (ctx.withTip tip coins).checkSequenceLocks pindex tx other =
      ctx.checkSequenceLocks pindex tx view := by
  have hp : (tx.vin.map fun txin => (other.accessCoin txin.prevout).nHeight) =
      tx.vin.map fun txin => (view.accessCoin txin.prevout).nHeight := by
    refine List.map_congr_left fun txin hm => ?_
    have ⟨_, _, ha, ha'⟩ := accessCoin_again hv (hi txin hm)
    rw [ha, ha']
  simp only [checkSequenceLocks, withTip, hp]
  rfl

variable [Crypto] {p : CBlockIndex}

-- The age of a coinstake's inputs is counted for coins of the chain below the block only.
def StakesOld (ctx : ConnectContext) (block : CBlock) (pindex : CBlockIndex) (i : Nat)
    (tx : CTransaction) (view : CCoinsViewCache) : Prop :=
  isCoinstake block i → ∀ txin ∈ tx.vin, ∀ coin ∈ view.getCoin txin.prevout,
    spendsImmature ctx.params coin (nHeight pindex) = false → coin.nHeight < nHeight pindex

lemma connectInputs_again (hv : t.view.getCoin = s.view.getCoin)
    (h : OnChain pindex ctx.chainActive) (h' : OnChain pindex tip) (hp : pindex ≠ [])
    (hh : HeightsUpTo (nHeight pindex) s.view) (hcb : tx.isCoinBase = false)
    (hold : StakesOld ctx block pindex i tx s.view)
    (hr : ctx.connectInputs block pindex i tx totals s = .ok totals' s') :
    Reaches ((ctx.withTip tip coins).connectInputs block pindex i tx totals) t totals'
      (·.view = t.view) := by
  simp only [connectInputs, hcb, Bool.false_eq_true, if_false, bind_get, traced_bind] at hr ⊢
  obtain ⟨txfee, hf, hr⟩ := check_bind.mp hr
  have hall : ∀ txin ∈ tx.vin, s.view.haveCoin txin.prevout := by
    simpa [haveInputs, hcb] using haveInputs_of_checkTxInputs hf
  obtain ⟨hm, hr⟩ := rejectIf_bind.mp hr
  obtain ⟨posReward, s1, hu, hr⟩ := bind_eq_ok.mp hr
  obtain ⟨_, hq, hr⟩ := check_bind.mp hr
  rw [← (pure_eq_ok.mp hr).1]
  have hf' : (checkTxInputs (ctx.withTip tip coins).params (ctx.withTip tip coins).chainActive tx
      t.view (nHeight pindex) pindex.getBlockTime).val = .ok txfee := by
    rw [withTip, checkTxInputs_again h h' hp hh hv hcb]
    exact hf
  have hage (hi : isCoinstake block i) txin (htx : txin ∈ tx.vin) coin
      (hcoin : coin ∈ s.view.getCoin txin.prevout) : coin.nHeight < nHeight pindex := by
    have himm := mature_of_checkTxInputs hf txin htx
    rw [accessCoin_of_getCoin hcoin] at himm
    exact hold hi txin htx coin hcoin himm
  refine get_reaches (traced_reaches (check_reaches hf' (traced_reaches
    (check_reaches (rejectIf_dos_eq_ok.mpr hm) ?_))))
  refine (updateReward_again (by exact hv) h h' (by exact hage) hu).bind fun t1 hv1 => ?_
  refine check_reaches ((checkSequenceLocks_again hv hall).trans hq) (modify_reaches ?_)
  exact pure_reaches hv1

section

omit [Crypto]

lemma countSigOps_again (hv : t.view.getCoin = s.view.getCoin) (hi : s.view.haveInputs tx)
    (hr : ctx.countSigOps pindex tx totals s = .ok totals' s') :
    Reaches ((ctx.withTip tip coins).countSigOps pindex tx totals) t totals' (· = t) := by
  have hcost flags : getTransactionSigOpCost tx t.view flags =
      getTransactionSigOpCost tx s.view flags := by
    cases hcb : tx.isCoinBase
    case true => simp only [getTransactionSigOpCost, hcb, if_true]
    have hall : ∀ txin ∈ tx.vin, s.view.haveCoin txin.prevout := by
      simpa [haveInputs, hcb] using hi
    simp only [getTransactionSigOpCost, inputCoins_again hv hall]
  obtain ⟨cost, hc, hr⟩ := check_bind.mp hr
  obtain ⟨hm, hr⟩ := rejectIf_bind.mp hr
  rw [← (pure_eq_ok.mp hr).1]
  exact get_reaches (check_reaches ((hcost _).trans hc)
    (check_reaches (rejectIf_dos_eq_ok.mpr hm) (pure_reaches rfl)))

lemma checkScripts_again (hv : t.view.getCoin = s.view.getCoin) (hi : s.view.haveInputs tx)
    (hr : ctx.checkScripts pindex tx totals s = .ok totals' s') :
    Reaches ((ctx.withTip tip coins).checkScripts pindex tx totals) t totals' (· = t) := by
  cases hcb : tx.isCoinBase
  case true =>
    simp only [checkScripts, hcb, if_true] at hr ⊢
    rw [(pure_eq_ok.mp hr).1]
    exact pure_reaches rfl
  have hall : ∀ txin ∈ tx.vin, s.view.haveCoin txin.prevout := by
    simpa [haveInputs, hcb] using hi
  simp only [checkScripts, hcb, Bool.false_eq_true, if_false, bind_get] at hr ⊢
  obtain ⟨_, hc, hr⟩ := check_bind.mp hr
  rw [← (pure_eq_ok.mp hr).1, ← inputCoins_again hv hall]
  rw [← inputCoins_again hv hall] at hc
  exact get_reaches (check_reaches hc (pure_reaches rfl))

lemma applyTransaction_again
    (hr : applyTransaction pindex i tx totals s = .ok totals' s') (hl : Like s t)
    (hi : s.view.haveInputs tx) (hc : Connectable s.view S tx) (hc' : Connectable t.view S tx) :
    Reaches (applyTransaction pindex i tx totals) t totals'
      fun t' => Like s' t' ∧ ∃ m, Updates t.view t'.view m := by
  have ⟨vprevout, hu, _, ht⟩ := applyTransaction_ok hr
  have ⟨view', hu'⟩ := hl.coherent.updateCoins_again hl.coherent' hl.coins hc.inputs hi hc.shown
    hc'.shown hu
  have hi' : t.view.haveInputs tx := by
    simpa only [haveInputs, haveCoin, hl.coins] using hi
  have hup := (hl.coherent.updateCoins_updated hc.inputs hi hc.shown hu).updates
  have hup' := (hl.coherent'.updateCoins_updated hc'.inputs hi' hc'.shown hu').updates
  rw [ht]
  refine get_reaches (check_reaches hu' (modify_reaches (pure_reaches ?_)))
  exact ⟨⟨hup.coherent, hup'.coherent, by rw [hup.coins, ← hl.coins]; exact hup'.coins⟩, _, hup'⟩

end

lemma connectTransaction_again (hl : Like s t) (h : OnChain pindex ctx.chainActive)
    (h' : OnChain pindex tip) (hp : pindex ≠ []) (hh : HeightsUpTo (nHeight pindex) s.view)
    (hold : StakesOld ctx block pindex i tx s.view) (hc : Connectable s.view S tx)
    (hc' : Connectable t.view S tx)
    (hr : ctx.connectTransaction block pindex i tx totals s = .ok totals' s') :
    Reaches ((ctx.withTip tip coins).connectTransaction block pindex i tx totals) t totals'
      fun t' => Like s' t' ∧ ∃ m, Updates t.view t'.view m := by
  obtain ⟨_, _, hd⟩ := connectTransaction_ok hr
  obtain ⟨hi, _⟩ := hd.updated hc hl.coherent
  obtain ⟨totals1, s1, hin, hr⟩ := bind_eq_ok.mp hr
  obtain ⟨totals2, s2, hg, hr⟩ := bind_eq_ok.mp hr
  obtain ⟨totals3, s3, hsc, hr⟩ := bind_eq_ok.mp hr
  obtain ⟨hs3, _⟩ := checkScripts_ok hsc
  obtain ⟨hs2, _⟩ := countSigOps_ok hg
  rw [hs3, hs2] at hr
  rw [hs2] at hsc
  obtain ⟨hv1, hin'⟩ : s1.view = s.view ∧
      Reaches ((ctx.withTip tip coins).connectInputs block pindex i tx totals) t totals1
        (·.view = t.view) := by
    cases hcb : tx.isCoinBase
    case true =>
      simp only [connectInputs, hcb, if_true] at hin ⊢
      obtain ⟨ht, hs⟩ := pure_eq_ok.mp hin
      rw [ht, hs]
      exact ⟨rfl, pure_reaches rfl⟩
    case false =>
    obtain ⟨_, _, hs⟩ := connectInputs_ok hcb hin
    exact ⟨by rw [hs], connectInputs_again hl.coins h h' hp hh hcb hold hin⟩
  refine hin'.bind fun t1 ht1 => ?_
  have hcoins : t1.view.getCoin = s1.view.getCoin := by rw [ht1, hv1, hl.coins]
  refine (countSigOps_again hcoins (hv1 ▸ hi) hg).bind fun t2 ht2 => ?_
  rw [ht2]
  refine (checkScripts_again hcoins (hv1 ▸ hi) hsc).bind fun t3 ht3 => ?_
  rw [ht3]
  have hc1 : Connectable s1.view S tx := hv1 ▸ hc
  have hc1' : Connectable t1.view S tx := ht1 ▸ hc'
  have hl1 : Like s1 t1 := ⟨hv1 ▸ hl.coherent, ht1 ▸ hl.coherent', hcoins⟩
  rw [← ht1]
  exact modify_reaches (applyTransaction_again hr ⟨hl1.coherent, hl1.coherent', hl1.coins⟩
    (by exact hv1 ▸ hi) hc1 hc1')

lemma TransactionConnected.heights
    (h : TransactionConnected ctx block pindex i tx totals totals' s s' vprevout added)
    (hc : Connectable s.view S tx) (hv : s.view.Coherent)
    (hh : HeightsUpTo (nHeight pindex) s.view) :
    Updates s.view s'.view (Ledger.connect ctx pindex tx ⟨s.view.getCoin, fun _ => none⟩).coins ∧
    HeightsUpTo (nHeight pindex) s'.view := by
  have ⟨_, hu⟩ := h.updated hc hv
  refine ⟨hu.updates, fun out coin hg => ?_⟩
  rw [hu.updates.coins] at hg
  cases @Ledger.connect_coins_cases _ ctx pindex tx ⟨s.view.getCoin, fun _ => none⟩ out coin hg
  case inl hm =>
    have ⟨_, _, _, hn, _⟩ := Ledger.mem_coins_outpoint hm
    exact Nat.le_of_eq hn
  case inr hg => exact hh out coin hg.2.2

lemma connectTransactions_again {rest : List CTransaction} (h : OnChain pindex ctx.chainActive)
    (h' : OnChain pindex tip) (hp : pindex ≠ []) (hl : Like s t)
    (hh : HeightsUpTo (nHeight pindex) s.view) (hk : 1 ≤ k)
    (hold : k = 1 → ∀ tx ∈ rest.head?, StakesOld ctx block pindex 1 tx s.view)
    (hc : ∀ tx ∈ rest, Connectable s.view S tx) (hc' : ∀ tx ∈ rest, Connectable t.view S tx)
    (hr : ctx.connectTransactions block pindex (rest.zipIdx k) totals s = .ok totals' s') :
    Reaches ((ctx.withTip tip coins).connectTransactions block pindex (rest.zipIdx k) totals) t
      totals' (Like s') := by
  induction rest generalizing k totals s t
  case nil =>
    obtain ⟨ht, hs⟩ := pure_eq_ok.mp hr
    rw [ht, ← hs]
    exact pure_reaches hl
  case cons tx rest hi =>
  obtain ⟨hc0, hc⟩ := List.forall_mem_cons.mp hc
  obtain ⟨hc0', hc'⟩ := List.forall_mem_cons.mp hc'
  obtain ⟨totals1, s1, hd, hr⟩ := bind_eq_ok.mp hr
  obtain ⟨_, _, hd1⟩ := connectTransaction_ok hd
  obtain ⟨hu, hh1⟩ := hd1.heights hc0 hl.coherent hh
  -- Only the second transaction of the block is taken for a coinstake.
  have hold0 : StakesOld ctx block pindex k tx s.view := by
    by_cases he : k = 1
    · exact he ▸ hold he tx rfl
    intro hcs
    simp [isCoinstake, he] at hcs
  refine (connectTransaction_again hl h h' hp hh hold0 hc0 hc0' hd).bind fun t1 ht1 => ?_
  obtain ⟨hl1, _, hu'⟩ := ht1
  exact hi hl1 hh1 (Nat.le_succ_of_le hk) (fun he => by omega)
    (fun tx hm => (hc tx hm).updates hu) (fun tx hm => (hc' tx hm).updates hu') hr

lemma stakesOld_second (hc : coinbase.isCoinBase)
    (hg : s'.view.getCoin =
      (Ledger.connect ctx pindex coinbase ⟨s.view.getCoin, fun _ => none⟩).coins)
    (hb : ∀ out coin, s.view.getCoin out = some coin → coin.nHeight < nHeight pindex) :
    StakesOld ctx block pindex 1 tx s'.view := by
  intro _ txin _ coin hcoin himm
  rw [hg] at hcoin
  cases @Ledger.connect_coins_cases _ ctx pindex coinbase ⟨s.view.getCoin, fun _ => none⟩ _ coin
    hcoin
  case inl hm =>
    have ⟨out, i, _, _, he⟩ := mem_outputCoins hm
    rw [(Prod.mk.inj he).2] at himm
    simp only [spendsImmature, Coin.isCoinBase, CTransaction.coin, hc, Bool.true_and, sub_self,
      coinMaturity, decide_eq_false_iff_not] at himm
    split at himm <;> simp [COINBASE_MATURITY] at himm
  case inr hm => exact hb _ coin hm.2.2

omit [Crypto] in
lemma checkReward_again (hr : ctx.checkReward block pindex totals s = .ok () s') :
    Reaches ((ctx.withTip tip coins).checkReward block pindex totals) t () fun _ => True := by
  simp only [checkReward, traced_bind] at hr
  refine traced_reaches (traced_reaches ?_)
  cases hh : block.vtx.head?
  case none => simp [hh, check, fault] at hr
  rename_i coinbase
  simp only [hh, traced_bind] at hr ⊢
  refine traced_reaches ?_
  cases hv : coinbase.getValueOut.val
  case none => simp [hv, check, fault] at hr
  simp only [hv] at hr ⊢
  obtain ⟨hc, _⟩ := check_eq_ok.mp hr
  exact ⟨_, check_eq_ok.mpr ⟨hc, rfl⟩, trivial⟩

lemma connectContents_again (h : OnChain pindex ctx.chainActive) (h' : OnChain pindex tip)
    (hp : pindex ≠ []) (hl : Like s t) (hc : checkContents block = .ok ())
    (hb : ∀ out coin, s.view.getCoin out = some coin → coin.nHeight < nHeight pindex)
    (hr : ctx.connectContents block pindex fJustCheck s = .ok () s') :
    Reaches ((ctx.withTip tip coins).connectContents block pindex fJustCheck) t () fun _ => True := by
  obtain ⟨_, _, _, _, _, hcc⟩ := connectContents_ok hr
  have hnew := hcc.new
  have hnew' : NewOutputs block t.view := by
    intro tx hm i hi
    rw [hl.coins]
    exact hnew tx hm i hi
  have hS := Finset.Subset.refl (touched block)
  obtain ⟨_, hpar, hr⟩ := check_bind.mp hr
  obtain ⟨_, s0, hbip, hr⟩ := bind_eq_ok.mp hr
  obtain ⟨hbip, hs0⟩ := check_eq_ok.mp hbip
  obtain ⟨totals, s1, ht, hr⟩ := bind_eq_ok.mp hr
  obtain ⟨_, s2, hq, hr⟩ := bind_eq_ok.mp hr
  obtain ⟨hsc, hr⟩ := rejectIf_bind.mp hr
  rw [hs0] at ht
  refine check_reaches hpar ?_
  have hbip' : Reaches (checkBIP30 block) t () (· = t) := by
    refine get_reaches ⟨t, check_eq_ok.mpr ⟨?_, rfl⟩, rfl⟩
    simpa only [haveCoin, hl.coins] using hbip
  refine hbip'.bind fun t0 ht0 => ?_
  rw [ht0]
  have htx : Reaches ((ctx.withTip tip coins).connectTransactions block pindex block.vtx.zipIdx {})
      t totals (Like s1) := by
    obtain ⟨coinbase, rest, hvtx, hfirst, hothers⟩ := checkContents_coinbase hc
    have hm : coinbase ∈ block.vtx := by simp [hvtx]
    have hh : HeightsUpTo (nHeight pindex) s.view := fun out coin hg => Nat.le_of_lt (hb out coin hg)
    rw [hvtx, List.zipIdx_cons] at ht ⊢
    obtain ⟨totals1, s3, hd, ht⟩ := bind_eq_ok.mp ht
    obtain ⟨_, _, hd1⟩ := connectTransaction_ok hd
    have hconn := connectable_of_contents hc hnew hS hm
    obtain ⟨hu, hh1⟩ := hd1.heights hconn hl.coherent hh
    have hold : StakesOld ctx block pindex 0 coinbase s.view := by
      intro hcs
      simp [isCoinstake] at hcs
    refine (connectTransaction_again hl h h' hp hh hold hconn
      (connectable_of_contents hc hnew' hS hm) hd).bind fun t1 ht1 => ?_
    obtain ⟨hl1, _, hu'⟩ := ht1
    have hmem {tx : CTransaction} (hr : tx ∈ rest) : tx ∈ block.vtx := by simp [hvtx, hr]
    exact connectTransactions_again h h' hp hl1 hh1 (Nat.le_refl 1)
      (fun _ tx _ => stakesOld_second hfirst hu.coins hb)
      (fun tx hr => (connectable_of_contents hc hnew hS (hmem hr)).updates hu)
      (fun tx hr => (connectable_of_contents hc hnew' hS (hmem hr)).updates hu') ht
  refine htx.bind fun t1 _ => (checkReward_again hq).bind fun t2 _ => ?_
  refine check_reaches (rejectIf_dos_eq_ok.mpr hsc) ?_
  cases fJustCheck
  case true => exact pure_reaches trivial
  case false => exact ⟨_, rfl, trivial⟩

-- The kernel passes at the tip: its coin is unspent there, and its hash meets the target.
def KernelPasses (ctx : ConnectContext) (block : CBlock) (stake : StakeStore) : Prop :=
  ∃ coinstake txin coin proof stake',
    block.vtx[1]? = some coinstake ∧ coinstake.vin.head? = some txin ∧
    ctx.pcoinsTip.unspent txin.prevout = some coin ∧
    checkProofOfStake ctx.params ctx.chainActive block.getBlockHeader txin.prevout coin.out.nValue
      (ctx.correctCoin txin.prevout coin).1 (ctx.correctCoin txin.prevout coin).2 stake =
      .ok (some proof) stake'

lemma checkKernel_passes (h : ctx.checkKernel block pindex s = .ok proof s') :
    (block.isProofOfStake →
      ctx.params.forkNumber (nHeight pindex) ≥ 2 ∧ KernelPasses ctx block s.stake) ∧
    s'.stake.generated = s.stake.generated := by
  cases checkKernel_eq_ok h
  case inl h => exact ⟨fun ht => by simp [ht] at h, by rw [h.2]⟩
  rename_i h
  have ⟨coinstake, txin, coin, st, hfork, hv, hi, hc, hpos, hs⟩ := h
  rw [hs]
  exact ⟨fun _ => ⟨hfork, coinstake, txin, coin, proof, st, hv, hi, hc, hpos⟩,
    checkProofOfStake_generated hpos⟩

lemma checkKernel_again
    (h : block.isProofOfStake →
      ctx.params.forkNumber (nHeight pindex) ≥ 2 ∧ KernelPasses ctx block t.stake) :
    ∃ proof, Reaches (ctx.checkKernel block pindex) t proof fun t' =>
      t'.view = t.view ∧ t'.stake.generated = t.stake.generated := by
  cases hp : block.isProofOfStake
  case false => exact ⟨0, t, by simp [checkKernel, hp]; rfl, rfl, rfl⟩
  obtain ⟨hf, coinstake, txin, coin, proof, st, hv, hi, hc, hk⟩ := h hp
  obtain ⟨vin, hi⟩ := List.head?_eq_some_iff.mp hi
  refine ⟨proof, { t with stake := st }, ?_, rfl, checkProofOfStake_generated hk⟩
  simp only [checkKernel, hp, Bool.not_true, Bool.false_eq_true, if_false, Nat.not_lt.mpr hf, hv,
    hi, hc]
  have hstake : stake (checkProofOfStake ctx.params ctx.chainActive block.getBlockHeader
      txin.prevout coin.out.nValue (ctx.correctCoin txin.prevout coin).1
      (ctx.correctCoin txin.prevout coin).2) t = .ok (some proof) { t with stake := st } := by
    rw [stake, hk]
  exact bind_of_ok hstake

lemma storeStake_again (hf : FindsAncestors ctx.lookupBlockIndex pindex.tail)
    (hg : block.isNewestFormat = false → pindex.tail ≠ [] →
      t.stake.generated (lastGenerated t.stake.generated pindex.tail)) :
    Reaches (ctx.storeStake block pindex proof fJustCheck) t () (·.view = t.view) := by
  rw [storeStake]
  split
  · exact pure_reaches rfl
  rename_i hn
  obtain ⟨⟨modifier, fGenerated⟩, st, hs, _⟩ :=
    @getStakeModifier_returns ctx.params _ t.stake pindex _ hf (hg (by simpa using hn))
  have hstake : stake (getStakeModifier ctx.params ctx.lookupBlockIndex pindex) t =
      .ok (modifier, fGenerated) { t with stake := st } := by
    rw [stake, hs]
  have hstake : Reaches (stake (getStakeModifier ctx.params ctx.lookupBlockIndex pindex)) t
      (modifier, fGenerated) (·.view = t.view) := ⟨_, hstake, rfl⟩
  refine hstake.bind fun t1 ht1 => modify_reaches ?_
  rw [when]
  split
  · exact ⟨_, modify_eq_ok.mpr rfl, ht1⟩
  · exact pure_reaches ht1

lemma storeStake_found (h : ctx.storeStake block pindex proof fJustCheck s = .ok () s')
    (hn : block.isNewestFormat = false) (hp : pindex.tail ≠ []) :
    s.stake.generated (lastGenerated s.stake.generated pindex.tail) := by
  simp only [storeStake, hn, Bool.false_eq_true, if_false] at h
  obtain ⟨_, _, hk, _⟩ := bind_eq_ok.mp h
  obtain ⟨_, hm, _⟩ := stake_eq_ok hk
  exact generated_of_getStakeModifier hm hp

section

variable (h : OnChain pindex ctx.chainActive) (h' : OnChain pindex tip) (hm : block.Memo)
  (hl : Like s t) (hbest : t.view.getBestBlock = s.view.getBestBlock)
  (hb : ∀ out coin, s.view.getCoin out = some coin → coin.nHeight < nHeight pindex)
  (hf : FindsAncestors ctx.lookupBlockIndex pindex.tail)
  (hg : ∀ p, s.stake.generated p → t.stake.generated p)
  (hr : ctx.connectBlock block pindex fJustCheck s = .ok () s')

include h h' hm hl hbest hb hf hg hr

lemma connectBlock_again
    (hk : block.isProofOfStake → KernelPasses (ctx.withTip tip coins) block t.stake) :
    ∃ t', (ctx.withTip tip coins).connectBlock block pindex fJustCheck t = .ok () t' := by
  obtain ⟨hprep, _⟩ := connectBlock_ok hr
  obtain ⟨_, he, hr⟩ := check_bind.mp hr
  obtain ⟨proof, s1, hk1, hr⟩ := bind_eq_ok.mp hr
  obtain ⟨_, s2, hst, hr⟩ := bind_eq_ok.mp hr
  obtain ⟨_, s3, hchk, hr⟩ := bind_eq_ok.mp hr
  obtain ⟨_, s4, hab, hr⟩ := bind_eq_ok.mp hr
  obtain ⟨hkp, hgen⟩ := checkKernel_passes hk1
  obtain ⟨_, _, hs1⟩ := checkKernel_ok hk1
  obtain ⟨_, hs2⟩ := storeStake_ok hst
  obtain ⟨hchk, hs3⟩ := check_eq_ok.mp hchk
  obtain ⟨hab, hs4⟩ := check_eq_ok.mp hab
  have hv4 : s4.view = s.view := by rw [hs4, hs3, hs2, hs1]
  refine Exists.imp (fun t' ht => ht.1) (?_ : Reaches _ t () fun _ => True)
  refine check_reaches he ?_
  have hk' : ∃ proof', Reaches ((ctx.withTip tip coins).checkKernel block pindex) t proof'
      fun t' => t'.view = t.view ∧ t'.stake.generated = t.stake.generated :=
    checkKernel_again fun hp => ⟨(hkp hp).1, hk hp⟩
  obtain ⟨proof', hk'⟩ := hk'
  refine hk'.bind fun t1 ht1 => ?_
  have hfound (hn : block.isNewestFormat = false) (hp : pindex.tail ≠ []) :
      t1.stake.generated (lastGenerated t1.stake.generated pindex.tail) := by
    rw [ht1.2]
    refine lastGenerated_mono (fun p _ => hg p) ?_
    rw [← hgen]
    exact storeStake_found hst hn hp
  refine (storeStake_again hf hfound).bind fun t2 ht2 => ?_
  have hv2 := ht2.trans ht1.1
  have hchk' : Reaches ((ctx.withTip tip coins).checkBlockAgain block pindex fJustCheck) t2 ()
      (·.view = t.view) :=
    traced_reaches ⟨_, check_eq_ok.mpr ⟨hchk, rfl⟩, hv2⟩
  refine hchk'.bind fun t3 ht3 => ?_
  have hab' : Reaches (assertBestBlock pindex) t3 () (·.view = t.view) := by
    refine get_reaches ⟨_, check_eq_ok.mpr ⟨?_, rfl⟩, ht3⟩
    rw [ht3, hbest, ← hprep.best]
    simp [rejectIf]
  refine hab'.bind fun t4 ht4 => ?_
  split
  · cases fJustCheck
    case true => exact pure_reaches trivial
    case false => exact ⟨_, rfl, trivial⟩
  rename_i hne
  have hne : block.getHash ≠ ctx.params.hashGenesisBlock := hne
  have hl4 : Like s4 t4 := ⟨hv4 ▸ hl.coherent, ht4 ▸ hl.coherent', by rw [hv4, ht4, hl.coins]⟩
  rw [if_neg hne] at hr
  exact connectContents_again h h' hprep.entry hl4 (checkBlock_contents hm hprep.checked)
    (hv4 ▸ hb) hr

end

omit [Crypto] in
lemma setStakeModifier_generated {store : StakeStore} (h : store.generated p) :
    (store.setStakeModifier pindex modifier fGenerated).generated p := by
  rw [StakeStore.setStakeModifier]
  split
  · by_cases he : p = pindex
    · rw [he]; exact Function.update_self ..
    dsimp only
    rwa [Function.update_of_ne he]
  · exact h

omit [Crypto] in
lemma setStakeHash_generated {store : StakeStore} :
    (store.setStakeHash pindex proof).generated = store.generated := by
  rw [StakeStore.setStakeHash]
  split <;> rfl

lemma storeStake_generated (hf : FindsAncestors ctx.lookupBlockIndex pindex.tail)
    (h : ctx.storeStake block pindex proof fJustCheck s = .ok () s') (hp : s.stake.generated p) :
    s'.stake.generated p := by
  cases hn : block.isNewestFormat
  case true =>
    simp only [storeStake, hn, if_true] at h
    rwa [← (pure_eq_ok.mp h).2]
  have hg := storeStake_found h hn
  simp only [storeStake, hn, Bool.false_eq_true, if_false] at h
  obtain ⟨⟨modifier, fGenerated⟩, s1, hk, h⟩ := bind_eq_ok.mp h
  obtain ⟨st, hm, hs1⟩ := stake_eq_ok hk
  obtain ⟨_, _, hm', hst, _⟩ := @getStakeModifier_returns ctx.params _ s.stake pindex _ hf hg
  rw [hm] at hm'
  injection hm' with _ hst'
  have hp1 : st.generated p := by
    rw [hst', hst.generated]
    exact hp
  simp only [modifyStake, modify_bind, hs1, when] at h
  split at h
  · rw [modify_eq_ok.mp h]
    rw [setStakeHash_generated]
    exact setStakeModifier_generated hp1
  rw [← (pure_eq_ok.mp h).2]
  exact setStakeModifier_generated hp1

lemma TransactionsConnected.stake
    (h : TransactionsConnected ctx block pindex vtx totals totals' s s') : s'.stake = s.stake := by
  induction h
  case nil => rfl
  case cons head _ hi => exact hi.trans head.stake

lemma connectContents_stake (h : ctx.connectContents block pindex fJustCheck s = .ok () s') :
    s'.stake = s.stake := by
  have ⟨_, s1, _, _, _, h⟩ := connectContents_ok h
  have hs : s'.stake = s1.stake := by
    rw [h.final, stored]
    split
    · rfl
    rw [setBestBlock, writeUndoDataForBlock]
    split <;> rfl
  rw [hs, h.transactions.stake]

lemma connectBlock_generated (hf : FindsAncestors ctx.lookupBlockIndex pindex.tail)
    (h : ctx.connectBlock block pindex fJustCheck s = .ok () s') (hp : s.stake.generated p) :
    s'.stake.generated p := by
  have ⟨_, _, h⟩ := check_bind.mp h
  have ⟨proof, s1, hk, h⟩ := bind_eq_ok.mp h
  have ⟨(), s2, hst, h⟩ := bind_eq_ok.mp h
  have ⟨_, s3, hchk, h⟩ := bind_eq_ok.mp h
  have ⟨_, s4, hab, h⟩ := bind_eq_ok.mp h
  have hp2 : s2.stake.generated p :=
    storeStake_generated hf hst ((checkKernel_passes hk).2 ▸ hp)
  have hs4 : s4.stake = s2.stake := by
    rw [(check_eq_ok.mp hab).2, (check_eq_ok.mp hchk).2]
  have hs' : s'.stake = s4.stake := by
    split at h
    · cases fJustCheck
      case true => rw [← (pure_eq_ok.mp h).2]
      case false => rw [modify_eq_ok.mp h, setBestBlock]
    · exact connectContents_stake h
  rw [hs', hs4]
  exact hp2

section

-- The staking block of the examples once it is the tip: with its coin, or without.

section

omit [Crypto]

end

end

end ConnectContext

end Taler
