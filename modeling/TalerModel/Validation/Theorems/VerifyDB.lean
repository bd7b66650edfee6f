import TalerModel.Validation.Theorems.History
import TalerModel.Validation.VerifyDB

namespace Taler

open Ledger CCoinsViewCache PartialMap CBlockIndex List VerifyContext

namespace VerifyContext

open ConnectContext Connect EStateM

section

variable (ctx : VerifyContext) (level : Nat) (depth : Int)

def disconnected : CBlockIndex → List CBlockIndex
  | [] => []
  | b :: pprev =>
    if level < 3 || ctx.stopsAt depth (b :: pprev) || !ctx.hasRoom (b :: pprev) then [] else
    (b :: pprev) :: if ctx.shutdownRequested (b :: pprev) then [] else disconnected pprev

variable (pindex : CBlockIndex)

def scratchTip : CBlockIndex :=
  pindex.drop (ctx.disconnected level depth pindex).length

-- The entry that the walk stops at, and whether a shutdown ends it before.

def walkEnd : CBlockIndex → CBlockIndex
  | [] => []
  | b :: pprev => if ctx.stopsAt depth (b :: pprev) then b :: pprev else walkEnd pprev

def interrupted : CBlockIndex → Bool
  | [] => false
  | b :: pprev =>
    !ctx.stopsAt depth (b :: pprev) && (ctx.shutdownRequested (b :: pprev) || interrupted pprev)

def walkResult : VerifyWalk :=
  if ctx.interrupted depth pindex then .returned true
  else .stopped (ctx.walkEnd depth pindex) false

def isStake : Bool :=
  (ctx.readBlockFromDisk pindex).any (·.isProofOfStake)

-- The entry that blocks are connected up to again, from a base: a proof-of-stake block is not.
def reconnected (base pindex : CBlockIndex) : CBlockIndex :=
  match ((pindex.tails.takeWhile (· ≠ base)).reverse).find? ctx.isStake with
  | some p => p.tail
  | none => pindex

def verifiedTip : CBlockIndex :=
  let base := ctx.scratchTip level depth ctx.chainActive
  if level < 4 || ctx.interrupted depth ctx.chainActive || base ≠ ctx.walkEnd depth ctx.chainActive
  then base else ctx.reconnected base ctx.chainActive

end

variable [Crypto] {ctx : VerifyContext} {level : Nat} {depth : Int} {pindex : CBlockIndex}
  {t t' : ConnectState} {history : History} {txOf : Uint256 → CTransaction} {archive : Archive}

structure Holds (txOf : Uint256 → CTransaction) (archive : Archive) (t : ConnectState)
    (ledger : Ledger) : Prop where
  coherent : t.view.Coherent
  coins : t.view.getCoin = ledger.coins
  index : HoldsIndex txOf t.addressIndex ledger
  undo : t.undo = archive.undo
  generated : ∀ p, archive.generated p → t.stake.generated p

def Covers (history : History) (ctx : VerifyContext) (txOf : Uint256 → CTransaction)
    (archive : Archive) (depth : Int) (pindex : CBlockIndex) : Prop :=
  ∀ p, p <:+ pindex → ctx.stopsAt depth p = false →
    ∃ block, history.Extends ctx.toConnectContext txOf archive p block

lemma verifyContents_ok (h : (checkBlock ctx.checkContext block pindex.tail true true).1 = .ok ()) :
    ctx.verifyContents level block pindex t = .ok true t := by
  rw [verifyContents]
  split
  · rfl
  · rw [h]; rfl

lemma verifyDisconnect_ok (h : ctx.verifyDisconnect level block pindex t = .ok result t') :
    if level < 3 || !ctx.hasRoom pindex then result = .ok ∧ t' = t
    else t.view.getBestBlock = pindex.getBlockHash ∧
      ctx.disconnectBlock block pindex t = .ok result t' := by
  rw [verifyDisconnect] at h
  split at h
  case isTrue hc =>
    have ⟨hr, ht⟩ := pure_eq_ok.mp h
    exact if_pos hc ▸ ⟨hr.symm, ht.symm⟩
  rename_i hc
  rw [bind_get] at h
  have ⟨_, hb, h⟩ := check_bind.mp h
  exact if_neg hc ▸ ⟨by simpa using Check.rejectIf_fault_eq_ok.mp hb, h⟩

omit [Crypto] in
lemma tail_ne_nil (h : ctx.stopsAt depth pindex = false) : pindex.tail ≠ [] := by
  intro hn
  simp [stopsAt, hn] at h

lemma verifyDown_cons (he : history.Extends ctx.toConnectContext txOf archive (b :: pprev) block)
    (hs : ctx.stopsAt depth (b :: pprev) = false)
    (h : ctx.verifyDown level depth (b :: pprev) fFailure t = .ok walk t') :
    ∃ result t1, ctx.verifyDisconnect level block (b :: pprev) t = .ok result t1 ∧
      (result = .ok →
        if ctx.shutdownRequested (b :: pprev) then walk = .returned true ∧ t' = t1
        else ctx.verifyDown level depth pprev fFailure t1 = .ok walk t') := by
  simp only [verifyDown, hs, Bool.false_eq_true, if_false, he.disk] at h
  rw [bind_of_ok (verifyContents_ok he.checked)] at h
  have ⟨result, t1, hd, h⟩ := bind_eq_ok.mp h
  refine ⟨result, t1, hd, fun hr => ?_⟩
  rw [hr] at h
  dsimp only at h
  split at h
  case isTrue hc =>
    have ⟨hw, ht⟩ := pure_eq_ok.mp h
    exact if_pos hc ▸ ⟨hw.symm, ht.symm⟩
  case isFalse hc =>
  rw [if_neg hc]
  simpa using h

lemma verifyDown_stops (h : ctx.verifyDown level depth (b :: pprev) false t = .ok walk t')
    (hs : ctx.stopsAt depth (b :: pprev)) :
    t' = t ∧ walk = ctx.walkResult depth (b :: pprev) := by
  simp only [verifyDown, hs, if_true] at h
  have ⟨hw, ht⟩ := pure_eq_ok.mp h
  simp [walkResult, interrupted, walkEnd, hs, ← hw, ← ht]

omit [Crypto] in
lemma walkResult_cons (hs : ctx.stopsAt depth (b :: pprev) = false) :
    ctx.walkResult depth (b :: pprev) =
      if ctx.shutdownRequested (b :: pprev) then .returned true else ctx.walkResult depth pprev := by
  simp only [walkResult, interrupted, walkEnd, hs, Bool.not_false, Bool.true_and, Bool.or_eq_true,
    Bool.false_eq_true, if_false]
  split <;> split <;> simp_all

lemma verifyDown_lost (hh : Covers history ctx txOf archive depth pindex)
    (hb : ∀ p, p <:+ pindex → p ≠ [] → t.view.getBestBlock ≠ getBlockHash p)
    (h : ctx.verifyDown level depth pindex false t = .ok walk t') :
    t' = t ∧ walk = ctx.walkResult depth pindex := by
  induction pindex
  case nil =>
    have ⟨hw, ht⟩ := pure_eq_ok.mp h
    exact ⟨ht.symm, hw.symm⟩
  case cons b pprev hi =>
  cases hs : ctx.stopsAt depth (b :: pprev)
  case true => exact verifyDown_stops h hs
  have ⟨block, he⟩ := hh _ (suffix_refl _) hs
  have ⟨result, t1, hd, h⟩ := verifyDown_cons he hs h
  have hd := verifyDisconnect_ok hd
  rw [walkResult_cons hs]
  split at hd
  · have h := h hd.1
    rw [hd.2] at h
    split at h
    case isTrue hc => exact ⟨h.2, by rw [if_pos hc, h.1]⟩
    rename_i hc
    have hsuf {p : CBlockIndex} (hp : p <:+ pprev) := hp.trans (suffix_cons b pprev)
    rw [if_neg hc]
    exact hi (fun p hp => hh p (hsuf hp)) (fun p hp => hb p (hsuf hp)) h
  · exact absurd hd.1 (hb _ (suffix_refl _) (cons_ne_nil b pprev))

omit [Crypto] in
lemma walkEnd_suffix : ctx.walkEnd depth pindex <:+ pindex := by
  induction pindex
  case nil => exact suffix_refl _
  case cons b pprev hi =>
  rw [walkEnd]
  split
  · exact suffix_refl _
  · exact hi.trans (suffix_cons b pprev)

-- Different entries of a chain have different hashes, and none has the null hash.
structure Distinct (tip : CBlockIndex) : Prop where
  inj : ∀ p q, p <:+ tip → q <:+ tip → p ≠ [] → q ≠ [] → getBlockHash p = getBlockHash q → p = q
  null : ∀ p, p <:+ tip → p ≠ [] → getBlockHash p ≠ 0

lemma verifyDown_ok (hd : Distinct tip) (hh : Covers history ctx txOf archive depth pindex)
    (hp : pindex <:+ tip) (hholds : Holds txOf archive t (history.ledger pindex))
    (hb : pindex ≠ [] → t.view.getBestBlock = getBlockHash pindex)
    (h : ctx.verifyDown level depth pindex false t = .ok walk t') :
    Holds txOf archive t' (history.ledger (ctx.scratchTip level depth pindex)) ∧
    walk = ctx.walkResult depth pindex ∧
    (ctx.scratchTip level depth pindex ≠ [] → t'.view.getBestBlock =
      getBlockHash (ctx.scratchTip level depth pindex)) := by
  induction pindex generalizing t
  case nil =>
    have ⟨hw, ht⟩ := pure_eq_ok.mp h
    rw [← ht]
    exact ⟨hholds, hw.symm, hb⟩
  case cons b pprev hi =>
  have hne := cons_ne_nil b pprev
  have hpp := (suffix_cons b pprev).trans hp
  have hsuf {p : CBlockIndex} (hp : p <:+ pprev) := hp.trans (suffix_cons b pprev)
  have hstay (hc : (level < 3 || ctx.stopsAt depth (b :: pprev) ||
      !ctx.hasRoom (b :: pprev)) = true) :
      ctx.scratchTip level depth (b :: pprev) = b :: pprev := by
    rw [scratchTip, disconnected, if_pos hc]
    rfl
  cases hs : ctx.stopsAt depth (b :: pprev)
  case true =>
    have ⟨ht, hw⟩ := verifyDown_stops h hs
    rw [hstay (by simp [hs]), ht]
    exact ⟨hholds, hw, hb⟩
  have ⟨block, he⟩ := hh _ (suffix_refl _) hs
  have ⟨result, t1, hdis, h⟩ := verifyDown_cons he hs h
  have hdis := verifyDisconnect_ok hdis
  rw [walkResult_cons hs]
  split at hdis
  case isTrue hc =>
    have h := h hdis.1
    rw [hdis.2] at h
    -- From here on the view is above the walk.
    have hlost p (hq : p <:+ pprev) (hn : p ≠ []) : t.view.getBestBlock ≠ getBlockHash p := by
      intro hbest
      have hself := hd.inj _ p hp (hq.trans hpp) hne hn ((hb hne).symm.trans hbest)
      have hle := hq.length_le
      rw [← hself, length_cons] at hle
      omega
    rw [hstay (by rw [hs, Bool.or_false]; exact hc)]
    split at h
    case isTrue hc =>
      rw [h.2, if_pos hc]
      exact ⟨hholds, h.1, hb⟩
    rename_i hc
    have ⟨ht, hw⟩ := verifyDown_lost (fun p hp => hh p (hsuf hp)) hlost h
    rw [ht, if_neg hc]
    exact ⟨hholds, hw, hb⟩
  case isFalse hc =>
  have ⟨hpar, hacc⟩ := he.accepts
  have ⟨t2, hd2, hr2, hh2, hx2⟩ := disconnectBlock_undoes hacc hpar he.grounded
    (hholds.undo ▸ he.undo) hholds.coherent (he.ledger ▸ hholds.coins)
  rw [hd2] at hdis
  have ⟨_, hr⟩ := hdis
  injection hr with hr ht
  subst hr ht
  have h := h rfl
  have hholds2 : Holds txOf archive t2 (history.ledger pprev) :=
    ⟨hr2.coherent, hr2.coins, hx2 _ _ he.consistent he.new (he.ledger ▸ hholds.index),
      hr2.undo.trans hholds.undo, hr2.stake ▸ hholds.generated⟩
  have hb2 (_ : pprev ≠ []) : t2.view.getBestBlock = getBlockHash pprev := by
    rw [getBestBlock, hh2]
    exact if_neg (hd.null pprev hpp hpar)
  have hsc : ctx.scratchTip level depth (b :: pprev) =
      if ctx.shutdownRequested (b :: pprev) then pprev
      else ctx.scratchTip level depth pprev := by
    rw [scratchTip, disconnected, hs, Bool.or_false, if_neg hc]
    split <;> rfl
  rw [hsc]
  split at h
  case isTrue hc =>
    rw [if_pos hc, if_pos hc, h.2]
    exact ⟨hholds2, h.1, hb2⟩
  case isFalse hc =>
  rw [if_neg hc, if_neg hc]
  exact hi (fun p hp => hh p (hsuf hp)) hpp hholds2 hb2 h

omit [Crypto] in
lemma attempt_cases (h : Connect.attempt x t = .ok verdict t') :
    verdict = true ∧ x t = .ok () t' ∨
    verdict = false ∧ ∃ state, x t = .error (.returned state) t' := by
  rw [Connect.attempt] at h
  split at h
  case h_1 hx =>
    cases h
    exact .inl ⟨rfl, hx⟩
  case h_2 state _ hx =>
    cases h
    exact .inr ⟨rfl, state, hx⟩
  case h_3 => nomatch h

lemma checkKernel_missing (hp : block.isProofOfStake)
    (hk : ∀ coinstake txin, block.vtx[1]? = some coinstake → coinstake.vin.head? = some txin →
      ctx.pcoinsTip.unspent txin.prevout = none) :
    ∃ state, ctx.checkKernel block pindex t = .error (.returned state) t := by
  simp only [checkKernel, hp, Bool.not_true, Bool.false_eq_true, if_false]
  split
  · exact ⟨_, rfl⟩
  cases hv : block.vtx[1]?
  case none => exact ⟨_, rfl⟩
  rename_i coinstake
  cases hi : coinstake.vin
  case nil => exact ⟨_, by simp only [hi]; rfl⟩
  case cons txin vin =>
  have hn := hk coinstake txin hv (by rw [hi, head?_cons])
  exact ⟨_, by simp only [hi, hn]; rfl⟩

-- A proof-of-stake block is rejected when it is to be connected again: its kernel is spent at the tip.
lemma reconnect_stake (hk : ctx.checkKernel block pindex t = .error (.returned state) t)
    (h : Connect.attempt (ctx.connectBlock block pindex false) t = .ok verdict t') :
    verdict = false ∧ t' = t := by
  cases attempt_cases h
  case inl hx =>
    obtain ⟨_, hx⟩ := hx
    obtain ⟨_, _, hx⟩ := check_bind.mp hx
    rw [bind_of_error hk] at hx
    cases hx
  rename_i hx
  obtain ⟨hv, state', hx⟩ := hx
  refine ⟨hv, ?_⟩
  rw [ConnectContext.connectBlock, Check.rejectIf] at hx
  split at hx
  · cases hx
  have hstep {f : Unit → Connect Unit} : (check (.ok ()) >>= f) t = f () t := rfl
  rw [hstep, bind_of_error hk] at hx
  injection hx with _ ht
  exact ht.symm

lemma reconnect_work (he : history.Extends ctx.toConnectContext txOf archive pindex block)
    (hp : block.isProofOfStake = false) (hc : pindex <:+ ctx.chainActive)
    (hf : FindsAncestors ctx.lookupBlockIndex ctx.chainActive)
    (hn : getBlockHash pindex ≠ 0)
    (hholds : Holds txOf archive t (history.ledger pindex.tail))
    (hb : t.view.getBestBlock = getBlockHash pindex.tail) :
    ∃ t', ctx.connectBlock block pindex false t = .ok () t' ∧
      Holds txOf archive t' (history.ledger pindex) ∧
      t'.view.getBestBlock = getBlockHash pindex := by
  have ⟨tip, coins, s, s', ha⟩ := he.accepted
  have ⟨hprep, _⟩ := connectBlock_ok ha.connected
  have hf' : FindsAncestors ctx.lookupBlockIndex pindex.tail := fun p hs =>
    hf p (hs.trans ((tail_suffix pindex).trans hc))
  have hl : Like s t := ⟨ha.coherent, hholds.coherent, hholds.coins.trans ha.coins.symm⟩
  have hagain : ∃ t', ((ctx.withTip tip coins).withTip ctx.chainActive ctx.pcoinsTip).connectBlock
      block pindex false t = .ok () t' :=
    connectBlock_again ha.onChain (.inr hc) he.memo hl (hb.trans hprep.best) (ha.coins ▸ he.heights)
      hf' (fun p hg => hholds.generated p (ha.generated p hg)) ha.connected (by simp [hp])
  have ⟨t', ht⟩ : ∃ t', ctx.connectBlock block pindex false t = .ok () t' := hagain
  have ⟨_, vtxundo, hr⟩ := connectBlock_refines he.memo hholds.coherent he.child ht hholds.coins.symm
  refine ⟨t', ht, ?_, ?_⟩
  · rw [he.ledger]
    refine ⟨hr.coherent, hr.coins, hr.index _ he.consistent.toKnown he.new.outputs hholds.index, ?_, ?_⟩
    · have hu : t.undo pindex ≠ none := by
        rw [hholds.undo, he.undo]
        exact Option.some_ne_none _
      rw [hr.undo, if_neg hu, hholds.undo]
    · exact fun p hg => connectBlock_generated hf' ht (hholds.generated p hg)
  rw [getBestBlock, hr.best]
  exact if_neg hn

lemma verifyUp_append (h : ctx.verifyUp (up ++ up') t = .ok verdict t') :
    ∃ verdict1 t1, ctx.verifyUp up t = .ok verdict1 t1 ∧
      if verdict1 then ctx.verifyUp up' t1 = .ok verdict t' else verdict = false ∧ t' = t1 := by
  induction up generalizing t
  case nil => exact ⟨true, t, rfl, h⟩
  case cons p up hi =>
  cases hd : ctx.readBlockFromDisk p
  case none =>
    simp only [cons_append, verifyUp, hd] at h ⊢
    have ⟨hv, ht⟩ := pure_eq_ok.mp h
    exact ⟨false, t, rfl, hv.symm, ht.symm⟩
  rename_i block
  simp only [cons_append, verifyUp, hd] at h ⊢
  have ⟨verdict0, t0, ha, h⟩ := bind_eq_ok.mp h
  rw [bind_of_ok ha]
  cases verdict0
  case false =>
    have ⟨hv, ht⟩ := pure_eq_ok.mp h
    exact ⟨false, t0, rfl, hv.symm, ht.symm⟩
  case true => exact hi h

section

variable {base p : CBlockIndex}

omit [Crypto]

lemma above_cons (h : b :: pprev ≠ base) :
    ((b :: pprev).tails.takeWhile (· ≠ base)).reverse =
      (pprev.tails.takeWhile (· ≠ base)).reverse ++ [b :: pprev] := by
  rw [tails_cons, takeWhile_cons_of_pos (by simpa using h), reverse_cons]

lemma mem_above (hb : base <:+ pindex)
    (h : p ∈ (pindex.tails.takeWhile (· ≠ base)).reverse) : p <:+ pindex ∧ base <:+ p.tail := by
  induction pindex
  case nil => simp [suffix_nil.mp hb] at h
  case cons b pprev hi =>
  by_cases he : b :: pprev = base
  · simp [he] at h
  have hb := (suffix_cons_iff.mp hb).resolve_left (Ne.symm he)
  rw [above_cons he, mem_append, mem_singleton] at h
  cases h
  case inl h =>
    have ⟨hp, ht⟩ := hi hb h
    exact ⟨hp.trans (suffix_cons b pprev), ht⟩
  case inr h =>
  rw [h]
  exact ⟨suffix_refl _, hb⟩

lemma exists_above (hb : base <:+ pindex) (hne : base ≠ pindex) :
    ∃ p rest, (pindex.tails.takeWhile (· ≠ base)).reverse = p :: rest ∧ p.tail = base := by
  induction pindex
  case nil => exact absurd (suffix_nil.mp hb) hne
  case cons b pprev hi =>
  rw [above_cons (Ne.symm hne)]
  by_cases he : base = pprev
  · exact ⟨b :: pprev, [], by cases pprev <;> simp [he], he.symm⟩
  have ⟨p, rest, hl, ht⟩ := hi ((suffix_cons_iff.mp hb).resolve_left hne) he
  exact ⟨p, rest ++ [b :: pprev], by rw [hl, cons_append], ht⟩

lemma stopsAt_above (hp : p <:+ pindex) (hl : (ctx.walkEnd depth pindex).length < p.length) :
    ctx.stopsAt depth p = false := by
  induction pindex
  case nil => simp [suffix_nil.mp hp] at hl
  case cons b pprev hi =>
  rw [walkEnd] at hl
  split at hl
  · exact absurd hp.length_le (Nat.not_le_of_lt hl)
  rename_i hs
  cases suffix_cons_iff.mp hp
  case inl he => exact he ▸ Bool.eq_false_iff.mpr hs
  case inr hp => exact hi hp hl

lemma walkEnd_ne_nil (h : pindex ≠ []) : ctx.walkEnd depth pindex ≠ [] := by
  induction pindex
  case nil => exact absurd rfl h
  case cons b pprev hi =>
  rw [walkEnd]
  split
  · exact cons_ne_nil b pprev
  case isFalse hs => exact hi (tail_ne_nil (Bool.eq_false_iff.mpr hs))

lemma scratchTip_suffix : ctx.scratchTip level depth pindex <:+ pindex :=
  drop_suffix _ _

lemma walkEnd_suffix_scratchTip :
    ctx.walkEnd depth pindex <:+ ctx.scratchTip level depth pindex := by
  induction pindex
  case nil => exact suffix_refl _
  case cons b pprev hi =>
  rw [scratchTip, disconnected]
  split
  · exact walkEnd_suffix
  rename_i hc
  have hs : ctx.stopsAt depth (b :: pprev) = false := by
    simp only [Bool.or_eq_true, not_or] at hc
    exact Bool.eq_false_iff.mpr hc.1.2
  rw [walkEnd, hs, if_neg Bool.false_ne_true]
  split
  · exact walkEnd_suffix
  · exact hi

lemma reconnected_suffix (hb : base <:+ pindex) :
    base <:+ ctx.reconnected base pindex ∧ ctx.reconnected base pindex <:+ pindex := by
  rw [reconnected]
  split
  case h_1 p hf =>
    have ⟨hp, ht⟩ := mem_above hb (mem_of_find?_eq_some hf)
    exact ⟨ht, (tail_suffix p).trans hp⟩
  case h_2 => exact ⟨hb, suffix_refl _⟩

lemma verifiedTip_suffix :
    ctx.walkEnd depth ctx.chainActive <:+ ctx.verifiedTip level depth ∧
      ctx.verifiedTip level depth <:+ ctx.chainActive := by
  simp only [verifiedTip]
  split
  · exact ⟨walkEnd_suffix_scratchTip, scratchTip_suffix⟩
  have ⟨hb, ht⟩ := @reconnected_suffix ctx ctx.chainActive _ (@scratchTip_suffix ctx level depth _)
  exact ⟨walkEnd_suffix_scratchTip.trans hb, ht⟩

end

-- What is around a reconnection: the view starts below the tip, which has its own coins.
structure Reconnects (history : History) (ctx : VerifyContext) (txOf : Uint256 → CTransaction)
    (archive : Archive) (base : CBlockIndex) : Prop where
  distinct : Distinct ctx.chainActive
  finds : FindsAncestors ctx.lookupBlockIndex ctx.chainActive
  pcoinsTip : ctx.pcoinsTip.unspent = (history.ledger ctx.chainActive).coins
  consistent : (history.ledger ctx.chainActive).Consistent ctx.toConnectContext txOf
    (history.seen ctx.chainActive)
  above : history.ExtendsAbove ctx.toConnectContext txOf archive base ctx.chainActive

lemma Reconnects.kernel_spent {base p : CBlockIndex} (h : Reconnects history ctx txOf archive base)
    (hp : p <:+ ctx.chainActive) (hl : base.length < p.length)
    (he : history.Extends ctx.toConnectContext txOf archive p block)
    (hv : block.vtx[1]? = some coinstake) (hi : coinstake.vin.head? = some txin) :
    ctx.pcoinsTip.unspent txin.prevout = none := by
  have ⟨coinbase, rest, hvtx, _, hr⟩ := he.accepts.2.first
  have hm : coinstake ∈ rest := by
    rw [hvtx, getElem?_cons_succ] at hv
    exact mem_of_getElem? hv
  have ho : txin.prevout ∈ coinstake.prevouts := by
    rw [CTransaction.prevouts, if_neg (by simp [(hr coinstake hm).1])]
    exact mem_map_of_mem (mem_of_mem_head? hi)
  rw [h.pcoinsTip]
  exact h.above.spent h.consistent hp hl he (by simp [hvtx, hm]) ho

lemma Reconnects.verifyUp {base : CBlockIndex} (hrec : Reconnects history ctx txOf archive base)
    (hbase : base <:+ pindex) (hp : pindex <:+ ctx.chainActive) (hne : base ≠ [])
    (hholds : Holds txOf archive t (history.ledger base))
    (hb : t.view.getBestBlock = getBlockHash base)
    (h : ctx.verifyUp (pindex.tails.takeWhile (· ≠ base)).reverse t = .ok verdict t') :
    match ((pindex.tails.takeWhile (· ≠ base)).reverse).find? ctx.isStake with
    | some p => verdict = false ∧ HoldsIndex txOf t'.addressIndex (history.ledger p.tail)
    | none => verdict = true ∧ Holds txOf archive t' (history.ledger pindex) ∧
      t'.view.getBestBlock = getBlockHash pindex := by
  induction pindex generalizing t' verdict
  case nil => exact absurd (suffix_nil.mp hbase) hne
  case cons b pprev hi =>
  by_cases he : b :: pprev = base
  · have hnil : ((b :: pprev).tails.takeWhile (· ≠ base)).reverse = [] := by simp [he]
    rw [hnil] at h ⊢
    have ⟨hv, ht⟩ := pure_eq_ok.mp h
    rw [← ht, he]
    exact ⟨hv.symm, hholds, hb⟩
  have hbase' : base <:+ pprev := (suffix_cons_iff.mp hbase).resolve_left (Ne.symm he)
  have hlen := Nat.lt_succ_of_le hbase'.length_le
  rw [above_cons he] at h ⊢
  have ⟨verdict1, t1, h1, h⟩ := verifyUp_append h
  have hi := hi hbase' ((suffix_cons b pprev).trans hp) h1
  rw [find?_append]
  cases hfind : ((pprev.tails.takeWhile (· ≠ base)).reverse).find? ctx.isStake
  case some p =>
    rw [hfind] at hi
    rw [hi.1, if_neg Bool.false_ne_true] at h
    rw [h.2, Option.some_or]
    exact ⟨h.1, hi.2⟩
  rw [hfind] at hi
  have ⟨hv1, hholds1, hb1⟩ := hi
  have ⟨block, hx⟩ := hrec.above _ hp hlen
  have hstake : ctx.isStake (b :: pprev) = block.isProofOfStake := by
    rw [isStake, hx.disk, Option.any_some]
  rw [hv1, if_pos rfl] at h
  simp only [verifyUp, hx.disk] at h
  have ⟨verdict2, t2, ha, h⟩ := bind_eq_ok.mp h
  rw [Option.none_or, find?_singleton, hstake]
  cases hs : block.isProofOfStake
  case true =>
    obtain ⟨_, hk⟩ : ∃ state, ctx.checkKernel block (b :: pprev) t1 = .error (.returned state) t1 :=
      checkKernel_missing hs fun _ _ hv hi => hrec.kernel_spent hp hlen hx hv hi
    have ⟨hv2, ht2⟩ := reconnect_stake hk ha
    rw [hv2] at h
    have ⟨hv, ht⟩ := pure_eq_ok.mp h
    rw [← ht, ht2]
    exact ⟨hv.symm, hholds1.index⟩
  case false =>
  have ⟨t3, hok, hholds3, hb3⟩ := reconnect_work hx hs hp hrec.finds
    (hrec.distinct.null _ hp (cons_ne_nil b pprev)) hholds1 hb1
  have ⟨hv2, ht2⟩ : verdict2 = true ∧ t2 = t3 := by
    cases attempt_cases ha
    case inl hok' =>
      rw [hok] at hok'
      have ⟨hv, ht⟩ := hok'
      injection ht with _ ht
      exact ⟨hv, ht.symm⟩
    rename_i hno
    have ⟨_, _, hno⟩ := hno
    rw [hok] at hno
    nomatch hno
  rw [hv2] at h
  have ⟨hv, ht⟩ := pure_eq_ok.mp h
  rw [← ht, ht2]
  exact ⟨hv.symm, hholds3, hb3⟩

lemma verifyUp_misplaced (hd : ctx.readBlockFromDisk p = some block)
    (hb : getBlockHash p.tail ≠ t.view.getBestBlock)
    (h : ctx.verifyUp (p :: rest) t = .ok verdict t') : t'.addressIndex = t.addressIndex := by
  simp only [verifyUp, hd] at h
  have ⟨verdict1, t1, ha, h⟩ := bind_eq_ok.mp h
  have ⟨e, t2, hfail, hs⟩ := @connectBlock_misplaced ctx.toConnectContext block p t _ false hb
  cases attempt_cases ha
  case inl hok => simp [hfail] at hok
  rename_i hno
  have ⟨hv, _, hno⟩ := hno
  rw [hv] at h
  have ⟨_, ht⟩ := pure_eq_ok.mp h
  rw [hfail] at hno
  injection hno with _ ht1
  rw [← ht, ← ht1]
  exact congrArg Prod.snd hs

structure AtTip (history : History) (ctx : VerifyContext) (txOf : Uint256 → CTransaction)
    (depth : Int) (s : ConnectState) : Prop where
  distinct : Distinct ctx.chainActive
  finds : FindsAncestors ctx.lookupBlockIndex ctx.chainActive
  covers : Covers history ctx txOf ⟨s.undo, s.stake.generated⟩ depth ctx.chainActive
  consistent : (history.ledger ctx.chainActive).Consistent ctx.toConnectContext txOf
    (history.seen ctx.chainActive)
  coins : (onto ctx.coinsview).getCoin = (history.ledger ctx.chainActive).coins
  pcoinsTip : ctx.pcoinsTip.unspent = (history.ledger ctx.chainActive).coins
  best : (onto ctx.coinsview).getBestBlock = getBlockHash ctx.chainActive
  index : HoldsIndex txOf s.addressIndex (history.ledger ctx.chainActive)

lemma AtTip.above {base : CBlockIndex} (h : AtTip history ctx txOf depth s)
    (hb : ctx.walkEnd depth ctx.chainActive <:+ base) :
    history.ExtendsAbove ctx.toConnectContext txOf ⟨s.undo, s.stake.generated⟩ base
      ctx.chainActive :=
  fun p hp hl => h.covers p hp (stopsAt_above hp (Nat.lt_of_le_of_lt hb.length_le hl))

lemma AtTip.verifyBlocks (h : AtTip history ctx txOf depth s) (hne : ctx.chainActive ≠ [])
    (hr : ctx.verifyBlocks level depth { s with view := onto ctx.coinsview } = .ok result t') :
    HoldsIndex txOf t'.addressIndex (history.ledger (ctx.verifiedTip level depth)) := by
  have ⟨walk, t, hdown, hr⟩ := bind_eq_ok.mp hr
  have hholds : Holds txOf ⟨s.undo, s.stake.generated⟩ { s with view := onto ctx.coinsview }
      (history.ledger ctx.chainActive) :=
    ⟨over_coherent _, h.coins, h.index, rfl, fun _ hg => hg⟩
  have ⟨hholds, hw, hb⟩ := verifyDown_ok h.distinct h.covers (suffix_refl _) hholds
    (fun _ => h.best) hdown
  have hend := @walkEnd_ne_nil ctx depth _ hne
  have hbase : ctx.scratchTip level depth ctx.chainActive ≠ [] := by
    intro hn
    have hsuf := @walkEnd_suffix_scratchTip ctx level depth ctx.chainActive
    rw [hn] at hsuf
    exact hend (suffix_nil.mp hsuf)
  have hb := hb hbase
  rw [hw, walkResult] at hr
  simp only [verifiedTip]
  cases hi : ctx.interrupted depth ctx.chainActive
  case true =>
    rw [hi, if_pos rfl] at hr
    rw [Bool.or_true, Bool.true_or, if_pos rfl, ← (pure_eq_ok.mp hr).2]
    exact hholds.index
  rw [hi] at hr
  simp only [Bool.false_eq_true, if_false] at hr
  by_cases hl : level < 4
  · rw [if_neg (Nat.not_le_of_lt hl)] at hr
    rw [decide_eq_true hl, Bool.true_or, Bool.true_or, if_pos rfl, ← (pure_eq_ok.mp hr).2]
    exact hholds.index
  rw [if_pos (Nat.le_of_not_lt hl)] at hr
  rw [decide_eq_false hl, Bool.or_false, Bool.false_or]
  by_cases he : ctx.scratchTip level depth ctx.chainActive = ctx.walkEnd depth ctx.chainActive
  · have hrec : Reconnects history ctx txOf ⟨s.undo, s.stake.generated⟩
        (ctx.scratchTip level depth ctx.chainActive) :=
      ⟨h.distinct, h.finds, h.pcoinsTip, h.consistent, h.above walkEnd_suffix_scratchTip⟩
    rw [VerifyContext.above, ← he] at hr
    have hup := hrec.verifyUp scratchTip_suffix (suffix_refl _) hbase hholds hb hr
    rw [if_neg (by simp [he]), reconnected]
    split at hup
    · exact hup.2
    · exact hup.2.1.index
  have hne : ctx.walkEnd depth ctx.chainActive ≠ ctx.chainActive := by
    intro hself
    have hsuf := @walkEnd_suffix_scratchTip ctx level depth ctx.chainActive
    rw [hself] at hsuf he
    exact he (scratchTip_suffix.eq_of_length_le hsuf.length_le)
  have ⟨p, rest, hl, hp⟩ := exists_above walkEnd_suffix hne
  have ⟨hps, hpt⟩ := mem_above walkEnd_suffix (hl ▸ mem_cons_self)
  have ⟨block, hx⟩ := h.above (suffix_refl _) p hps (by
    have hlt := length_pos_iff.mpr hend
    rw [← hp, length_tail] at hlt ⊢
    omega)
  rw [VerifyContext.above, hl] at hr
  have hmis : getBlockHash p.tail ≠ t.view.getBestBlock := by
    rw [hp, hb]
    exact fun hh => he (h.distinct.inj _ _ scratchTip_suffix walkEnd_suffix hbase hend hh.symm)
  rw [if_pos (by simpa using he), verifyUp_misplaced hx.disk hmis hr]
  exact hholds.index

omit [Crypto] in
lemma verifiedTip_of_stops (h : ctx.walkEnd depth ctx.chainActive = ctx.chainActive) :
    ctx.verifiedTip level depth = ctx.chainActive := by
  have ⟨hw, ht⟩ := @verifiedTip_suffix ctx level depth
  rw [h] at hw
  exact ht.eq_of_length_le hw.length_le

-- A verification leaves the index unless it disconnects a block with entries for good.
theorem verifyDB_read_eq_iff (hf : ctx.fAddressIndex)
    (hs : AtTip history ctx txOf (ctx.checkDepth nCheckDepth) s)
    (h : ctx.verifyDB nCheckLevel nCheckDepth s = .ok result s') :
    s'.addressIndex.read = s.addressIndex.read ↔
      if ctx.fTxIndex then
        UnlistedAbove ctx.toConnectContext
          (ctx.verifiedTip (checkLevel nCheckLevel) (ctx.checkDepth nCheckDepth)) ctx.chainActive
      else
        (history.ledger
          (ctx.verifiedTip (checkLevel nCheckLevel) (ctx.checkDepth nCheckDepth))).coins =
          (history.ledger ctx.chainActive).coins := by
  have ⟨hw, ht⟩ := @verifiedTip_suffix ctx (checkLevel nCheckLevel) (ctx.checkDepth nCheckDepth)
  have hidx : HoldsIndex txOf s'.addressIndex (history.ledger
      (ctx.verifiedTip (checkLevel nCheckLevel) (ctx.checkDepth nCheckDepth))) := by
    rw [verifyDB] at h
    split at h
    case isTrue hc =>
      have hend : ctx.walkEnd (ctx.checkDepth nCheckDepth) ctx.chainActive = ctx.chainActive := by
        cases hchain : ctx.chainActive
        case nil => rfl
        case cons b pprev =>
        rw [hchain] at hc
        rw [walkEnd, stopsAt, if_pos (by simp_all)]
      injection h with _ hs'
      rw [verifiedTip_of_stops hend, ← hs']
      exact hs.index
    case isFalse hc =>
    have hne : ctx.chainActive ≠ [] := by
      intro hn
      simp [hn] at hc
    split at h
    case h_1 hr =>
      injection h with _ hs'
      have hend := hs.verifyBlocks hne hr
      rw [← hs']
      exact hend
    case h_2 => nomatch h
  rw [hs.index.1.read_eq_iff hidx.1, hidx.2, hs.index.2]
  exact (hs.above hw).records_eq_iff ht hf hs.consistent

end VerifyContext

namespace VerifyContext

open ConnectContext Connect EStateM

section

local instance : Crypto :=
  acceptsSignatures

-- The staking block of the examples above is the tip and can be read again.

abbrev keptEntry : CBlockIndex :=
  stakeEntry 1600000000

abbrev keptBlock : CBlock :=
  stakeBlock 1600000000

def keptContext : ConnectContext :=
  { indexedContext with
    lookupBlockIndex := fun hash =>
      (keptEntry.tails.find? (getBlockHash · = hash)).getD []
    readBlockFromDisk := fun p => if p = keptEntry then some keptBlock else none }

def keptState : ConnectState :=
  (keptContext.connectBlock keptBlock keptEntry false indexedState).final

def keptCoins : CCoinsView where
  getCoin := insertAll (fun _ => none)
    (keptBlock.vtx.flatMap (·.coins (nHeight keptEntry)))
  getBestBlock := getBlockHash keptEntry
  finite := by
    apply (finite_toSet
      ((keptBlock.vtx.flatMap (·.coins (nHeight keptEntry))).map Prod.fst)).subset
    intro out h
    by_contra hne
    exact h (insertAll_not_mem hne)

def keptVerify : VerifyContext :=
  { keptContext.withTip keptEntry keptCoins with
    coinsview := keptCoins
    hasRoom := fun _ => true
    fPruneMode := false
    haveData := fun _ => true
    shutdownRequested := fun _ => false }

def keptParent : Ledger :=
  ledgerOf indexedTx indexedState

def keptTip : Ledger :=
  keptParent.connectBlock keptVerify.toConnectContext keptEntry keptBlock

def keptHistory : History where
  ledger p := if p = keptEntry then keptTip else keptParent
  seen p := if p = keptEntry then seenWith (· = 5) keptBlock.vtx else (· = 5)

lemma keptState_eq :
    keptContext.connectBlock keptBlock keptEntry false indexedState = .ok () keptState := by
  have ⟨s', h⟩ : ∃ s', keptContext.connectBlock keptBlock keptEntry false indexedState =
    .ok () s' := by decide +kernel
  rw [keptState, h]
  rfl

lemma keptEntry_tail : tail keptEntry ≠ keptEntry := by
  decide +kernel

lemma keptContext_finds : FindsAncestors keptContext.lookupBlockIndex keptEntry := by
  have hall : ∀ p ∈ keptEntry.tails, p ≠ [] →
      keptContext.lookupBlockIndex (getBlockHash p) = p := by decide +kernel
  exact fun p hp => hall p ((mem_tails p keptEntry).mpr hp)

lemma keptParent_consistent :
    keptParent.Consistent keptVerify.toConnectContext indexedTx (· = 5) :=
  have h := indexedState_consistent.ledger
  ⟨h.known, h.listed, h.filed, h.closed⟩

lemma keptState_refined : ∃ vtxundo, BlockRefined
    (keptVerify.toConnectContext.withTip stakeChain stakedCoins) keptBlock keptEntry indexedState
    keptState keptParent vtxundo :=
  (connectBlock_refines (by nofun) (over_coherent stakedCoins) (by decide) keptState_eq rfl).2

lemma keptHistory_extends : keptHistory.Extends keptVerify.toConnectContext indexedTx
    ⟨keptState.undo, keptState.stake.generated⟩ keptEntry keptBlock := by
  have htail : keptHistory.ledger (tail keptEntry) = keptParent := by
    simp only [keptHistory, if_neg keptEntry_tail]
  have hseen : keptHistory.seen (tail keptEntry) = (· = 5) := by
    simp only [keptHistory, if_neg keptEntry_tail]
  obtain ⟨vtxundo, hr⟩ := keptState_refined
  have hgen p (hg : indexedState.stake.generated p) :=
    connectBlock_generated (fun q hq => keptContext_finds q (hq.trans (tail_suffix _)))
      keptState_eq hg
  constructor
  case accepted =>
    refine ⟨stakeChain, stakedCoins, indexedState, keptState, ?_⟩
    constructor
    case onChain => exact .inl rfl
    case coherent => exact over_coherent stakedCoins
    case coins =>
      rw [htail]
      rfl
    case generated =>
      dsimp only
      exact hgen
    case connected => exact keptState_eq
  case disk => simp only [keptVerify, withTip, keptContext, if_true]
  case undo =>
    have hu : indexedState.undo keptEntry = none := rfl
    dsimp only
    rw [htail, hr.undo, if_pos hu, Function.update_self, hr.accepts.vtxundo_eq]
  case memo => rintro ⟨⟩
  case child => decide
  case heights =>
    rw [htail]
    intro out coin hc
    rw [(indexedState_getCoin hc).2]
    decide
  case grounded =>
    rw [htail]
    exact indexedState_grounded
  case consistent =>
    rw [htail, hseen]
    exact keptParent_consistent
  case new =>
    rw [hseen]
    exact stakeBlock_new
  case ledger =>
    rw [htail]
    simp only [keptHistory, if_true, keptTip]
  case seen =>
  rw [hseen]
  simp only [keptHistory, if_true]

lemma keptTip_coins (out) : keptTip.coins out = keptCoins.getCoin out := by
  by_cases hm : out ∈ stakedOutPoint ::
    (keptBlock.vtx.flatMap (·.coins (nHeight keptEntry))).map Prod.fst
  · have hall : ∀ out ∈ stakedOutPoint ::
        (keptBlock.vtx.flatMap (·.coins (nHeight keptEntry))).map Prod.fst,
        keptTip.coins out = keptCoins.getCoin out := by decide +kernel
    exact hall out hm
  rw [mem_cons, not_or] at hm
  have hparent : keptParent.coins out = none := by
    cases hg : keptParent.coins out
    case none => rfl
    case some => exact absurd (indexedState_getCoin hg).1 hm.1
  have hnone : keptTip.coins out = none := by
    cases hg : keptTip.coins out
    case none => rfl
    rename_i coin
    have hk {tx : CTransaction} (ht : tx ∈ keptBlock.vtx) :
        (out, coin) ∉ tx.coins (nHeight keptEntry) := by
      intro hc
      exact hm.2 (mem_map.mpr ⟨(out, coin), mem_flatMap.mpr ⟨tx, ht, hc⟩, rfl⟩)
    have h2 := (connect_coins_cases hg).resolve_left (hk (by decide))
    have h1 := (connect_coins_cases h2.2.2).resolve_left (hk (by decide))
    rw [hparent] at h1
    nomatch h1.2.2
  have hkept : keptCoins.getCoin out = none := insertAll_not_mem hm.2
  rw [hnone, hkept]

lemma keptCoins_unspent (out) : keptCoins.unspent out = keptCoins.getCoin out := by
  by_cases hm : out ∈ (keptBlock.vtx.flatMap (·.coins (nHeight keptEntry))).map Prod.fst
  · have hall : ∀ out ∈ (keptBlock.vtx.flatMap (·.coins (nHeight keptEntry))).map Prod.fst,
        keptCoins.unspent out = keptCoins.getCoin out := by decide +kernel
    exact hall out hm
  have hn : keptCoins.getCoin out = none := insertAll_not_mem hm
  rw [CCoinsView.unspent, hn, Option.filter_none]

lemma keptVerify_atTip : AtTip keptHistory keptVerify indexedTx 1 keptState := by
  have htip : keptHistory.ledger keptVerify.chainActive = keptTip := by
    simp only [keptHistory, keptVerify, withTip, if_true]
  constructor
  case distinct =>
    have hall : ∀ p ∈ keptEntry.tails, ∀ q ∈ keptEntry.tails, p ≠ [] → q ≠ [] →
        getBlockHash p = getBlockHash q → p = q := by decide +kernel
    have hnull : ∀ p ∈ keptEntry.tails, p ≠ [] → getBlockHash p ≠ 0 := by decide +kernel
    exact ⟨fun p q hp hq => hall p ((mem_tails p _).mpr hp) q ((mem_tails q _).mpr hq),
      fun p hp => hnull p ((mem_tails p _).mpr hp)⟩
  case finds => exact keptContext_finds
  case covers =>
    have hall : ∀ p ∈ keptEntry.tails, keptVerify.stopsAt 1 p = false → p = keptEntry := by
      decide +kernel
    intro p hp hs
    rw [hall p ((mem_tails p _).mpr hp) hs]
    exact ⟨keptBlock, keptHistory_extends⟩
  case consistent => exact keptHistory_extends.consistent_self
  case coins =>
    funext out
    have hg : (onto keptCoins).getCoin out = keptCoins.unspent out := getCoin_uncached (by simp [onto])
    rw [htip, keptTip_coins]
    exact hg.trans (keptCoins_unspent out)
  case pcoinsTip =>
    funext out
    rw [htip, keptTip_coins]
    exact keptCoins_unspent out
  case best => decide +kernel
  case index =>
  obtain ⟨_, hr⟩ := keptState_refined
  have hparent : HoldsIndex indexedTx indexedState.addressIndex keptParent :=
    ⟨indexedState_consistent.filed, rfl⟩
  have hc := indexedState_consistent.ledger
  have hidx := hr.index indexedTx hc.toKnown stakeBlock_new.outputs hparent
  rw [htip]
  exact hidx

theorem verifyDB_read_eq_iff_stake :
    ∃ s', keptVerify.verifyDB 3 1 keptState = .ok true s' ∧
      (s'.addressIndex.read = keptState.addressIndex.read ↔
        UnlistedAbove keptVerify.toConnectContext (keptVerify.verifiedTip 3 1) keptEntry) := by
  have ⟨s', h⟩ : ∃ s', keptVerify.verifyDB 3 1 keptState = .ok true s' := by
    decide +kernel
  exact ⟨s', h, verifyDB_read_eq_iff rfl keptVerify_atTip h⟩

-- The coin that the tip creates is not in the index any more.
theorem verifyDB_changes_index :
    EStateM.returns (fun result s' =>
        result && s'.addressIndex.read (fileOf indexedTx { hash := 8, n := 0 }) { hash := 8, n := 0 } =
          none)
      (keptVerify.verifyDB 3 1 keptState) ∧
    (keptState.addressIndex.read (fileOf indexedTx { hash := 8, n := 0 }) { hash := 8, n := 0 }).isSome := by
  decide +kernel

end

end VerifyContext

end Taler
