import TalerModel.Validation.Theorems.Reported
import TalerModel.Validation.Theorems.Tip

namespace Taler

open Tip Check ConnectContext

section

open Connect EStateM

variable {ctx : ConnectContext} {block : CBlock} {pindex p : CBlockIndex} {tx : CTransaction}
  {s s' : ConnectState}

namespace ConnectContext

-- The steps after the stake data of a block are stored leave them alone, whatever their outcome.

lemma traced_keepsStake : (traced x).Keeps ConnectState.stake :=
  fun _ => rfl

lemma modifyIndex_keepsStake : (modifyIndex f).Keeps ConnectState.stake :=
  fun _ => rfl

lemma setView_keepsStake : (setView view).Keeps ConnectState.stake :=
  fun _ => rfl

lemma when_keeps (h : x.Keeps part) (c) : (when c x).Keeps part := by
  cases c
  case true => exact h
  case false => exact .pure _

lemma updateReward_keepsStake :
    (ctx.updateReward block pindex i tx txfee posReward).Keeps ConnectState.stake := by
  unfold updateReward
  split
  · refine get_keeps fun _ => traced_keepsStake.bind fun _ => check_keeps.bind fun _ => ?_
    split
    · exact check_keeps
    · exact traced_keepsStake
  · exact .pure _

variable {totals : Totals}

lemma connectInputs_keepsStake [Crypto] :
    (ctx.connectInputs block pindex i tx totals).Keeps ConnectState.stake := by
  unfold connectInputs
  split
  · exact .pure _
  exact get_keeps fun _ => traced_keepsStake.bind fun _ => check_keeps.bind fun _ =>
    traced_keepsStake.bind fun _ => check_keeps.bind fun _ => updateReward_keepsStake.bind fun _ =>
    check_keeps.bind fun _ => modifyIndex_keepsStake.bind fun _ => .pure _

lemma connectTransactions_keepsStake [Crypto] :
    (ctx.connectTransactions block pindex vtx totals).Keeps ConnectState.stake := by
  induction vtx generalizing totals
  case nil => exact .pure _
  case cons head rest hi =>
  refine Keeps.bind ?_ fun _ => hi
  exact connectInputs_keepsStake.bind fun _ => (countSigOps_keeps.map _).bind fun _ =>
    (checkScripts_keeps.map _).bind fun _ => modifyIndex_keepsStake.bind fun _ =>
    get_keeps fun _ => check_keeps.bind fun _ => setView_keepsStake.bind fun _ => .pure _

lemma checkReward_keepsStake : (ctx.checkReward block pindex totals).Keeps ConnectState.stake := by
  refine traced_keepsStake.bind fun _ => traced_keepsStake.bind fun _ => ?_
  split
  · exact check_keeps
  refine traced_keepsStake.bind fun valueOut => ?_
  cases valueOut
  case none => exact check_keeps
  case some => exact check_keeps

lemma storeBlock_keepsStake : (storeBlock pindex blockundo).Keeps ConnectState.stake := by
  refine .bind (fun s => ?_) fun _ _ => rfl
  have hw : (writeUndoDataForBlock pindex blockundo s).stake = s.stake := by
    unfold writeUndoDataForBlock
    split <;> rfl
  exact hw

variable [Crypto] {fJustCheck fClean : Bool}

lemma connectContents_keepsStake :
    (ctx.connectContents block pindex fJustCheck).Keeps ConnectState.stake :=
  check_keeps.bind fun _ => (get_keeps fun _ => check_keeps).bind fun _ =>
    connectTransactions_keepsStake.bind fun _ => checkReward_keepsStake.bind fun _ =>
    check_keeps.bind fun _ => when_keeps storeBlock_keepsStake _

def connectChecked (ctx : ConnectContext) (block : CBlock) (pindex : CBlockIndex)
    (fJustCheck : Bool) : Connect Unit := do
  ctx.checkBlockAgain block pindex fJustCheck
  assertBestBlock pindex
  if block.getHash = ctx.params.hashGenesisBlock then
    Connect.when (!fJustCheck) (modify (setBestBlock pindex.getBlockHash))
  else ctx.connectContents block pindex fJustCheck

lemma connectChecked_keepsStake :
    (ctx.connectChecked block pindex fJustCheck).Keeps ConnectState.stake := by
  refine (traced_keepsStake.bind fun _ => check_keeps).bind fun _ =>
    (get_keeps fun _ => check_keeps).bind fun _ => ?_
  split
  · exact when_keeps (fun _ => rfl) _
  · exact connectContents_keepsStake

lemma checkKernel_keepsFlags :
    (ctx.checkKernel block pindex).Keeps fun s => s.stake.generated := by
  refine checkKernel_keeps_of fun _ _ _ _ _ s => ?_
  unfold stake
  split
  case h_1 h => exact checkProofOfStake_generated h
  case h_2 h => exact congrArg StakeStore.generated (checkProofOfStake_error _ _ h).2

lemma connectBlock_keepsFlags (hf : FindsAncestors ctx.lookupBlockIndex pindex.tail)
    (hg : pindex.tail ≠ [] → s.stake.generated (lastGenerated s.stake.generated pindex.tail)) :
    (ctx.connectBlock block pindex fJustCheck).Preserves fun t =>
      ∀ p, s.stake.generated p → t.stake.generated p := by
  have hkeeps {x : Connect Unit} (h : x.Keeps ConnectState.stake) :
      x.Preserves fun t => ∀ p, s.stake.generated p → t.stake.generated p :=
    h.preserves fun st => ∀ p, s.stake.generated p → st.generated p
  refine (hkeeps check_keeps).bind fun _ => (checkKernel_keepsFlags.preserves fun flags =>
    ∀ p, s.stake.generated p → flags p).bind fun proof => .bind (fun t ht => ?_) fun _ =>
    hkeeps (@connectChecked_keepsStake ctx block pindex _ fJustCheck)
  have ⟨t', h, hst⟩ := @storeStake_succeeds ctx block pindex t _ proof fJustCheck hf fun hn =>
    lastGenerated_mono (fun p _ => ht p) (hg hn)
  rw [h]
  exact fun p hp => hst p (ht p hp)

lemma connectBlock_flagsRoot (hr : pindex.tail = []) (hn : block.isNewestFormat = false)
    (h : ctx.connectBlock block pindex fJustCheck s = .ok () s') : s'.stake.generated pindex := by
  obtain ⟨_, _, h⟩ := check_bind.mp h
  obtain ⟨proof, s1, _, h⟩ := bind_eq_ok.mp h
  obtain ⟨_, s2, hst, h⟩ := bind_eq_ok.mp h
  have hs2 : s2.stake.generated pindex := by
    simp only [storeStake, hn, Bool.false_eq_true, if_false] at hst
    obtain ⟨⟨modifier, fGenerated⟩, s3, hk, hst⟩ := bind_eq_ok.mp hst
    obtain ⟨st, hm, _⟩ := stake_eq_ok hk
    simp only [getStakeModifier, hr, if_true] at hm
    have hgen : fGenerated = true := (Prod.mk.inj (pure_eq_ok.mp hm).1).2.symm
    have hset (store : StakeStore) :
        (store.setStakeModifier pindex modifier fGenerated).generated pindex := by
      rw [hgen, StakeStore.setStakeModifier, if_pos rfl]
      exact Function.update_self ..
    simp only [modifyStake, modify_bind, Connect.when] at hst
    split at hst
    · rw [modify_eq_ok.mp hst]
      rw [setStakeHash_generated]
      exact hset _
    rw [← (pure_eq_ok.mp hst).2]
    exact hset _
  have hk := @connectChecked_keepsStake ctx block pindex _ fJustCheck s2
  have hd : ctx.connectChecked block pindex fJustCheck s2 = .ok () s' := h
  rw [hd] at hk
  rw [← hk] at hs2
  exact hs2

lemma removeOutputs_keepsStake :
    (ctx.removeOutputs pindex tx vout fClean).Keeps ConnectState.stake := by
  induction vout generalizing fClean
  case nil => exact .pure _
  case cons head vout hi =>
  rw [removeOutputs]
  split
  · exact hi
  refine (when_keeps modifyIndex_keepsStake _).bind fun _ => Keeps.bind ?_ fun _ => hi
  refine get_keeps fun s => ?_
  split
  · exact .pure _
  · exact setView_keepsStake.bind fun _ => .pure _

lemma restoreInputs_keepsStake : (ctx.restoreInputs undo fClean).Keeps ConnectState.stake := by
  induction undo generalizing fClean
  case nil => exact .pure _
  case cons head undo hi =>
  refine (when_keeps modifyIndex_keepsStake _).bind fun _ => get_keeps fun _ =>
    check_keeps.bind fun _ => setView_keepsStake.bind fun _ => ?_
  split
  · exact .pure _
  · exact hi

lemma disconnectTransactions_keepsStake :
    (ctx.disconnectTransactions pindex vtxundo vtx fClean).Keeps ConnectState.stake := by
  induction vtx generalizing fClean
  case nil => exact .pure _
  case cons head vtx hi =>
  refine Keeps.bind (removeOutputs_keepsStake.bind fun _ => ?_) fun r => ?_
  · split
    · exact .pure _
    split
    · exact check_keeps
    split
    · exact .pure _
    · exact restoreInputs_keepsStake
  cases r
  case none => exact .pure _
  case some => exact hi

lemma disconnectClean_keepsStake :
    (ctx.disconnectClean block pindex).Keeps ConnectState.stake := by
  refine get_keeps fun _ => check_keeps.bind fun _ => Keeps.bind (get_keeps fun _ => ?_) fun r => ?_
  · split
    · exact .pure _
    split
    · exact .pure _
    refine disconnectTransactions_keepsStake.bind fun r => ?_
    cases r
    case none => exact .pure _
    case some => exact check_keeps.bind fun _ => Keeps.bind (fun _ => rfl) fun _ => .pure _
  cases r
  case ok => exact .pure _
  case unclean => exact check_keeps
  case failed => exact check_keeps

end ConnectContext

end

section

open EStateM

variable {ctx : ConnectContext} {enumeration : Enumeration} {p : CBlockIndex} {s s' : TipState}
  {x : Connect Unit}

lemma Tip.check_keeps : (check c).Keeps part := by
  intro s
  cases c <;> rfl

lemma Tip.check_assert (h : b = false) : check (rejectIf b r) s = .ok () s := by
  rw [h]
  rfl

lemma Tip.flushView_keepsStake : (flushView enumeration view).Keeps fun s => s.stake :=
  .bind (fun _ => rfl) fun _ => check_keeps.bind fun _ _ => rfl

lemma Tip.scratch_stake : (scratch x s).final.stake = (x s.scratch).final.stake := by
  simp only [scratch, TipState.scratch]
  split
  case h_1 h => rw [h]; rfl
  case h_2 h => rw [h]; rfl

lemma Tip.flushView_keepsTip {view : CCoinsViewCache} :
    (flushView enumeration view).Keeps TipState.chainActive :=
  .bind (fun _ => rfl) fun _ => check_keeps.bind fun _ _ => rfl

lemma Tip.scratch_keepsTip : (scratch x).Keeps TipState.chainActive := by
  intro s
  simp only [scratch]
  split <;> rfl

lemma Tip.scratch_flush_stake :
    ((do
      let view ← scratch x
      flushView enumeration view
      setTip p) s).final.stake = (x s.scratch).final.stake := by
  have hf view : (do
      flushView enumeration view
      setTip p : Tip Unit).Keeps fun s => s.stake :=
    flushView_keepsStake.bind fun _ _ => rfl
  exact (final_bind hf).trans scratch_stake

variable [Crypto] {pblock : Option CBlock}

lemma connectTip_misplaced (hp : p.tail ≠ s.chainActive) :
    ctx.connectTip enumeration p pblock s = .error (.fault .assertion) s := by
  have hc : check (rejectIf (p.tail ≠ s.chainActive) (fault .assertion)) s =
      .error (.fault .assertion) s := by
    simp [hp, rejectIf, fault, check]
  rw [connectTip, bind_get, bind_of_error hc]

lemma connectTip_stake :
    (ctx.connectTip enumeration p pblock s).final.stake = s.stake ∨
    ∃ block, pblock.or (ctx.readBlockFromDisk p) = some block ∧ p.tail = s.chainActive ∧
      (ctx.connectTip enumeration p pblock s).final.stake =
        ((ctx.withTip s.chainActive s.view.toView).connectBlock block p false
          s.scratch).final.stake := by
  by_cases hp : p.tail = s.chainActive
  case neg =>
    rw [connectTip_misplaced hp]
    exact .inl rfl
  rw [connectTip, bind_get, bind_of_ok (check_assert (by simp [hp]))]
  cases hb : pblock.or (ctx.readBlockFromDisk p)
  case none => exact .inl rfl
  case some block => exact .inr ⟨block, rfl, hp, scratch_flush_stake⟩

lemma connectTip_ok (h : ctx.connectTip enumeration p pblock s = .ok () s') :
    ∃ block t, pblock.or (ctx.readBlockFromDisk p) = some block ∧
      (ctx.withTip s.chainActive s.view.toView).connectBlock block p false s.scratch = .ok () t ∧
      p.tail = s.chainActive ∧ s'.stake = t.stake ∧ s'.chainActive = p := by
  obtain ⟨_, ha, h⟩ := check_bind.mp h
  have hp : p.tail = s.chainActive := by simpa using rejectIf_fault_eq_ok.mp ha
  cases hb : pblock.or (ctx.readBlockFromDisk p)
  case none => simp [hb, check, stateError] at h
  rename_i block
  simp only [hb] at h
  have hst := @scratch_flush_stake enumeration p s
    ((ctx.withTip s.chainActive s.view.toView).connectBlock block p false)
  obtain ⟨_, _, hx, hrest⟩ := bind_eq_ok.mp h
  obtain ⟨_, _, _, hset⟩ := bind_eq_ok.mp hrest
  obtain ⟨t, hx⟩ := scratch_ok hx
  rw [h, hx] at hst
  cases hset
  exact ⟨block, t, rfl, hx, hp, hst, rfl⟩

lemma connectTip_onError :
    (ctx.connectTip enumeration p pblock).KeepsOnError TipState.chainActive := by
  refine Keeps.bind_onError (fun _ => rfl) fun s => check_keeps.bind_onError fun _ => ?_
  split
  · exact check_keeps.onError
  refine Keeps.bind_onError scratch_keepsTip fun _ =>
    flushView_keepsTip.bind_onError fun _ => ?_
  exact fun _ _ _ h => nomatch h

lemma disconnectTip_final :
    (ctx.disconnectTip enumeration s).final.stake = s.stake ∧
    ((ctx.disconnectTip enumeration s).final.chainActive = s.chainActive ∨
      (ctx.disconnectTip enumeration s).final.chainActive = s.chainActive.tail) := by
  rw [disconnectTip, bind_get]
  by_cases hp : s.chainActive = []
  · have hc : check (rejectIf (s.chainActive = []) (fault .assertion)) s =
        .error (.fault .assertion) s := by
      simp [hp, rejectIf, fault, check]
    rw [bind_of_error hc]
    exact ⟨rfl, .inl rfl⟩
  rw [bind_of_ok (check_assert (decide_eq_false hp))]
  cases hb : ctx.readBlockFromDisk s.chainActive
  case none => exact ⟨rfl, .inl rfl⟩
  rename_i block
  refine ⟨scratch_flush_stake.trans (disconnectClean_keepsStake _), ?_⟩
  have hs := @scratch_keepsTip (ctx.disconnectClean block s.chainActive) s
  simp only
  cases hx : scratch (ctx.disconnectClean block s.chainActive) s
  case error =>
    rw [hx] at hs
    rw [bind_of_error hx]
    exact .inl hs
  rename_i view s1
  rw [hx] at hs
  rw [bind_of_ok hx]
  have hv := @flushView_keepsTip enumeration view s1
  cases hf : flushView enumeration view s1
  case error =>
    rw [hf] at hv
    rw [bind_of_error hf]
    exact .inl (hv.trans hs)
  case ok =>
  rw [bind_of_ok hf]
  exact .inr rfl

lemma connectTip_reported
    (hb : ∀ block, pblock.or (ctx.readBlockFromDisk p) = some block → p.tail = s.chainActive →
      EStateM.Throws Failure.Reported ((ctx.withTip s.chainActive s.view.toView).connectBlock
        block p false) s.scratch) :
    EStateM.Throws Failure.Reported (ctx.connectTip enumeration p pblock) s := by
  have hcheck {α : Type} {c : Check α} {s : TipState} (h : c.Throws Failure.Reported) :
      EStateM.Throws Failure.Reported (check c) s := by
    intro e s' he
    cases c
    case ok => cases he
    case error e' =>
    cases he
    exact error_throws.mp h
  intro e s' he
  have he : (check (rejectIf (p.tail ≠ s.chainActive) (fault .assertion)) >>=
    fun _ => _) s = .error e s' := he
  cases bind_eq_error.mp he
  case inl h => exact hcheck (fault_reported.rejectIf _) _ _ h
  rename_i h
  obtain ⟨_, s1, h1, h⟩ := h
  have hp : p.tail = s.chainActive := by
    by_contra hn
    simp [hn, rejectIf, fault, check] at h1
  have hs1 : s1 = s := by
    simp only [hp, rejectIf, check, ne_eq, not_true_eq_false, decide_false,
      Bool.false_eq_true, if_false, Result.ok.injEq, true_and] at h1
    exact h1.symm
  rw [hs1] at h
  cases hblock : pblock.or (ctx.readBlockFromDisk p)
  case none =>
    simp only [hblock, check, stateError] at h
    cases h
    exact .inl rfl
  rename_i block
  simp only [hblock] at h
  cases bind_eq_error.mp h
  case inl h =>
    simp only [scratch] at h
    split at h
    case h_1 => cases h
    case h_2 hx =>
    cases h
    exact hb block hblock hp _ _ hx
  case inr h =>
  obtain ⟨view, s2, _, h⟩ := h
  have hflush : EStateM.Throws Failure.Reported (flushView enumeration view) s2 := by
    refine EStateM.Throws.bind (fun _ _ h => by cases h) fun _ _ _ =>
      (hcheck ?_).bind fun _ _ _ _ _ h => by cases h
    exact (batchWriteEntries_reported _ _).bind fun _ => pure_throws _
  cases bind_eq_error.mp h
  case inl h => exact hflush _ _ h
  case inr h =>
  obtain ⟨_, _, _, h⟩ := h
  cases h

end

end Taler
