import TalerModel.Validation.Session
import TalerModel.Validation.Theorems.Atomic

namespace Taler

open CCoinsViewCache Failure

-- The state tells why a check failed: the block is invalid for good, or the system failed.
def Failure.Reported : Failure → Prop
  | .returned state =>
    state.mode = .error ∨ state.mode = .invalid ∧ state.corruptionPossible = false
  | .fault _ => True

-- The state says that the block is invalid, although a copy of it may be valid.
def Failure.Noted : Failure → Prop
  | .returned state => state.mode = .invalid
  | .fault _ => True

namespace Check

variable {kind : Failure → Prop}

def Throws (kind : Failure → Prop) (c : Check α) : Prop :=
  ∀ e, c = .error e → kind e

@[simp]
lemma ok_throws (a : α) : Throws kind (.ok a) :=
  nofun

@[simp]
lemma pure_throws (a) : Throws kind (pure a : Check α) :=
  nofun

@[simp]
lemma error_throws : Throws kind (.error e : Check α) ↔ kind e :=
  ⟨fun h => h e rfl, fun h _ he => Except.error.inj he ▸ h⟩

@[simp]
lemma dos_reported : Throws Reported (dos l c r : Check α) :=
  error_throws.mpr (.inr ⟨rfl, rfl⟩)

@[simp]
lemma dos_noted : Throws Noted (dos l c r k : Check α) :=
  error_throws.mpr rfl

@[simp]
lemma fault_reported : Throws Reported (fault f : Check α) :=
  error_throws.mpr trivial

@[simp]
lemma fault_noted : Throws Noted (fault f : Check α) :=
  error_throws.mpr trivial

lemma Throws.rejectIf (h : Throws kind r) (b : Bool) : Throws kind (rejectIf b r) := by
  cases b
  case true => exact h
  case false => exact ok_throws ()

@[simp]
lemma rejectIf_dos_reported : Throws Reported (rejectIf b (dos l c r)) :=
  dos_reported.rejectIf b

@[simp]
lemma rejectIf_dos_noted : Throws Noted (rejectIf b (dos l c r k)) :=
  dos_noted.rejectIf b

lemma Throws.bind (hc : Throws kind c) (hk : ∀ a, Throws kind (k a)) : Throws kind (c >>= k) := by
  cases c
  case ok a => exact hk a
  case error e => exact error_throws.mpr (error_throws.mp hc)

end Check

section

open Check

lemma checkOutputs_noted (vout) (n : CAmount) : (checkOutputs n vout).val.Throws Noted := by
  induction vout generalizing n
  case nil => exact ok_throws _
  case cons out rest hi =>
  simp only [checkOutputs]
  repeat' split
  case isTrue => exact dos_noted
  case isTrue => exact dos_noted
  simp only [Traced.bind_val]
  split
  · exact dos_noted
  · exact hi _

lemma checkTransaction_noted (tx f) : (checkTransaction tx f).Throws Noted := by
  refine rejectIf_dos_noted.bind fun _ => rejectIf_dos_noted.bind fun _ =>
    rejectIf_dos_noted.bind fun _ => (checkOutputs_noted _ _).bind fun _ =>
    rejectIf_dos_noted.bind fun _ => ?_
  split
  · split
    · exact fault_noted
    · exact rejectIf_dos_noted
  · exact rejectIf_dos_noted

lemma checkTransactions_noted (vtx : List CTransaction) :
    (checkTransactions vtx).Throws Noted := by
  induction vtx
  case nil => exact ok_throws _
  case cons tx vtx hi => exact (checkTransaction_noted tx true).bind fun _ => hi

lemma checkCoinbase_noted (vtx) : (checkCoinbase vtx).Throws Noted := by
  cases vtx
  case nil => exact dos_noted
  case cons => exact rejectIf_dos_noted.bind fun _ => rejectIf_dos_noted

lemma checkContents_noted (block) : (checkContents block).Throws Noted :=
  rejectIf_dos_noted.bind fun _ => (checkCoinbase_noted _).bind fun _ =>
    (checkTransactions_noted _).bind fun _ => rejectIf_dos_noted

variable [Crypto]

section

variable (ctx : CheckContext) (block : CBlock)
include ctx block

lemma checkBeforeMemo_noted (pindexPrev fCheckPOW fCheckMerkleRoot) :
    (checkBeforeMemo ctx block pindexPrev fCheckPOW fCheckMerkleRoot).Throws Noted := by
  refine rejectIf_dos_noted.bind fun _ => ?_
  split
  · exact Throws.bind (rejectIf_dos_noted.bind fun _ => rejectIf_dos_noted)
      fun _ => checkContents_noted block
  · exact checkContents_noted block

lemma checkAfterMemo_noted (fCheckPOW : Bool) :
    (checkAfterMemo ctx block fCheckPOW).Throws Noted := by
  cases fCheckPOW
  case false => exact ok_throws ()
  rw [checkAfterMemo_eq, requireBlockSignature]
  split
  · exact fault_noted
  · exact rejectIf_dos_noted

lemma checkBlock_noted (pindexPrev) (fCheckPOW fCheckMerkleRoot : Bool) :
    (checkBlock ctx block pindexPrev fCheckPOW fCheckMerkleRoot).1.Throws Noted := by
  rw [checkBlock]
  split
  · exact ok_throws ()
  have hb := checkBeforeMemo_noted ctx block pindexPrev fCheckPOW fCheckMerkleRoot
  split
  case h_1 e he => exact error_throws.mpr (hb e he)
  case h_2 => exact checkAfterMemo_noted ctx block fCheckPOW

end

end

section

open Check

lemma checkInput_reported (scriptCheck flags tx i) (coin : Coin) :
    (checkInput scriptCheck flags tx i coin).Throws Reported := by
  rw [checkInput]
  split
  · exact fault_reported
  split
  · exact ok_throws ()
  · split <;> exact dos_reported

lemma checkInputs_reported (scriptCheck fScriptChecks flags tx) (inputs : List (CTxIn × Coin)) :
    (checkInputs scriptCheck fScriptChecks flags tx inputs).Throws Reported := by
  rw [checkInputs]
  split
  · exact ok_throws ()
  generalize inputs.zipIdx = indexed
  induction indexed
  case nil => exact ok_throws ()
  case cons p rest hi => exact (checkInput_reported _ _ _ _ _).bind fun _ => hi

variable {params : Params} {chainActive : CBlockIndex} (view : CCoinsViewCache)

lemma checkInputValues_reported (nSpendHeight nTime nValueIn) (vin : List CTxIn) :
    (checkInputValues params chainActive view nSpendHeight nTime nValueIn vin).val.Throws
      Reported := by
  induction vin generalizing nValueIn
  case nil => exact ok_throws _
  case cons txin vin hi =>
  simp only [checkInputValues]
  repeat' split
  case isTrue => exact fault_reported
  case isTrue => exact dos_reported
  case isTrue => exact dos_reported
  simp only [Traced.bind_val]
  split
  · exact dos_reported
  · exact hi _

variable (tx : CTransaction)

lemma checkFee_reported (nValueIn : CAmount) : (checkFee tx nValueIn).val.Throws Reported := by
  simp only [checkFee, Traced.bind_val]
  split
  · exact fault_reported
  split
  · exact dos_reported
  simp only [Traced.bind_val]
  split
  · exact dos_reported
  · exact ok_throws _

lemma checkTxInputs_reported (view nSpendHeight nTime) :
    (checkTxInputs params chainActive tx view nSpendHeight nTime).val.Throws Reported := by
  rw [checkTxInputs]
  split
  · exact dos_reported
  have hv := @checkInputValues_reported params chainActive view nSpendHeight nTime 0 tx.vin
  simp only [Traced.bind_val]
  split
  case h_1 e he => exact error_throws.mpr (hv e he)
  case h_2 => exact checkFee_reported _ _

lemma getCoinAge_isSome {tx : CTransaction} {view : CCoinsViewCache} (nTime)
    (h : tx.isCoinBase = false → ∀ txin ∈ tx.vin, view.haveCoin txin.prevout) :
    (getCoinAge params chainActive tx view nTime).isSome := by
  rw [getCoinAge]
  split
  · rfl
  rename_i hc
  have h := h (by simpa using hc)
  generalize 0 = sum
  generalize tx.vin = vin at h
  induction vin generalizing sum
  case nil => rfl
  case cons txin vin hi =>
  obtain ⟨hh, h⟩ := List.forall_mem_cons.mp h
  obtain ⟨coin, hg⟩ := Option.isSome_iff_exists.mp hh
  simp only [sumCentSeconds, hg]
  exact hi _ h

lemma spendInputs_reported (vin) (view : CCoinsViewCache) :
    (spendInputs vin view).Throws Reported := by
  induction vin generalizing view
  case nil => exact ok_throws _
  case cons txin vin hi =>
  rw [spendInputs]
  split
  · exact fault_reported
  · exact (hi _).bind fun _ => pure_throws _

lemma addCoin_reported (outpoint coin) (possibleOverwrite : Bool) :
    (view.addCoin outpoint coin possibleOverwrite).Throws Reported := by
  rw [addCoin]
  split
  · exact fault_reported
  split
  · exact ok_throws _
  dsimp only
  split
  · exact fault_reported
  · exact ok_throws _

lemma addOutputs_reported (nHeight check vout) (view : CCoinsViewCache) :
    (addOutputs tx nHeight check vout view).Throws Reported := by
  induction vout generalizing view
  case nil => exact ok_throws _
  case cons out vout hi => exact (addCoin_reported _ _ _ _).bind fun _ => hi _

lemma updateCoins_reported (nHeight : Nat) : (view.updateCoins tx nHeight).Throws Reported := by
  have hs : (view.markInputsSpent tx).Throws Reported := by
    rw [markInputsSpent]
    split
    · exact ok_throws _
    · exact spendInputs_reported _ _
  exact hs.bind fun _ => (addOutputs_reported _ _ _ _ _).bind fun _ => pure_throws _

lemma batchWriteEntries_reported (mapCoins) (view : CCoinsViewCache) :
    (batchWriteEntries mapCoins view).Throws Reported := by
  induction mapCoins generalizing view
  case nil => exact ok_throws _
  case cons head mapCoins hi =>
  refine Throws.bind ?_ fun _ => hi _
  rw [batchWriteEntry]
  split
  · exact ok_throws _
  split
  · split <;> exact ok_throws _
  split
  · exact fault_reported
  · split <;> exact ok_throws _

end

structure Vetted (params : Params) (block : CBlock) (pindex : CBlockIndex) : Prop where
  height : block.isProofOfStake → 2 ≤ params.forkNumber (nHeight pindex)
  coinstake : block.isProofOfStake →
                ∃ coinstake, block.vtx[1]? = some coinstake ∧ coinstake.vin ≠ []
  root : pindex.tail = [] → block.isNewestFormat = false

namespace ConnectContext

open Connect EStateM Check

variable {ctx : ConnectContext} {block : CBlock} {pindex p : CBlockIndex} {tx : CTransaction}
  {totals : Totals} {s s' : ConnectState} {kind : Failure → Prop} {i : Nat}

lemma check_throws (h : c.Throws kind) : EStateM.Throws kind (check c) s := by
  intro e s' he
  cases c
  case ok => nomatch he
  case error e' =>
  cases he
  exact error_throws.mp h

lemma traced_throws : EStateM.Throws kind (traced x) s :=
  nofun

lemma modify_throws : EStateM.Throws kind (modify f : Connect Unit) s :=
  nofun

lemma get_throws (h : EStateM.Throws kind (f s) s) : EStateM.Throws kind (get >>= f) s :=
  h

lemma checkKernel_reported [Crypto] (hv : Vetted ctx.params block pindex) :
    EStateM.Throws Reported (ctx.checkKernel block pindex) s := by
  rw [checkKernel]
  split
  · exact .pure _ _
  rename_i hp
  have hp : block.isProofOfStake := by simpa using hp
  obtain ⟨coinstake, hc, hi⟩ := hv.coinstake hp
  have hf := hv.height hp
  obtain ⟨txin, vin, hi⟩ := List.exists_cons_of_ne_nil hi
  rw [if_neg (Nat.not_lt.mpr hf)]
  simp only [hc, hi]
  split
  case h_1 => exact check_throws dos_reported
  rename_i coin _
  refine .bind (fun e s' he => ?_) fun found _ _ => ?_
  · have hx := @checkProofOfStake_error ctx.params s.stake _ ctx.chainActive
      block.getBlockHeader txin.prevout coin.out.nValue (ctx.correctCoin txin.prevout coin).1
      (ctx.correctCoin txin.prevout coin).2
    simp only [stake] at he
    split at he
    case h_1 => cases he
    rename_i e' st hk
    cases he
    rw [(hx _ _ hk).1]
    trivial
  cases found
  case none => exact check_throws dos_reported
  case some => exact .pure _ _

lemma storeStake_succeeds [Crypto] {proof : Uint256} {fJustCheck : Bool}
    (hf : FindsAncestors ctx.lookupBlockIndex pindex.tail)
    (hg : pindex.tail ≠ [] → s.stake.generated (lastGenerated s.stake.generated pindex.tail)) :
    ∃ s', ctx.storeStake block pindex proof fJustCheck s = .ok () s' ∧
      ∀ p, s.stake.generated p → s'.stake.generated p := by
  have ⟨s', h, _⟩ : EStateM.Reaches (ctx.storeStake block pindex proof fJustCheck) s ()
      (·.view = s.view) := storeStake_again hf fun _ => hg
  exact ⟨s', h, fun _ hp => storeStake_generated hf h hp⟩

lemma abortIfCorrupt_reported (h : e.Noted) : (abortIfCorrupt e).Reported := by
  cases e
  case fault => trivial
  case returned state =>
  have hm := h
  simp only [abortIfCorrupt, Reported]
  cases hc : state.corruptionPossible
  case true => exact .inl rfl
  case false => exact .inr ⟨hm, hc⟩

lemma checkBlockAgain_reported [Crypto] :
    EStateM.Throws Reported (ctx.checkBlockAgain block pindex fJustCheck) s := by
  refine traced_throws.bind fun _ _ _ => check_throws fun e he => ?_
  have hn := checkBlock_noted ctx.checkContext block pindex.tail (!fJustCheck) (!fJustCheck)
  cases hc : (checkBlock ctx.checkContext block pindex.tail (!fJustCheck) (!fJustCheck)).1
  case ok => simp [hc, Except.mapError] at he
  rename_i e'
  simp only [hc, Except.mapError, Except.error.injEq] at he
  rw [← he]
  exact abortIfCorrupt_reported (hn e' hc)

lemma assertBestBlock_reported : EStateM.Throws Reported (assertBestBlock pindex) s :=
  get_throws (check_throws (fault_reported.rejectIf _))

lemma checkBIP30_reported [Crypto] : EStateM.Throws Reported (checkBIP30 block) s :=
  get_throws (check_throws rejectIf_dos_reported)

lemma checkSequenceLocks_reported :
    (ctx.checkSequenceLocks pindex tx view).Throws Reported := by
  simp only [checkSequenceLocks]
  split
  · exact fault_reported
  · exact rejectIf_dos_reported

lemma updateReward_reported (hi : s.view.haveInputs tx) :
    EStateM.Throws Reported (ctx.updateReward block pindex i tx txfee posReward) s := by
  rw [updateReward]
  split
  case isFalse => exact .pure _ _
  refine get_throws (traced_throws.bind fun _ _ _ => (check_throws rejectIf_dos_reported).bind
    fun _ _ _ => ?_)
  have ha := @getCoinAge_isSome ctx.params ctx.chainActive tx s.view block.nTime fun hc => by
    simpa [haveInputs, hc] using hi
  obtain ⟨nCoinAge, ha⟩ := Option.isSome_iff_exists.mp ha
  simp only [ha]
  exact traced_throws

lemma connectInputs_reported [Crypto] :
    EStateM.Throws Reported (ctx.connectInputs block pindex i tx totals) s := by
  rw [connectInputs]
  split
  · exact .pure _ _
  refine get_throws (traced_throws.bind fun _ s1 h1 => .bind ?_ fun txfee s2 h2 => ?_)
  · rw [(traced_eq_ok.mp h1).1]
    exact check_throws (checkTxInputs_reported _ _ _ _)
  rw [(traced_eq_ok.mp h1).1] at h2
  obtain ⟨hfee, hs2⟩ := check_eq_ok.mp h2
  have hi := haveInputs_of_checkTxInputs hfee
  refine traced_throws.bind fun _ s3 h3 => (check_throws rejectIf_dos_reported).bind
    fun _ s4 h4 => ?_
  have hv : s4.view = s.view := by
    rw [(check_eq_ok.mp h4).2, (traced_eq_ok.mp h3).2, hs2, (traced_eq_ok.mp h1).2]
  refine (updateReward_reported (hv.symm ▸ hi)).bind fun _ _ _ =>
    (check_throws checkSequenceLocks_reported).bind fun _ _ _ => modify_throws.bind
    fun _ _ _ => .pure _ _

lemma getTransactionSigOpCost_reported :
    (getTransactionSigOpCost tx view flags).Throws Reported := by
  rw [getTransactionSigOpCost]
  dsimp only
  split
  · exact ok_throws _
  split
  · exact fault_reported
  · exact ok_throws _

lemma countSigOps_reported :
    EStateM.Throws Reported (ctx.countSigOps pindex tx totals) s :=
  get_throws ((check_throws getTransactionSigOpCost_reported).bind fun _ _ _ =>
    (check_throws rejectIf_dos_reported).bind fun _ _ _ => .pure _ _)

lemma checkReward_reported :
    EStateM.Throws Reported (ctx.checkReward block pindex totals) s := by
  refine traced_throws.bind fun _ _ _ => traced_throws.bind fun _ _ _ => ?_
  split
  · exact check_throws fault_reported
  refine traced_throws.bind fun valueOut _ _ => ?_
  cases valueOut
  case none => exact check_throws fault_reported
  case some => exact check_throws rejectIf_dos_reported

variable (hx : ctx.AsksScripts)

include hx

lemma checkScripts_reported :
    EStateM.Throws Reported (ctx.checkScripts pindex tx totals) s := by
  have ⟨scriptCheck, fScriptChecks, hx⟩ := hx
  rw [checkScripts]
  split
  · exact .pure _ _
  refine get_throws ((check_throws ?_).bind fun _ _ _ => .pure _ _)
  split
  · exact ok_throws ()
  rw [hx]
  exact checkInputs_reported _ _ _ _ _

lemma connectTransaction_reported [Crypto] :
    EStateM.Throws Reported (ctx.connectTransaction block pindex i tx totals) s :=
  connectInputs_reported.bind fun _ _ _ => countSigOps_reported.bind fun _ _ _ =>
    (checkScripts_reported hx).bind fun _ _ _ => modify_throws.bind fun _ _ _ =>
    get_throws ((check_throws (updateCoins_reported _ _ _)).bind fun _ _ _ =>
      modify_throws.bind fun _ _ _ => .pure _ _)

lemma connectTransactions_reported [Crypto] :
    EStateM.Throws Reported (ctx.connectTransactions block pindex vtx totals) s := by
  induction vtx generalizing totals s
  case nil => exact .pure _ _
  case cons _ _ hi => exact (connectTransaction_reported hx).bind fun _ _ _ => hi

lemma connectContents_reported [Crypto] :
    EStateM.Throws Reported (ctx.connectContents block pindex fJustCheck) s := by
  refine (check_throws (fault_reported.rejectIf _)).bind fun _ _ _ => checkBIP30_reported.bind
    fun _ _ _ => (connectTransactions_reported hx).bind fun _ _ _ => checkReward_reported.bind
    fun _ _ _ => (check_throws rejectIf_dos_reported).bind fun _ _ _ => ?_
  rw [Connect.when]
  split
  · exact modify_throws.bind fun _ _ _ => modify_throws
  · exact .pure _ _

lemma connectBlock_reported [Crypto] (hv : Vetted ctx.params block pindex)
    (hf : FindsAncestors ctx.lookupBlockIndex pindex.tail)
    (hg : pindex.tail ≠ [] → s.stake.generated (lastGenerated s.stake.generated pindex.tail)) :
    EStateM.Throws Reported (ctx.connectBlock block pindex fJustCheck) s := by
  refine (check_throws (fault_reported.rejectIf _)).bind fun _ s1 h1 =>
    (checkKernel_reported hv).bind fun proof s2 h2 => ?_
  obtain rfl := (check_eq_ok.mp h1).2
  rw [← (checkKernel_passes h2).2] at hg
  have ⟨s3, h3, _⟩ := @storeStake_succeeds ctx block pindex s2 _ proof fJustCheck hf hg
  refine .bind (fun e s' he => nomatch h3.symm.trans he) fun _ _ _ =>
    checkBlockAgain_reported.bind fun _ _ _ => assertBestBlock_reported.bind fun _ _ _ => ?_
  split
  · rw [Connect.when]
    split
    · exact modify_throws
    · exact .pure _ _
  case isFalse => exact connectContents_reported hx

end ConnectContext

end Taler
