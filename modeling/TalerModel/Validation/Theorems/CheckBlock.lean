import TalerModel.Validation.CheckBlock

namespace Taler

open Check Params Crypto

lemma checkTransactions_returns (vtx) : (checkTransactions vtx).Returns := by
  induction vtx
  case nil => simp [checkTransactions]
  case cons tx vtx hi => simp [checkTransactions, bind_returns, checkTransaction_returns, hi]

lemma checkTransactions_ok (h : checkTransactions vtx = .ok ()) :
    ∀ tx ∈ vtx, checkTransaction tx true = .ok () := by
  induction vtx
  case nil => simp
  case cons tx vtx hi =>
  have ⟨ht, hv⟩ := seq_eq_ok.mp h
  exact List.forall_mem_cons.mpr ⟨ht, hi hv⟩

lemma checkTransaction_vout_ne_nil (h : checkTransaction tx f = .ok ()) : tx.vout ≠ [] := by
  have ⟨_, h⟩ := seq_eq_ok.mp h
  have ⟨h, _⟩ := seq_eq_ok.mp h
  simpa using h

lemma checkCoinbase_returns (vtx) : (checkCoinbase vtx).Returns := by
  cases vtx <;> simp [checkCoinbase, bind_returns]

lemma checkContents_returns (block) : (checkContents block).Returns := by
  simp [checkContents, bind_returns, checkTransactions_returns, checkCoinbase_returns]

lemma checkContents_ok (h : checkContents block = .ok ()) :
    block.vtx ≠ [] ∧ ∀ tx ∈ block.vtx, checkTransaction tx true = .ok () := by
  have ⟨hl, h⟩ := seq_eq_ok.mp h
  have ⟨_, h⟩ := seq_eq_ok.mp h
  have ⟨ht, _⟩ := seq_eq_ok.mp h
  simp only [rejectIf_dos_eq_ok, Bool.or_eq_false_iff] at hl
  exact ⟨by simpa using hl.1.1, checkTransactions_ok ht⟩

lemma solver_pubkey (h : solver script = some (.pubkey, vSolutions)) : ∃ k, vSolutions = [k] := by
  simp only [solver] at h
  repeat' split at h
  all_goals simp at h
  exact ⟨_, h.symm⟩

variable [Crypto]

lemma checkBeforeMemo_returns (ctx block pindexPrev fCheckPOW fCheckMerkleRoot) :
    (checkBeforeMemo ctx block pindexPrev fCheckPOW fCheckMerkleRoot).Returns := by
  cases fCheckMerkleRoot <;>
    simp [checkBeforeMemo, checkBlockHeader, checkMerkleRoot, bind_returns, checkContents_returns]

lemma checkBeforeMemo_ok :
    checkBeforeMemo ctx block pindexPrev fCheckPOW fCheckMerkleRoot = .ok () ↔
    checkBlockHeader ctx block.toCBlockHeader pindexPrev fCheckPOW = .ok () ∧
    (fCheckMerkleRoot → checkMerkleRoot block = .ok ()) ∧ checkContents block = .ok () := by
  cases fCheckMerkleRoot <;> simp [checkBeforeMemo, seq_eq_ok]

-- The signature of a proof-of-stake block is looked for in its second transaction.
def NeedsCoinstake (params : Params) (block : CBlock) : Prop :=
  block.getHash ≠ params.hashGenesisBlock ∧ block.isProofOfStake

lemma checkBlockSignature_error (ht : ∀ tx ∈ block.vtx, tx.vout ≠ []) :
    (∃ f, checkBlockSignature params block = .error f) ↔
    NeedsCoinstake params block ∧ block.vtx.length < 2 := by
  simp only [checkBlockSignature, NeedsCoinstake]
  split
  case isTrue h =>
    simp only [Bool.or_eq_true, decide_eq_true_eq, Bool.not_eq_true'] at h
    cases h <;> simp_all
  rename_i h
  simp only [Bool.or_eq_true, decide_eq_true_eq, Bool.not_eq_true', not_or, Bool.not_eq_false] at h
  simp only [h, ne_eq, not_false_eq_true, true_and]
  split
  case h_1 hn => simpa [Nat.lt_succ_iff] using hn
  rename_i tx hs
  have hl := List.getElem?_eq_some_iff.mp hs |>.choose
  have hv := ht tx <| List.mem_of_getElem? hs
  have ⟨out, rest, hv⟩ := List.exists_cons_of_ne_nil hv
  simp only [hv, List.getElem?_cons_zero, Nat.not_lt.mpr (Nat.succ_le_of_lt hl), iff_false]
  split
  case h_1 hp =>
    have ⟨k, hk⟩ := solver_pubkey hp
    simp [hk]
  case h_2 => simp

lemma checkAfterMemo_eq (ctx block) :
    checkAfterMemo ctx block true = requireBlockSignature ctx.params block := by
  simp [checkAfterMemo, forkNumber_lt_three]

lemma requireBlockSignature_ok :
    requireBlockSignature params block = .ok () ↔ checkBlockSignature params block = .ok true := by
  simp only [requireBlockSignature]
  cases checkBlockSignature params block
  case error => simp [fault]
  case ok => simp

lemma requireBlockSignature_returns :
    (requireBlockSignature params block).Returns ↔ ∀ f, checkBlockSignature params block ≠ .error f := by
  simp only [requireBlockSignature]
  cases checkBlockSignature params block
  case error => simp [fault, Check.Returns]
  case ok => simp

-- Nothing before the signature check gives a proof-of-stake block a second transaction.
structure MissesCoinstake (ctx : CheckContext) (block : CBlock) (pindexPrev : CBlockIndex)
    (fCheckPOW fCheckMerkleRoot : Bool) : Prop where
  unchecked : block.fChecked = false
  withPOW : fCheckPOW = true
  stake : NeedsCoinstake ctx.params block
  onlyOne : block.vtx.length = 1
  header : checkBlockHeader ctx block.toCBlockHeader pindexPrev fCheckPOW = .ok ()
  merkleRoot : fCheckMerkleRoot → checkMerkleRoot block = .ok ()
  contents : checkContents block = .ok ()

theorem checkBlock_returns_iff (ctx : CheckContext) (block : CBlock) (pindexPrev : CBlockIndex)
    (fCheckPOW fCheckMerkleRoot : Bool) :
    (checkBlock ctx block pindexPrev fCheckPOW fCheckMerkleRoot).1.Returns ↔
    ¬MissesCoinstake ctx block pindexPrev fCheckPOW fCheckMerkleRoot := by
  simp only [checkBlock]
  split
  case isTrue hc => simpa using fun h : MissesCoinstake .. => by simp [h.unchecked] at hc
  rename_i hc
  split
  case h_1 e he =>
    have hr := checkBeforeMemo_returns ctx block pindexPrev fCheckPOW fCheckMerkleRoot
    refine ⟨fun _ h => ?_, fun _ => he ▸ hr⟩
    have hb := checkBeforeMemo_ok.mpr ⟨h.header, h.merkleRoot, h.contents⟩
    simp [hb] at he
  rename_i hb
  have ⟨hh, hm, hs⟩ := checkBeforeMemo_ok.mp hb
  have ⟨hn, ht⟩ := checkContents_ok hs
  have hv tx (h : tx ∈ block.vtx) := checkTransaction_vout_ne_nil <| ht tx h
  cases fCheckPOW
  case false => simpa [checkAfterMemo] using fun h : MissesCoinstake .. => nomatch h.withPOW
  rw [checkAfterMemo_eq, requireBlockSignature_returns, ← not_exists, checkBlockSignature_error hv]
  refine not_congr ⟨fun ⟨hp, hl⟩ => ?_, fun h => ⟨h.stake, by simp [h.onlyOne]⟩⟩
  have hl : block.vtx.length = 1 := by
    have := List.length_pos_of_ne_nil hn
    omega
  exact ⟨by simpa using hc, rfl, hp, hl, hh, hm, hs⟩

def emptyCoinbase : CTransaction where
  vin := [{ prevout := { hash := 0, n := 0xffffffff }, scriptSig := [0, 0] }]
  vout := [{ nValue := 0, scriptPubKey := [] }]
  hash := 7
  witnessHash := 7

def stakeWithoutCoinstake : CBlock where
  nVersion := 2
  hashPrevBlock := 0
  hashMerkleRoot := 7
  nTime := 0
  nBits := 0
  nNonce := 0
  nFlags := BLOCK_PROOF_OF_STAKE ||| BLOCK_NEW_FORMAT
  vtx := [emptyCoinbase]

def emptyContext : CheckContext where
  params := mainNet
  lookupBlockIndex _ := []

omit [Crypto] in
theorem checkBlock_indexes_out_of_range :
    (@checkBlock additive emptyContext stakeWithoutCoinstake [] true true).1 =
      .error (.fault .outOfRange) := by
  decide +kernel

section

structure CheckCall where
  lookupBlockIndex : Uint256 → CBlockIndex
  pindexPrev : CBlockIndex

def CheckCall.context (params : Params) (call : CheckCall) : CheckContext where
  params := params
  lookupBlockIndex := call.lookupBlockIndex

variable (params : Params)

def CheckCall.check (call : CheckCall) (block : CBlock) : Check Unit × CBlock :=
  checkBlock (call.context params) block call.pindexPrev true true

def checkCalls (block : CBlock) : List CheckCall → List (Check Unit)
  | [] => []
  | call :: calls =>
    match call.check params block with
    | (.error (.fault f), _) => [.error (.fault f)]
    | (verdict, block) => verdict :: checkCalls block calls

-- A call accepts the block only if it would accept a fresh copy of it.
def MemoSound (block : CBlock) (calls : List CheckCall) : Prop :=
  ∀ p ∈ calls.zip (checkCalls params block calls),
    p.2 = .ok () → (p.1.check params block.fresh).1 = .ok ()

def CheckCall.HeaderPasses (call : CheckCall) (block : CBlock) : Prop :=
  checkBlockHeader (call.context params) block.toCBlockHeader call.pindexPrev true = .ok ()

def BodyPasses (block : CBlock) : Prop :=
  checkMerkleRoot block = .ok () ∧ checkContents block = .ok ()

-- Once the memo is set, the signature is right and the header passes in each later context.
def MemoSafe (block : CBlock) (calls : List CheckCall) : Prop :=
  calls.Pairwise fun call later =>
    call.HeaderPasses params block → BodyPasses block →
    (∀ f, checkBlockSignature params block ≠ .error f) →
    checkBlockSignature params block = .ok true ∧ later.HeaderPasses params block

variable {params : Params} {block : CBlock} {call : CheckCall}

lemma CheckCall.check_checked (h : block.fChecked) : call.check params block = (.ok (), block) := by
  simp [check, checkBlock, h]

lemma checkCalls_checked (h : block.fChecked) (calls) :
    checkCalls params block calls = calls.map fun _ => .ok () := by
  induction calls
  case nil => rfl
  case cons call calls hi => simp [checkCalls, CheckCall.check_checked h, hi]

lemma CheckCall.before_ok :
    checkBeforeMemo (call.context params) block call.pindexPrev true true = .ok () ↔
    call.HeaderPasses params block ∧ BodyPasses block := by
  simp [checkBeforeMemo_ok, HeaderPasses, BodyPasses]

lemma CheckCall.check_fresh_ok :
    (call.check params block.fresh).1 = .ok () ↔
    call.HeaderPasses params block ∧ BodyPasses block ∧ checkBlockSignature params block = .ok true := by
  have hb : checkBeforeMemo (call.context params) block.fresh call.pindexPrev true true =
      checkBeforeMemo (call.context params) block call.pindexPrev true true := rfl
  simp only [check, checkBlock, CBlock.fresh, Bool.false_eq_true, if_false]
  rw [← and_assoc, ← before_ok, ← hb]
  simp only [CBlock.fresh]
  split
  case h_1 he => simp [he]
  case h_2 he =>
  rw [he, checkAfterMemo_eq, requireBlockSignature_ok]
  exact ⟨fun h => ⟨rfl, h⟩, And.right⟩

section

variable (hc : block.fChecked = false)
include hc

lemma checkCalls_cons_fail (h : ¬(call.HeaderPasses params block ∧ BodyPasses block)) (calls) :
    ∃ state, checkCalls params block (call :: calls) =
      .error (.returned state) :: checkCalls params block calls := by
  rw [← CheckCall.before_ok] at h
  have hr := checkBeforeMemo_returns (call.context params) block call.pindexPrev true true
  simp only [checkCalls, CheckCall.check, checkBlock, hc, Bool.false_eq_true, if_false]
  cases he : checkBeforeMemo (call.context params) block call.pindexPrev true true
  case error e =>
    cases e
    case returned state => exact ⟨state, rfl⟩
    case fault f => exact absurd he (hr f)
  case ok => exact absurd he h

lemma checkCalls_cons_pass (h : call.HeaderPasses params block ∧ BodyPasses block)
    (hs : checkBlockSignature params block = .ok valid) (calls) :
    checkCalls params block (call :: calls) =
      (call.check params block).1 :: calls.map fun _ => .ok () := by
  rw [← CheckCall.before_ok] at h
  have ha : ∀ f, checkAfterMemo (call.context params) block true ≠ .error (.fault f) := by
    rw [checkAfterMemo_eq]
    exact requireBlockSignature_returns.mpr fun f hf => by simp [CheckCall.context, hs] at hf
  simp only [checkCalls, CheckCall.check, checkBlock, hc, h, Bool.false_eq_true, if_false]
  rw [checkCalls_checked rfl]

lemma checkCalls_cons_fault (h : call.HeaderPasses params block ∧ BodyPasses block)
    (hs : checkBlockSignature params block = .error f) (calls) :
    checkCalls params block (call :: calls) = [.error (.fault f)] := by
  rw [← CheckCall.before_ok] at h
  have ha : checkAfterMemo (call.context params) block true = .error (.fault f) := by
    simp [checkAfterMemo_eq, requireBlockSignature, CheckCall.context, hs, fault]
  simp [checkCalls, CheckCall.check, checkBlock, hc, h, ha]

lemma memoSound_cons_fail (h : ¬(call.HeaderPasses params block ∧ BodyPasses block)) :
    MemoSound params block (call :: calls) ↔ MemoSound params block calls := by
  have ⟨state, he⟩ := checkCalls_cons_fail hc h calls
  simp [MemoSound, he]

lemma memoSound_cons_pass (h : call.HeaderPasses params block ∧ BodyPasses block)
    (hs : checkBlockSignature params block = .ok valid) :
    MemoSound params block (call :: calls) ↔
    ∀ later ∈ calls, valid = true ∧ later.HeaderPasses params block := by
  have hf : block.fresh = block := by simp [CBlock.fresh, ← hc]
  have hz : calls.zip (calls.map fun _ => (.ok () : Check Unit)) = calls.map (·, .ok ()) := by
    simpa using List.zip_map' (f := id) (g := fun _ => (.ok () : Check Unit))
  simp only [MemoSound, checkCalls_cons_pass hc h hs, List.zip_cons_cons, hz, List.forall_mem_cons,
    List.forall_mem_map, CheckCall.check_fresh_ok, forall_const, hs, Except.ok.injEq, h.2,
    true_and]
  rw [← hf, CheckCall.check_fresh_ok, hf, hs]
  simp [h, and_comm]

end

theorem memoSound_iff_memoSafe (hc : block.fChecked = false) (calls : List CheckCall) :
    MemoSound params block calls ↔ MemoSafe params block calls := by
  induction calls
  case nil => simp [MemoSound, MemoSafe]
  case cons call calls hi =>
  simp only [MemoSafe, List.pairwise_cons] at hi ⊢
  by_cases hp : call.HeaderPasses params block ∧ BodyPasses block
  case neg =>
    -- A failed call neither accepts nor sets the memo.
    rw [memoSound_cons_fail hc hp, hi]
    exact ⟨fun h => ⟨fun _ _ h1 h2 => absurd ⟨h1, h2⟩ hp, h⟩, And.right⟩
  cases hs : checkBlockSignature params block
  case error f =>
    -- The call does not return, so there is no later one.
    simp [MemoSound, checkCalls_cons_fault hc hp hs, List.pairwise_iff_forall_sublist]
  rw [memoSound_cons_pass hc hp hs]
  refine ⟨fun h => ⟨fun c hm _ _ _ => ?_, ?_⟩, fun h c hm => ?_⟩
  · simpa using h c hm
  · exact List.pairwise_of_forall_mem_list fun _ _ c hm _ _ _ => by simpa using h c hm
  · simpa using h.1 c hm hp.1 hp.2 (by simp)

def pubkeyCoinstake : CTransaction where
  vin := [{ prevout := { hash := 5, n := 0 } }]
  vout := [{ nValue := 0, scriptPubKey := 0x21 :: 0x02 :: List.replicate 32 0 ++ [OP_CHECKSIG] }]
  hash := 8
  witnessHash := 8

def wronglySigned : CBlock :=
  { stakeWithoutCoinstake with
    hashMerkleRoot := 15
    vtx := [emptyCoinbase, pubkeyCoinstake]
    vchBlockSig := [1] }

def emptyCall : CheckCall where
  lookupBlockIndex _ := []
  pindexPrev := []

omit [Crypto] in
theorem memoSound_iff_memoSafe_wronglySigned :
    wronglySigned.fChecked = false ∧
    (@MemoSound additive mainNet wronglySigned [emptyCall, emptyCall] ↔
     @MemoSafe additive mainNet wronglySigned [emptyCall, emptyCall]) :=
  ⟨rfl, @memoSound_iff_memoSafe additive mainNet wronglySigned rfl _⟩

-- The first call rejects the signature, but only after the block was marked as checked.
omit [Crypto] in
theorem checkBlock_accepts_wrong_signature :
    @checkCalls additive mainNet wronglySigned [emptyCall, emptyCall] =
      [dos 100 REJECT_INVALID "bad-blk-sign", .ok ()] ∧
    ¬@MemoSound additive mainNet wronglySigned [emptyCall, emptyCall] := by
  have hc : @checkCalls additive mainNet wronglySigned [emptyCall, emptyCall] =
      [dos 100 REJECT_INVALID "bad-blk-sign", .ok ()] := by decide +kernel
  refine ⟨hc, fun h => ?_⟩
  have hf : (@CheckCall.check additive mainNet emptyCall wronglySigned.fresh).1 ≠
      .ok () := by decide +kernel
  exact hf <| h (emptyCall, .ok ()) (by simp [hc]) rfl

end

end Taler
