import TalerModel.Script.Interpreter
import TalerModel.Library.Matching

namespace Taler

open Codec EStateM List

-- A computation calls the checker at most so many times, whatever its outcome.
def Eval.Costs (x : Eval α) (k : Nat) : Prop :=
  ∀ checks, (x checks).final ≤ checks + k

namespace Eval.Costs

variable {x : Eval α} {k l : Nat}

lemma pure (a : α) : Costs (Pure.pure a) k :=
  fun _ => Nat.le_add_right _ _

lemma throw (e) : Costs (MonadExcept.throw e : Eval α) k :=
  fun _ => Nat.le_add_right _ _

lemma ofExcept (r : Except ScriptError α) : Costs (MonadExcept.ofExcept r) k := by
  cases r
  case error e => exact throw e
  case ok a => exact pure a

lemma bind {f : α → Eval β} (hx : Costs x k)
    (hf : ∀ a n n', x n = .ok a n' → Costs (f a) l) : Costs (x >>= f) (k + l) := by
  intro n
  have hn := hx n
  cases h : x n
  case ok a n' =>
    rw [h] at hn
    rw [bind_of_ok h]
    have hf := hf a n n' h n'
    simp only [Result.final] at hn
    omega
  case error =>
  rw [h] at hn
  rw [bind_of_error h]
  exact hn.trans (by omega)

lemma mono (h : Costs x k) (hk : k ≤ l) : Costs x l :=
  fun n => (h n).trans (Nat.add_le_add_left hk n)

lemma free_bind {f : α → Eval β} {r : Except ScriptError α} (hf : ∀ a, r = .ok a → Costs (f a) l) :
    Costs (MonadExcept.ofExcept r >>= f) l := by
  refine Nat.zero_add l ▸ bind (ofExcept r) fun a n n' h => hf a ?_
  cases r
  case error => cases h
  case ok => cases h; rfl

end Eval.Costs

namespace CScript

lemma isSmallInteger.bounds (h : isSmallInteger opcode) :
    81 ≤ opcode.toNat ∧ opcode.toNat ≤ 96 := by
  simpa [isSmallInteger, UInt8.le_iff_toNat_le, OP_1, OP_16] using h

lemma isSmallInteger.decodeOpN_eq (h : isSmallInteger opcode) :
    decodeOpN opcode = opcode.toNat - 80 := by
  rw [decodeOpN, if_neg]
  · rfl
  rintro rfl
  exact absurd h (by decide)

lemma isSmallInteger.getint_eq (h : isSmallInteger opcode) (fRequireMinimal) :
    CScriptNum.getint (CScriptNum.serialize (opcode.toNat - 0x50)) fRequireMinimal =
      .ok (decodeOpN opcode) := by
  have hall : ∀ n < 16, ∀ fRequireMinimal,
      CScriptNum.getint (CScriptNum.serialize ((n + 81 : Nat) - 0x50)) fRequireMinimal =
        .ok ((n + 81 : Nat) - 80) := by
    decide +kernel
  have hb := isSmallInteger.bounds h
  have hn := hall (opcode.toNat - 81) (by omega) fRequireMinimal
  rw [Nat.sub_add_cancel hb.1] at hn
  rw [hn, isSmallInteger.decodeOpN_eq h]
  congr 1
  omega

end CScript

namespace EvalContext

open Eval CScript getSigOpCount

variable {ctx : EvalContext} {m m' : Machine} {code : CScript} {stack : List Bytes}

lemma check_costs {f : Bool → Eval α} (hf : ∀ fOk, Costs (f fOk) k) :
    Costs (ctx.check vchSig vchPubKey code >>= f) (k + 1) := by
  intro n
  have hn := hf (ctx.checkSig vchSig vchPubKey code) (n + 1)
  rw [Nat.add_right_comm] at hn
  exact hn

lemma finish_costs : Costs (finish verify fSuccess e m) 0 := by
  rw [finish]
  split
  · exact .pure _
  split
  · exact .pure _
  · exact .throw _

lemma evalCheckSig_costs : Costs (ctx.evalCheckSig verify m) 1 := by
  rw [evalCheckSig]
  split
  case h_2 => exact .throw _
  refine .free_bind fun _ _ => .free_bind fun _ _ => .free_bind fun _ _ => ?_
  refine check_costs fun _ => ?_
  split
  · exact .throw _
  · exact finish_costs

lemma matchSigs_costs :
    Costs (ctx.matchSigs stack code nKeysCount nSigsCount ikey isig) nKeysCount := by
  induction nKeysCount generalizing nSigsCount ikey isig
  case zero => cases nSigsCount <;> exact .pure _
  case succ nKeysCount hi =>
  cases nSigsCount
  case zero => exact .pure _
  case succ nSigsCount =>
  refine .free_bind fun _ _ => .free_bind fun _ _ => .free_bind fun _ _ => .free_bind fun _ _ => ?_
  refine check_costs fun fOk => ?_
  cases fOk
  all_goals
    simp only [Bool.false_eq_true, if_true, if_false]
    split
    · exact .pure _
    · exact hi

lemma evalCheckMultiSig_costs (h : ∀ nKeys : Int, nKeys ≤ MAX_PUBKEYS_PER_MULTISIG →
      (stacktop m.stack 1 >>= (CScriptNum.getint · ctx.fRequireMinimal)) = .ok nKeys →
      nKeys.toNat ≤ k) :
    Costs (ctx.evalCheckMultiSig verify m) k := by
  rw [evalCheckMultiSig]
  split
  · exact .throw _
  refine .free_bind fun nKeys hk => ?_
  split
  · exact .throw _
  dsimp only
  split
  · exact .throw _
  split
  · exact .throw _
  refine .free_bind fun nSigs _ => ?_
  split
  · exact .throw _
  split
  · exact .throw _
  refine .free_bind fun code _ => ?_
  refine .mono (.bind matchSigs_costs fun _ _ _ _ => .free_bind fun _ _ => finish_costs) ?_
  exact h nKeys (by omega) hk

lemma ok_bind (a) (f : α → Eval β) : (ofExcept (.ok a : Except ScriptError α) >>= f) = f a :=
  rfl

lemma stacktop_of_drop (h : stack.drop i = a :: l) : stacktop stack (i + 1) = .ok a := by
  rw [stacktop, Nat.add_sub_cancel, ← Nat.add_zero i, ← getElem?_drop, h]
  rfl

section

variable {keys sigs : List Bytes}
  (hsig : ∀ vchSig, ctx.checkSignatureEncoding vchSig = .ok ())
  (hkey : ∀ vchPubKey, ctx.checkPubKeyEncoding vchPubKey = .ok ())
include hsig hkey

-- The induction is on the keys that are left. The greedy choice keeps what can be matched.
lemma matchSigs_spec (code) (n : Nat) (hkeys : stack.drop ikey = keys ++ l)
    (hsigs : stack.drop isig = sigs ++ l') (hle : sigs.length ≤ keys.length) :
    ∃ fSuccess n', ctx.matchSigs stack code keys.length sigs.length (ikey + 1) (isig + 1) n =
      .ok fSuccess n' ∧ (fSuccess ↔ Matches (ctx.checkSig · · code) sigs keys) := by
  induction keys generalizing sigs ikey isig n
  case nil =>
    rw [length_eq_zero_iff.mp (Nat.le_zero.mp hle)]
    exact ⟨true, n, rfl, iff_of_true rfl .nil⟩
  case cons key keys hi =>
  cases sigs
  case nil => exact ⟨true, n, rfl, iff_of_true rfl .nil⟩
  case cons sig sigs =>
  have hkeys' : stack.drop (ikey + 1) = keys ++ l := by rw [← tail_drop, hkeys]; rfl
  have hsigs' : stack.drop (isig + 1) = sigs ++ l' := by rw [← tail_drop, hsigs]; rfl
  have hrun : ctx.matchSigs stack code (keys.length + 1) (sigs.length + 1) (ikey + 1) (isig + 1) n =
      if (if ctx.checkSig sig key code then sigs.length else sigs.length + 1) > keys.length then
        .ok false (n + 1)
      else ctx.matchSigs stack code keys.length
        (if ctx.checkSig sig key code then sigs.length else sigs.length + 1) (ikey + 1 + 1)
        (if ctx.checkSig sig key code then isig + 1 + 1 else isig + 1) (n + 1) := by
    simp only [matchSigs, stacktop_of_drop hkeys, stacktop_of_drop hsigs, hsig, hkey, ok_bind]
    change (if _ then _ else _ : Eval Bool) (n + 1) = _
    cases ctx.checkSig sig key code
    all_goals
      simp only [Bool.false_eq_true, if_true, if_false]
      split
      · rfl
      · rfl
  rw [length_cons, length_cons, hrun]
  cases hc : ctx.checkSig sig key code
  case true =>
    simp only [if_true, if_neg (Nat.not_lt.mpr (Nat.le_of_succ_le_succ hle))]
    obtain ⟨b, n', hb, hm⟩ := hi (n + 1) hkeys' hsigs' (Nat.le_of_succ_le_succ hle)
    exact ⟨b, n', hb, hm.trans (Matches.cons_of_pos (R := (ctx.checkSig · · code)) hc).symm⟩
  case false =>
    have hneg : Matches (ctx.checkSig · · code) (sig :: sigs) (key :: keys) ↔ _ :=
      Matches.cons_of_neg (Bool.eq_false_iff.mp hc)
    simp only [Bool.false_eq_true, if_false]
    split
    case isTrue hlt =>
      refine ⟨false, n + 1, rfl, iff_of_false Bool.false_ne_true fun h => ?_⟩
      have := (hneg.mp h).length_le
      exact absurd this (Nat.not_le.mpr hlt)
    case isFalse hlt =>
      obtain ⟨b, n', hb, hm⟩ := hi (n + 1) hkeys' hsigs (Nat.not_lt.mp hlt)
      exact ⟨b, n', hb, hm.trans hneg.symm⟩

-- The greedy loop finds out whether the signatures match, and it looks at every key at most once.
theorem evalCheckMultiSig_iff_matching (keys sigs : List Bytes)
    (hstack : m.stack = vn :: (keys.reverse ++ vm :: (sigs.reverse ++ dummy :: rest)))
    (hn : keys.length ≤ MAX_PUBKEYS_PER_MULTISIG) (hm : sigs.length ≤ keys.length)
    (hvn : CScriptNum.getint vn ctx.fRequireMinimal = .ok keys.length)
    (hvm : CScriptNum.getint vm ctx.fRequireMinimal = .ok sigs.length)
    (hops : m.nOpCount + keys.length ≤ MAX_OPS_PER_SCRIPT)
    (hcode : ctx.scriptCode m.code sigs.reverse = .ok code)
    (hdummy : ctx.nullDummy → dummy = []) :
    ((∃ m' n', ctx.evalCheckMultiSig false m n = .ok m' n' ∧ m'.stack = [1] :: rest) ↔
      ∃ f : Fin sigs.length → Fin keys.length, StrictMono f ∧
        ∀ i, ctx.checkSig (sigs.get i) (keys.get (f i)) code) ∧
      (ctx.evalCheckMultiSig false m n).final ≤ n + keys.length := by
  have hkeys : m.stack.drop 1 = keys.reverse ++ vm :: (sigs.reverse ++ dummy :: rest) := by
    rw [hstack]; rfl
  have hdrop : m.stack.drop (keys.length + 1) = vm :: (sigs.reverse ++ dummy :: rest) := by
    rw [Nat.add_comm, ← drop_drop, hkeys, drop_left' (length_reverse ..)]
  have hsigs : m.stack.drop (keys.length + 2) = sigs.reverse ++ dummy :: rest := by
    rw [← tail_drop, hdrop]; rfl
  have hend : m.stack.drop (keys.length + 2 + sigs.length) = dummy :: rest := by
    rw [← drop_drop, hsigs, drop_left' (length_reverse ..)]
  have hlen : m.stack.length = keys.length + sigs.length + rest.length + 3 := by
    simp [hstack]; omega
  have htop : (stacktop m.stack 1 >>= (CScriptNum.getint · ctx.fRequireMinimal)) =
      .ok (keys.length : Int) := by
    rw [hstack]
    exact hvn
  obtain ⟨fSuccess, n', hrun, hiff⟩ :=
    matchSigs_spec hsig hkey code n hkeys hsigs (by simpa using hm)
  rw [Matches.reverse_iff, Matches.iff_strictMono] at hiff
  rw [length_reverse, length_reverse] at hrun
  have heval : ctx.evalCheckMultiSig false m n =
      (ofExcept (ctx.cleanUp fSuccess (keys.length + 2 + 1 + sigs.length) sigs.reverse m.stack) >>=
        fun stack => finish false fSuccess .CHECKMULTISIGVERIFY
          { m with stack := stack, nOpCount := m.nOpCount + keys.length } : Eval Machine) n' := by
    rw [evalCheckMultiSig, if_neg (by omega), htop, ok_bind, if_neg (by omega)]
    simp only [Int.toNat_natCast]
    rw [if_neg (by omega), if_neg (by omega), stacktop_of_drop hdrop]
    change (ofExcept (CScriptNum.getint vm ctx.fRequireMinimal) >>= _ : Eval Machine) n = _
    rw [hvm, ok_bind, if_neg (by omega), Int.toNat_natCast, if_neg (by omega), Nat.add_sub_cancel,
      hsigs, take_left' (length_reverse ..), hcode, ok_bind, bind_of_ok hrun]
  refine ⟨?_, ?_⟩
  · have hd : ¬(ctx.nullDummy && dummy ≠ []) := by simpa using hdummy
    rw [← hiff, heval, cleanUp, Nat.add_right_comm _ 1, Nat.add_sub_cancel, hend]
    simp only [if_neg hd]
    cases fSuccess
    case true => exact iff_of_true ⟨_, n', rfl, rfl⟩ rfl
    case false =>
    refine iff_of_false ?_ Bool.false_ne_true
    rintro ⟨m', k, hm, hs⟩
    split at hm
    · cases hm
    · cases hm
      cases hs
  refine evalCheckMultiSig_costs (fun nKeys _ hk => ?_) n
  cases htop.symm.trans hk
  simp

end

-- Signatures and keys are the same bytes. The second of two keys has signed.
def plainSig : EvalContext :=
  { checkSig := fun vchSig vchPubKey _ => vchSig = vchPubKey }

theorem evalCheckMultiSig_iff_matching_plain :
    ∃ m' n', plainSig.evalCheckMultiSig false
      { stack := [[2], [5], [4], [1], [5], []], code := [] } 0 = .ok m' n' ∧ m'.stack = [[1]] := by
  have hcode : plainSig.scriptCode [] [[5]] = .ok [] := by decide
  refine (evalCheckMultiSig_iff_matching (fun _ => rfl) (fun _ => rfl) [[4], [5]] [[5]] rfl
    (by decide) (by decide) (by decide) (by decide) (by decide) hcode (by decide)).1.mpr ?_
  exact ⟨fun _ => 1, by decide, by decide⟩

-- In a branch that is executed, a small number that has just been pushed is on top of the stack.
def Primed (lastOpcode : UInt8) (m : Machine) : Prop :=
  isSmallInteger lastOpcode → m.vfExec.all id →
    m.stack.head? = some (CScriptNum.serialize (lastOpcode.toNat - 0x50))

lemma execute_costs (h : Primed lastOpcode m)
    (hx : m.vfExec.all id ∨ OP_IF ≤ opcode ∧ opcode ≤ OP_ENDIF) :
    Costs (ctx.execute opcode rest m) (go true lastOpcode [(opcode, data)]) := by
  rw [execute]
  split
  · exact .pure _
  split
  · exact .ofExcept _
  split
  · exact .pure _
  split
  case isTrue hs =>
    simp only [go, if_pos hs]
    exact evalCheckSig_costs
  rename_i hs
  split
  case isFalse => exact .ofExcept _
  rename_i hm
  simp only [go, if_neg hs, if_pos hm, Bool.true_and, Nat.add_zero]
  refine evalCheckMultiSig_costs fun nKeys hn hk => ?_
  split
  case isFalse => omega
  rename_i hl
  have he : m.vfExec.all id := by
    refine hx.resolve_right fun hi => ?_
    simp only [Bool.or_eq_true, decide_eq_true_eq] at hm
    rcases hm with rfl | rfl <;> exact absurd hi (by decide)
  rw [stacktop, show (1 - 1) = 0 from rfl, ← head?_eq_getElem?, h hl he] at hk
  have hk : CScriptNum.getint _ _ = .ok nKeys := hk
  rw [isSmallInteger.getint_eq hl] at hk
  cases hk
  simp

lemma evalPushOrOp_costs (h : Primed lastOpcode m) :
    Costs (ctx.evalPushOrOp opcode data rest m) (go true lastOpcode [(opcode, data)]) := by
  rw [evalPushOrOp]
  split
  · split
    · exact .throw _
    · exact .pure _
  split
  case isTrue hx => exact execute_costs h (by simpa using hx)
  case isFalse => exact .pure _

lemma evalPushOrOp_primed (h : ctx.evalPushOrOp opcode data rest m n = .ok m' n') :
    Primed opcode m' := by
  intro hs hx
  have hb := isSmallInteger.bounds hs
  have h4 : ¬opcode ≤ OP_PUSHDATA4 := by
    exact Nat.not_le.mpr (lt_of_lt_of_le (by decide) hb.1)
  have hi : ¬OP_IF ≤ opcode := by
    exact Nat.not_le.mpr (lt_of_le_of_lt hb.2 (by decide))
  simp only [evalPushOrOp, h4, hi, decide_false, Bool.and_false, Bool.false_and, Bool.or_false,
    Bool.false_eq_true, if_false] at h
  split at h
  case isTrue =>
    rw [execute, if_pos (by simp [hs])] at h
    rw [← (pure_eq_ok.mp h).1]
    rfl
  case isFalse hn =>
    rw [← (pure_eq_ok.mp h).1] at hx
    exact absurd hx hn

lemma evalOp_costs (h : Primed lastOpcode m)
    (hl : ∀ m', Primed opcode m' → Costs (f m') k) :
    Costs (ctx.evalOp opcode data rest m >>= f) (go true lastOpcode [(opcode, data)] + k) := by
  have h : Primed lastOpcode (countOp opcode m) := h
  refine .bind ?_ fun m' n n' hm => hl m' ?_
  · rw [evalOp]
    generalize countOp opcode m = m at *
    cases ctx.refuses opcode data m.nOpCount
    case some => exact .throw _
    refine .bind (evalPushOrOp_costs h) fun m' _ _ _ => ?_
    split
    · exact .throw _
    · exact .pure _
  · rw [evalOp] at hm
    generalize countOp opcode m = m at *
    cases hr : ctx.refuses opcode data m.nOpCount
    case some => simp [hr] at hm; cases hm
    simp only [hr] at hm
    have ⟨m1, n1, h1, h2⟩ := bind_eq_ok.mp hm
    split at h2
    · cases h2
    · exact (pure_eq_ok.mp h2).1 ▸ evalPushOrOp_primed h1

lemma go_cons : go b lastOpcode ((opcode, data) :: l) =
    go b lastOpcode [(opcode, data)] + go b opcode l := by
  simp [go]

lemma evalLoop_costs (h : Primed lastOpcode m) :
    Costs (ctx.evalLoop fuel pc m) (go true lastOpcode (ops.go fuel pc).1) := by
  induction fuel generalizing pc m lastOpcode
  case zero =>
    cases pc
    · exact .pure _
    · exact .throw _
  case succ fuel hi =>
  cases pc
  case nil => exact .pure _
  case cons b pc =>
  simp only [evalLoop, ops.go]
  cases getScriptOp (b :: pc)
  case none => exact .throw _
  case some op =>
  exact evalOp_costs h fun m' hm => hi hm

lemma go_mono : go true lastOpcode l ≤ go false lastOpcode l := by
  induction l generalizing lastOpcode
  case nil => rfl
  case cons op l hi =>
  rw [go_cons, go_cons]
  refine Nat.add_le_add ?_ hi
  simp only [go]
  split
  · rfl
  split
  · simp only [Bool.true_and, Bool.false_and, Bool.false_eq_true, if_false]
    split
    · rename_i hs
      have hb := isSmallInteger.bounds hs
      rw [isSmallInteger.decodeOpN_eq hs, MAX_PUBKEYS_PER_MULTISIG]
      omega
    · rfl
  · rfl

-- The checker is not called more often than the operations are counted.
theorem evalScript_checks_le (ctx : EvalContext) (stack : List Bytes) (script : CScript) :
    (ctx.evalScript stack script 0).final ≤ script.getSigOpCount true ∧
      script.getSigOpCount true ≤ script.getSigOpCount false := by
  refine ⟨?_, go_mono⟩
  have hc : Costs (ctx.evalScript stack script) (script.getSigOpCount true) := by
    rw [evalScript]
    split
    · exact .throw _
    refine .bind (l := 0) (evalLoop_costs fun h => absurd h (by decide)) fun _ _ _ _ => ?_
    split
    · exact .throw _
    · exact .pure _
  simpa using hc 0

end EvalContext

end Taler
