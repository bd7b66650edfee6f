import Mathlib
import TalerModel.Script.SignatureHash

namespace Taler

open Codec List

namespace CScript

lemma operandSize_suffix (h : operandSize opcode pc = some (nSize, rest)) : rest <:+ pc := by
  simp only [operandSize] at h
  grind [suffix_cons, suffix_cons_iff]

lemma getScriptOp_suffix (h : getScriptOp pc = some (opcode, data, rest)) :
    ∃ bytes, pc = opcode :: (bytes ++ rest) ∧ (opcode = OP_CODESEPARATOR → bytes = []) := by
  cases pc
  case nil => nomatch h
  case cons first pc =>
  simp only [getScriptOp] at h
  split at h
  case isTrue hle =>
    cases ho : operandSize first pc
    case none => simp [ho] at h
    rename_i r
    have ⟨bytes, hb⟩ := (drop_suffix r.1 r.2).trans (operandSize_suffix ho)
    simp only [ho, Option.ite_none_left_eq_some, Option.some.injEq, Prod.mk.injEq] at h
    have ⟨_, rfl, _, hr⟩ := h
    refine ⟨bytes, by rw [← hr, hb], fun he => ?_⟩
    rw [he] at hle
    exact absurd hle (by decide)
  cases h
  exact ⟨[], rfl, fun _ => rfl⟩

inductive Parsed : List UInt8 → List (UInt8 × List UInt8) → Prop
  | nil : Parsed [] []
  | cons (read : getScriptOp (opcode :: (bytes ++ rest)) = some (opcode, data, rest))
    (separator : opcode = OP_CODESEPARATOR → bytes = []) (tail : Parsed rest items) :
    Parsed (opcode :: (bytes ++ rest)) ((opcode, bytes) :: items)

lemma parsed_of_ops (h : (ops.go fuel pc).2) :
    ∃ items, Parsed pc items ∧ (ops.go fuel pc).1.map Prod.fst = items.map Prod.fst := by
  induction fuel generalizing pc
  case zero =>
    cases pc
    case nil => exact ⟨[], .nil, rfl⟩
    case cons => nomatch h
  case succ fuel hi =>
  cases pc
  case nil => exact ⟨[], .nil, rfl⟩
  case cons first pc =>
  cases hr : getScriptOp (first :: pc)
  case none => simp [ops.go, hr] at h
  have ⟨bytes, he, hs⟩ := getScriptOp_suffix hr
  simp only [ops.go, hr] at h ⊢
  have ⟨items, hp, hm⟩ := hi h
  rw [he] at hr ⊢
  exact ⟨_, .cons hr hs hp, by rw [map_cons, hm, map_cons]⟩

def kept (items : List (UInt8 × List UInt8)) : Bytes :=
  items.flatMap fun item => if item.1 = OP_CODESEPARATOR then [] else item.1 :: item.2

def separators (items : List (UInt8 × List UInt8)) : Nat :=
  (items.map Prod.fst).count OP_CODESEPARATOR

lemma Parsed.length (h : Parsed pc items) :
    pc.length = (kept items).length + separators items := by
  induction h
  case nil => rfl
  case cons hs _ hi => grind [kept, separators]

lemma Parsed.kept_eq (h : Parsed pc items) (hs : separators items = 0) : kept items = pc := by
  induction h
  case nil => rfl
  case cons hi => grind [kept, separators]

lemma Parsed.pieces (h : Parsed it items) (hf : it.length < fuel) :
    CTransactionSignatureSerializer.pieces fuel (pending ++ it) it = pending ++ kept items := by
  induction h generalizing fuel pending <;> obtain _ | fuel := fuel
  case nil.succ => simp [CTransactionSignatureSerializer.pieces, kept, getScriptOp, afterFailure]
  case cons.succ opcode bytes rest data items hr hs _ hi =>
    have hf : rest.length < fuel := by grind
    simp only [CTransactionSignatureSerializer.pieces, hr, kept, flatMap_cons]
    split
    case isTrue he =>
      have hnext := @hi fuel [] hf
      rw [nil_append] at hnext
      have hlen : (pending ++ opcode :: rest).length - rest.length - 1 = pending.length := by grind
      rw [hnext, hs he, nil_append, nil_append, hlen, take_left]
      rfl
    have hnext := @hi fuel (pending ++ opcode :: bytes) hf
    rw [append_assoc, append_assoc] at hnext
    exact hnext
  all_goals cases hf

lemma Parsed.findAndDelete_go (h : Parsed pc items) (hf : pc.length ≤ fuel) :
    findAndDelete.go [OP_CODESEPARATOR] fuel pc = (kept items, separators items) := by
  induction h generalizing fuel <;> obtain _ | fuel := fuel
  case nil.zero => rfl
  case nil.succ => rfl
  case cons.zero => nomatch hf
  case cons.succ opcode bytes rest data items hr hs _ hi =>
  have hnext := @hi fuel (by grind)
  by_cases he : opcode = OP_CODESEPARATOR
  · rw [findAndDelete.go, if_pos (by simp [he])]
    simp [hs he, hnext, he, kept, separators]
  have hlen : (opcode :: (bytes ++ rest)).length - rest.length = (opcode :: bytes).length := by
    grind
  have htake : (opcode :: (bytes ++ rest)).take (opcode :: bytes).length = opcode :: bytes :=
    take_left
  rw [findAndDelete.go, if_neg (by simp [Ne.symm he])]
  simp only [hr, hlen, htake, hnext]
  simp [he, kept, separators]

lemma serializeScriptCode_eq {s : CTransactionSignatureSerializer} (h : s.scriptCode.ops.2) :
    s.serializeScriptCode = (s.scriptCode.findAndDelete [OP_CODESEPARATOR]).1.serialize := by
  have ⟨items, hp, hm⟩ := parsed_of_ops h
  have hfind : (s.scriptCode.findAndDelete [OP_CODESEPARATOR]).1 = kept items := by
    rw [findAndDelete, if_neg (cons_ne_nil _ _), hp.findAndDelete_go le_rfl]
    by_cases hs : separators items = 0
    · simp [hs, hp.kept_eq hs]
    · simp [Nat.pos_of_ne_zero hs]
  have hcount : s.scriptCode.ops.1.countP (·.1 = OP_CODESEPARATOR) = separators items := by
    rw [separators, ← hm, count_eq_countP, countP_map]
    congr 1
  have hpieces := @Parsed.pieces _ _ _ [] hp (Nat.lt_succ_self _)
  simp only [nil_append] at hpieces
  have hlen : s.scriptCode.length - separators items = (kept items).length := by
    rw [hp.length, Nat.add_sub_cancel]
  simp only [CTransactionSignatureSerializer.serializeScriptCode, hcount, hlen, hfind]
  rw [serialize, ← hpieces]

end CScript

section

open CTransactionSignatureSerializer

lemma serializeVector_eq {l : List α} (hn : l.length = n)
    (h : ∀ i (hi : i < l.length), f i = write l[i]) :
    writeCompactSize n ++ (range n).flatMap f = serializeVector write l := by
  rw [serializeVector, ← hn, flatMap_def, flatMap_def]
  congr 2
  exact ext_getElem (by simp) fun i _ hi => by simp [h i (by simpa using hi)]

variable {s : CTransactionSignatureSerializer} {sha256d : Bytes → Uint256} {scriptCode : CScript}
  {txTo : CTransaction} {nIn : Nat} {nHashType : BitVec 32}

-- The inputs of the copy, before others are dropped for `SIGHASH_ANYONECANPAY`, and its outputs.

def signedInputs (s : CTransactionSignatureSerializer) : List CTxIn :=
  s.txTo.vin.mapIdx fun i txin =>
    { txin with
      scriptSig := if i = s.nIn then (s.scriptCode.findAndDelete [OP_CODESEPARATOR]).1 else []
      nSequence := if i ≠ s.nIn && (s.fHashSingle || s.fHashNone) then 0 else txin.nSequence }

def signedOutputs (s : CTransactionSignatureSerializer) : List CTxOut :=
  if s.fHashNone then [] else
  if s.fHashSingle then
    (s.txTo.vout.take (s.nIn + 1)).mapIdx fun i out => if i < s.nIn then CTxOut.null else out
  else s.txTo.vout

lemma serializeInputs_eq (h : s.scriptCode.ops.2) (hn : s.nIn < s.txTo.vin.length) :
    let nInputs := if s.fAnyoneCanPay then 1 else s.txTo.vin.length
    writeCompactSize nInputs ++ (range nInputs).flatMap s.serializeInput =
      serializeVector CTxIn.serialize
        (if s.fAnyoneCanPay then ((signedInputs s).drop s.nIn).take 1 else signedInputs s) := by
  refine serializeVector_eq ?_ fun i hi => ?_
  · grind [signedInputs]
  simp only [serializeInput, CScript.serializeScriptCode_eq h]
  grind [CTxIn.serialize, signedInputs]

lemma serializeOutputs_eq (hs : s.fHashSingle → s.nIn < s.txTo.vout.length) :
    let nOutputs := if s.fHashNone then 0 else if s.fHashSingle then s.nIn + 1
      else s.txTo.vout.length
    writeCompactSize nOutputs ++ (range nOutputs).flatMap s.serializeOutput =
      serializeVector CTxOut.serialize (signedOutputs s) := by
  refine serializeVector_eq ?_ fun i hi => ?_
  · grind [signedOutputs]
  · grind [serializeOutput, signedOutputs]

lemma modifiedCopy_eq (hs : nHashType &&& 0x1f = SIGHASH_SINGLE → nIn < txTo.vout.length) :
    let s := ofHashType txTo scriptCode nIn nHashType
    modifiedCopy scriptCode txTo nIn nHashType = some { txTo with
      vin := if s.fAnyoneCanPay then ((signedInputs s).drop nIn).take 1 else signedInputs s
      vout := signedOutputs s } := by
  intro s
  have hvin : signedInputs s =
      let vin := (txTo.vin.map fun txin => { txin with scriptSig := [] }).modify nIn fun txin =>
        { txin with scriptSig := (scriptCode.findAndDelete [OP_CODESEPARATOR]).1 }
      if s.fHashSingle || s.fHashNone then updatable nIn vin else vin := by
    refine ext_getElem ?_ fun i h1 h2 => ?_
    · grind [signedInputs, updatable, ofHashType]
    · grind [signedInputs, updatable, ofHashType]
  grind [modifiedCopy, signedOutputs, ofHashType]

-- The assertion is what is left: the copy would be signed as `1` there.
theorem signatureHash_eq (h : scriptCode.ops.2) :
    signatureHash sha256d scriptCode txTo nIn nHashType =
      if nIn < txTo.vin.length then some (signatureHashOld sha256d scriptCode txTo nIn nHashType)
      else none := by
  by_cases hn : nIn < txTo.vin.length
  case neg => simp [signatureHash, hn]
  rw [signatureHash, signatureHashOld, if_pos hn, if_pos hn,
    if_neg (show ¬nIn ≥ _ from not_le.mpr hn)]
  by_cases hs : nHashType &&& 0x1f = SIGHASH_SINGLE → nIn < txTo.vout.length
  · have hin := @serializeInputs_eq (ofHashType txTo scriptCode nIn nHashType) h hn
    have hout := @serializeOutputs_eq (ofHashType txTo scriptCode nIn nHashType) fun hh =>
      hs (of_decide_eq_true hh)
    rw [modifiedCopy_eq hs, if_neg (by grind)]
    dsimp only at hin hout ⊢
    rw [CTransactionSignatureSerializer.serialize, hin, hout]
    rfl
  have hcopy : modifiedCopy scriptCode txTo nIn nHashType = none := by
    grind [modifiedCopy, SIGHASH_SINGLE, SIGHASH_NONE]
  rw [hcopy, if_pos (by grind)]

def spendsFirst (inputs : Nat) : CTransaction where
  vin := replicate inputs { prevout := { hash := 1, n := 0 }, scriptSig := [OP_1] }
  vout := [{ nValue := 5, scriptPubKey := [OP_1] }]
  hash := 2
  witnessHash := 2

theorem signatureHash_eq_single : let scriptCode := [OP_1, OP_CODESEPARATOR, OP_CHECKSIG]
    signatureHash length scriptCode (spendsFirst 2) 0 SIGHASH_SINGLE =
      some (signatureHashOld length scriptCode (spendsFirst 2) 0 SIGHASH_SINGLE) :=
  (signatureHash_eq (by decide)).trans (if_pos (by decide))

theorem signatureHash_no_input :
    signatureHash length [] (spendsFirst 0) 0 1 = none ∧
    signatureHashOld length [] (spendsFirst 0) 0 1 = 1 := by
  decide

end

end Taler
