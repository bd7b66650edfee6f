import TalerModel.Net.Headers
import TalerModel.Validation.Theorems.Earned

open Codec

namespace Taler

open ChainState AcceptContext IndexHeader CBlockHeader GetHeaders List

variable {header : CBlockHeader} {headers : List CBlockHeader} {b rest : Bytes}

section

-- The bytes that follow a header in the message are those that the reader skips.
def Skipped (header : CBlockHeader) : Prop :=
  header.isProofOfStake → header.isNewestFormat = false → header.isNewFormatBlock

instance : Decidable (Skipped header) :=
  inferInstanceAs (Decidable (_ → _ → _))

lemma isNewFormatBlock_newest (h : header.Wired) (hn : header.isNewestFormat) :
    header.isNewFormatBlock = false := by
  simp [isNewFormatBlock, h.flags hn]

lemma unserialize_wired (h : header.Wired) :
    Reads (unserialize false) (header.serialize false false) header :=
  unserialize_codes.reads h

lemma readHeaderBlock_reads (h : header.Wired) (hs : Skipped header) :
    Reads (readHeaderBlock false) (writeHeaderBlock false header) header := by
  have hz : Reads readCompactSize (writeCompactSize 0) 0 := readCompactSize_reads (by decide)
  refine (unserialize_wired h).bind (hz.bind ?_)
  cases hp : header.isProofOfStake
  case false => simpa [hp] using Reads.pure header
  cases hn : header.isNewestFormat
  case true => simpa [hp, hn, isNewFormatBlock_newest h hn] using Reads.pure header
  case false =>
  have hf := hs hp hn
  simpa [hp, hn, hf] using hz.bind (f := fun _ => pure header) (.pure header)

lemma readHeaderBlock_left (h : header.Wired) (hs : ¬Skipped header) (rest) :
    readHeaderBlock false (writeHeaderBlock false header ++ rest) = some (header, 0 :: rest) := by
  have hz : Reads readCompactSize (writeCompactSize 0) 0 := readCompactSize_reads (by decide)
  simp only [Skipped, Classical.not_imp, Bool.not_eq_true] at hs
  obtain ⟨hp, hn, hf⟩ := hs
  have hr : Reads (readHeaderBlock false)
      (header.serialize false false ++ (writeCompactSize 0 ++ [])) header := by
    refine (unserialize_wired h).bind (hz.bind ?_)
    simpa [hp, hf] using Reads.pure header
  have hw : writeHeaderBlock false header ++ rest =
      (header.serialize false false ++ (writeCompactSize 0 ++ [])) ++ (0 :: rest) := by
    have hc : writeCompactSize 0 = [0] := rfl
    simp [writeHeaderBlock, hp, hn, hc]
  rw [hw]
  exact hr (0 :: rest)

lemma writeLE_shift (h : 0 :: (writeLE 4 v ++ x) = writeLE 4 v ++ y) :
    writeLE 4 v = writeLE 4 0 := by
  simp only [writeLE, cons_append, nil_append, cons.injEq] at h ⊢
  simp_all

-- No header but one of version zero is read again one byte before its place.
lemma readHeaderBlock_shift (hv : header.nVersion ≠ 0) (x y : Bytes) :
    readHeaderBlock false (0 :: (writeHeaderBlock false header ++ x)) ≠ some (header, y) := by
  intro h
  obtain ⟨header', b, hu, h⟩ := bind_eq_some.mp h
  obtain ⟨_, b', _, h⟩ := bind_eq_some.mp h
  have he : header' = header := by
    split at h
    · obtain ⟨_, _, _, h⟩ := bind_eq_some.mp h
      exact congrArg Prod.fst (Option.some.inj h)
    · exact congrArg Prod.fst (Option.some.inj h)
  subst he
  have hb := ((unserialize_codes ..).mp hu).2
  have hz := writeLE_injective header'.nVersion.isLt (by decide) (writeLE_shift hb)
  exact hv (BitVec.eq_of_toNat_eq hz)

-- Read back just if what the reader skips follows every header. Otherwise it is a byte behind.
lemma readMany_headers_iff (h : ∀ header ∈ headers, header.Wired ∧ header.nVersion ≠ 0) :
    readMany (readHeaderBlock false) headers.length (headers.flatMap (writeHeaderBlock false)) =
      some (headers, []) ↔ ∀ header ∈ headers, Skipped header := by
  induction headers
  case nil => simp [readMany, pure_apply]
  case cons header headers hi =>
  have ⟨hw, _⟩ := h header (mem_cons_self ..)
  have htail := fun header hm => h header (mem_cons_of_mem _ hm)
  by_cases hs : Skipped header
  · have hr := readHeaderBlock_reads hw hs
    simp only [length_cons, readMany, flatMap_cons, bind_apply, hr _, Option.bind_some,
      forall_mem_cons, hs, true_and, ← hi htail]
    constructor
    · intro h
      obtain ⟨⟨as, b⟩, hb, h⟩ := Option.bind_eq_some_iff.mp h
      simp only [pure_apply, Option.some.injEq, Prod.mk.injEq, cons.injEq, true_and] at h
      rw [hb, h.1, h.2]
    intro h
    simp [h, pure_apply]
  simp only [length_cons, readMany, flatMap_cons, bind_apply,
    readHeaderBlock_left hw hs, Option.bind_some, forall_mem_cons, hs, false_and, iff_false]
  intro h
  obtain ⟨⟨as, b⟩, hb, h⟩ := Option.bind_eq_some_iff.mp h
  obtain ⟨rfl, rfl⟩ := h
  cases as
  case nil => simp [readMany, pure_apply] at hb
  case cons header' as =>
  obtain ⟨header'', b', hr, hb⟩ := bind_eq_some.mp hb
  obtain ⟨as', b'', _, hb⟩ := bind_eq_some.mp hb
  obtain ⟨⟨rfl, _⟩, _⟩ := hb
  exact readHeaderBlock_shift (htail _ (mem_cons_self ..)).2 _ _ hr

lemma readHeaders_writeHeaders_iff (hl : headers.length ≤ MAX_HEADERS_RESULTS)
    (h : ∀ header ∈ headers, header.Wired ∧ header.nVersion ≠ 0) :
    readHeaders false (writeHeaders false headers) = some (headers, []) ↔
      ∀ header ∈ headers, Skipped header := by
  have hm : headers.length ≤ MAX_SIZE := hl.trans (by decide)
  rw [← readMany_headers_iff h, readHeaders, writeHeaders, bind_apply, readCompactSize_reads hm,
    Option.bind_some, if_neg (Nat.not_lt.mpr hl)]

end

namespace CBlockIndex

def isNewestFormat (pindex : CBlockIndex) : Bool :=
  (pindex.head?.map fun b => decide (b.nVersion &&& 0xFF010000 = 0x00010000)).getD false

end CBlockIndex

variable [Crypto] {params : Params} {s s1 s2 : NodeChain} {p pindex : CBlockIndex}
variable {genesis : CBlockHeader} {root : IndexHeader} {request : GetHeaders} {hash : Uint256}
variable {entries : List CBlockIndex}

omit [Crypto] in
lemma flagWord_bits (fProofOfStake newFormat : Bool) :
    let word := (if fProofOfStake then BLOCK_PROOF_OF_STAKE else 0) |||
      if newFormat then BLOCK_NEW_FORMAT else 0
    (word &&& BLOCK_PROOF_OF_STAKE ≠ 0 : Bool) = fProofOfStake ∧
      (word &&& BLOCK_NEW_FORMAT ≠ 0 : Bool) = newFormat := by
  cases fProofOfStake <;> cases newFormat <;> decide

lemma getBlockHeader_wired (hw : header.Wired) (he : EntryOf s p header) :
    (s.getBlockHeader p).Wired ∧ (s.getBlockHeader p).nVersion = header.nVersion ∧
      (Skipped (s.getBlockHeader p) ↔
        (p.isProofOfStake → p.isNewestFormat = false → (s.entry p).newFormat)) := by
  obtain ⟨hh, hp, hn⟩ := he
  cases p
  case nil => nomatch hh
  case cons b pprev =>
  obtain rfl : b = ofHeader header := Option.some.inj hh
  have hprev : (s.getBlockHeader (ofHeader header :: pprev)).hashPrevBlock =
      header.hashPrevBlock := hp
  have hfits : (s.getBlockHeader (ofHeader header :: pprev)).Fits :=
    ⟨hprev ▸ hw.fits.hashPrevBlock, hw.fits.hashMerkleRoot, hw.fits.nTime, hw.fits.nBits,
      hw.fits.nNonce⟩
  have hnewest : (s.getBlockHeader (ofHeader header :: pprev)).isNewestFormat =
      header.isNewestFormat := rfl
  have hb : (s.getBlockHeader (ofHeader header :: pprev)).nFlags =
      (if header.isProofOfStake && !header.isNewestFormat then BLOCK_PROOF_OF_STAKE else 0) |||
        if (s.entry (ofHeader header :: pprev)).newFormat then BLOCK_NEW_FORMAT
        else 0 := rfl
  have ⟨hstake, hformat⟩ := flagWord_bits (header.isProofOfStake && !header.isNewestFormat)
    (s.entry (ofHeader header :: pprev)).newFormat
  have hformat : (s.getBlockHeader (ofHeader header :: pprev)).isNewFormatBlock =
      (s.entry (ofHeader header :: pprev)).newFormat := hformat
  refine ⟨⟨hfits, fun hf => ?_⟩, rfl, ?_⟩
  · rw [hnewest] at hf
    have hz := isNewFormatBlock_newest hw hf
    rw [hb, hn, hz, hf]
    simp
  have hpos : (s.getBlockHeader (ofHeader header :: pprev)).isNewestFormat = false →
      (s.getBlockHeader (ofHeader header :: pprev)).isProofOfStake = header.isProofOfStake := by
    intro hf
    rw [isProofOfStake, hf, hb]
    rw [hnewest] at hf
    simpa [hf] using hstake
  rw [Skipped, hformat]
  constructor
  · intro h hs hf
    exact h ((hpos hf).trans hs) hf
  intro h hs hf
  exact h ((hpos hf).symm.trans hs) hf

section

section

omit [Crypto]

lemma next_mem (hs : Standing root s) (hn : s.next p ≠ []) : s.next p ∈ s.blocks := by
  rw [NodeChain.next] at hn ⊢
  split
  case isTrue hc => simp [hc] at hn
  case isFalse hc =>
  rw [if_neg hc] at hn
  exact hs.toTree.suffix_mem hs.tip_mem (getAncestor_isSuffix _ _) hn

lemma collect_mem (hs : Standing root s) (hash nLimit) (hp : pindex ≠ [] → pindex ∈ s.blocks) :
    (∀ p ∈ collect s hash nLimit pindex, p ∈ s.blocks) ∧
      (collect s hash nLimit pindex).length ≤ nLimit := by
  induction nLimit generalizing pindex
  case zero => simp [collect]
  case succ nLimit hi =>
  rw [collect]
  split
  · simp
  rename_i hn
  split
  · simpa using hp hn
  have ⟨hm, hl⟩ := hi (next_mem hs (p := pindex))
  simp only [forall_mem_cons, length_cons]
  exact ⟨⟨hp hn, hm⟩, by omega⟩

lemma answer_mem (hs : Standing root s) (h : request.answer params s fIgnored = some entries) :
    (∀ p ∈ entries, p ∈ s.blocks) ∧ entries.length ≤ MAX_HEADERS_RESULTS := by
  rw [answer] at h
  split at h
  · nomatch h
  split at h
  · simp only at h
    split at h
    · nomatch h
    obtain rfl := Option.some.inj h
    exact collect_mem hs _ _ fun hn => (NodeChain.lookupBlockIndex_mem hn).1
  case isFalse =>
  obtain rfl := Option.some.inj h
  exact collect_mem hs _ _ (next_mem hs)

end

-- Between peers that are not legacy ones, the answer to a request is read back as it was sent, with
-- nothing left, if and only if the entry of every proof-of-stake block in it has the format bit.
theorem readHeaders_headersMessage_iff {nTx sendVersion recvVersion : Nat} {fIgnored : Bool}
    (hg : GenesisHeader CBlockHeader.Wired genesis) (hx : nTx ≠ 0)
    (h : NodeSteps params CBlockHeader.Wired (init blockProof (.ofHeader genesis) nTx) s)
    (ha : request.answer params s fIgnored = some entries)
    (hsend : TLR_HARD_FORK_VERSION ≤ sendVersion) (hrecv : TLR_HARD_FORK_VERSION ≤ recvVersion) :
    readHeaders (isLegacyBlockHeader recvVersion) (headersMessage s sendVersion entries) =
        some (entries.map s.getBlockHeader, []) ↔
      ∀ p ∈ entries, p.isProofOfStake → p.isNewestFormat = false → (s.entry p).newFormat := by
  have hinit : Indexed (.ofHeader genesis) (init blockProof (.ofHeader genesis) nTx) :=
    init_indexed hx
  have hs := NodeSteps.indexed h hinit
  have hw := NodeSteps.arrivedIndex h hinit (init_arrivedIndex hg nTx)
  have ⟨hm, hl⟩ := answer_mem hs.toStanding ha
  have hlegacy {version : Nat} (hv : TLR_HARD_FORK_VERSION ≤ version) :
      isLegacyBlockHeader version = false := by
    simpa [isLegacyBlockHeader] using hv
  rw [headersMessage, hlegacy hsend, hlegacy hrecv, readHeaders_writeHeaders_iff]
  · simp only [forall_mem_map]
    refine forall₂_congr fun p hp => ?_
    have ⟨header, hwired, _, he⟩ := hw p (hm p hp)
    exact (getBlockHeader_wired hwired he).2.2
  · simpa using hl
  simp only [forall_mem_map]
  intro p hp
  have ⟨header, hwired, hv, he⟩ := hw p (hm p hp)
  have ⟨hwired, hversion, _⟩ := getBlockHeader_wired hwired he
  exact ⟨hwired, hversion ▸ hv⟩

end

end Taler

namespace Taler

open ChainState AcceptContext

section

-- The proof-of-stake header comes without the format bit, and then the blocks, the last with it.

local instance instCryptoServed : Crypto :=
  greatKernels

def servedMessages : List Message :=
  .headers testContext stakedHeaders :: stakedBlocks.map (.block testContext · true 2)

def tipRequest : GetHeaders where
  locator := (stakedHeaders.map CBlockHeader.getHash).reverse.tail.take 1
  hashStop := 0

lemma servedMessages_received :
    ∃ s, receiveAll servedMessages testStart = some s ∧ s.tip.length = 21 ∧
      (∀ p ∈ s.tip.tails, p = [] ∨ (s.entry p).haveData) ∧
      ∃ entries, tipRequest.answer Params.testNet s false = some entries ∧
        readHeaders (isLegacyBlockHeader TLR_HARD_FORK_VERSION)
            (headersMessage s TLR_HARD_FORK_VERSION entries) =
          some (entries.map s.getBlockHeader, [0]) := by
  decide +kernel

lemma servedMessages_params : ∀ m ∈ servedMessages, m.context.params = Params.testNet := by
  simp [servedMessages, Message.context, testContext]

-- All blocks of the active chain were accepted, and yet a byte of the message is left.
theorem readHeaders_leaves_byte :
    ∃ (s : NodeChain) (entries : List CBlockIndex), Received Params.testNet testGenesis s ∧
      (∀ p ∈ s.tip.tails, p = [] ∨ (s.entry p).haveData) ∧
      tipRequest.answer Params.testNet s false = some entries ∧
      readHeaders (isLegacyBlockHeader TLR_HARD_FORK_VERSION)
          (headersMessage s TLR_HARD_FORK_VERSION entries) ≠
        some (entries.map s.getBlockHeader, []) := by
  have ⟨s, hr, _, hd, entries, he, hb⟩ := servedMessages_received
  refine ⟨s, entries, testStart_received.receiveAll servedMessages_params hr, hd, he, ?_⟩
  rw [hb]
  simp

def workRequest : GetHeaders where
  locator := [testGenesis.getHash]
  hashStop := ((stakedHeaders.map CBlockHeader.getHash).reverse.getD 1 0)

theorem readHeaders_headersMessage_iff_work :
    ∃ (s : NodeChain) (entries : List CBlockIndex), entries.length = 19 ∧
      (readHeaders (isLegacyBlockHeader TLR_HARD_FORK_VERSION)
          (headersMessage s TLR_HARD_FORK_VERSION entries) = some (entries.map s.getBlockHeader, []) ↔
        ∀ p ∈ entries, p.isProofOfStake → p.isNewestFormat = false → (s.entry p).newFormat) := by
  have ⟨s, hr, entries, he, hl⟩ : ∃ s, receiveAll servedMessages testStart = some s ∧
      ∃ entries, workRequest.answer Params.testNet s false = some entries ∧ entries.length = 19 := by
    decide +kernel
  have hwired : ∀ m ∈ servedMessages, ∀ header ∈ m.blockHeaders, header.Fits ∧
      (header.isNewestFormat → header.nFlags = 0) := by
    decide +kernel
  have hgenesis : testGenesis.Fits := by decide
  have hsteps := receiveAll_steps (init_indexed (by decide)) rfl servedMessages_params
    (fun m hm header hh => CBlockHeader.Wired.mk (hwired m hm header hh).1 (hwired m hm header hh).2)
    hr
  refine ⟨s, entries, hl, ?_⟩
  exact readHeaders_headersMessage_iff ⟨⟨hgenesis, fun _ => rfl⟩, by decide, rfl, rfl⟩ (by decide)
    hsteps he le_rfl le_rfl

end

end Taler
