import TalerModel.Library.Codec
import TalerModel.Primitives.Block

open Codec

namespace Taler

def MAX_SIZE : Nat := 0x02000000

def writeCompactSize (nSize : Nat) : Bytes :=
  if nSize < 253 then [UInt8.ofNat nSize]
  else if nSize ≤ 0xFFFF then 253 :: writeLE 2 nSize
  else if nSize ≤ 0xFFFFFFFF then 254 :: writeLE 4 nSize
  else 255 :: writeLE 8 nSize

def readLongSize (k least : Nat) : Reader Nat := do
  let nSizeRet ← readLE k
  if nSizeRet < least then failure else pure nSizeRet

def readCompactSize : Reader Nat := do
  let chSize ← readByte
  let nSizeRet ←
    if chSize < 253 then pure chSize.toNat
    else if chSize = 253 then readLongSize 2 253
    else if chSize = 254 then readLongSize 4 0x10000
    else readLongSize 8 0x100000000
  if nSizeRet > MAX_SIZE then failure else pure nSizeRet

-- Seven bits a byte, highest first. `more` marks the bytes that another one follows. A byte that is
-- followed stands for one more than its bits say, so that every number has one form only.
def writeVarIntFrom (n : Nat) (more : Bool) : Bytes :=
  let byte := UInt8.ofNat (n % 128 + if more then 128 else 0)
  if n ≤ 0x7F then [byte] else writeVarIntFrom (n / 128 - 1) true ++ [byte]
termination_by n

def writeVarInt (n : Nat) : Bytes :=
  writeVarIntFrom n false

def getSizeOfVarInt (n : Nat) : Nat :=
  if n ≤ 0x7F then 1 else getSizeOfVarInt (n / 128 - 1) + 1
termination_by n

def readVarIntFrom (max n : Nat) : Reader Nat
  | [] => none
  | chData :: bytes =>
    if n > max / 128 then none else
    let n := n * 128 + chData.toNat % 128
    if chData.toNat ≥ 128 then if n = max then none else readVarIntFrom max (n + 1) bytes
    else some (n, bytes)

def readVarInt (max : Nat) : Reader Nat :=
  readVarIntFrom max 0

lemma readCompactSize_codes : Codes readCompactSize writeCompactSize (· ≤ MAX_SIZE) := by
  have hlong {k least} :=
    (readLE_codes (k := k)).check (p := (· < least)) |>.check (p := (· > MAX_SIZE))
  have hshort (ch : UInt8) :=
    (Codes.pure (c := ch.toNat) fun _ => .rfl).check (p := (· > MAX_SIZE))
  have hm : MAX_SIZE = 0x02000000 := rfl
  intro b n rest
  rw [readCompactSize, readByte_codes.bind_eq_some]
  constructor
  · rintro ⟨ch, b, -, rfl, h⟩
    rw [writeCompactSize]
    split at h
    case isTrue hc =>
      obtain ⟨⟨rfl, hn⟩, rfl⟩ := (hshort ..).mp h
      rw [if_pos (by simpa [UInt8.lt_iff_toNat_lt] using hc), UInt8.ofNat_toNat]
      exact ⟨by omega, rfl⟩
    split at h
    case isTrue hc =>
      obtain ⟨⟨⟨hu, hl⟩, hn⟩, rfl⟩ := (hlong ..).mp h
      rw [if_neg hl, if_pos (by omega), hc]
      exact ⟨by omega, rfl⟩
    split at h
    case isTrue hc =>
      obtain ⟨⟨⟨hu, hl⟩, hn⟩, rfl⟩ := (hlong ..).mp h
      rw [if_neg (by omega), if_neg (by omega), if_pos (by omega), hc]
      exact ⟨by omega, rfl⟩
    obtain ⟨⟨⟨-, hl⟩, hn⟩, -⟩ := (hlong ..).mp h
    omega
  rintro ⟨h, rfl⟩
  rw [writeCompactSize]
  split
  case isTrue hs =>
    have hb : (UInt8.ofNat n).toNat = n := by
      rw [UInt8.toNat_ofNat']
      omega
    refine ⟨_, rest, trivial, rfl, ?_⟩
    rw [if_pos (by rwa [UInt8.lt_iff_toNat_lt, hb])]
    exact (hshort ..).mpr ⟨⟨hb, by omega⟩, rfl⟩
  split
  · exact ⟨253, _, trivial, rfl, (hlong ..).mpr ⟨⟨⟨by omega, by omega⟩, by omega⟩, rfl⟩⟩
  rw [if_pos (by omega)]
  exact ⟨254, _, trivial, rfl, (hlong ..).mpr ⟨⟨⟨by omega, by omega⟩, by omega⟩, rfl⟩⟩

lemma readCompactSize_reads (h : n ≤ MAX_SIZE) : Reads readCompactSize (writeCompactSize n) n :=
  readCompactSize_codes.reads h

lemma readVarIntFrom_byte {n b max : Nat} (hb : b < 128) (hn : n ≤ max / 128)
    (rest : Bytes) (more : Bool) :
    readVarIntFrom max n (UInt8.ofNat (b + if more then 128 else 0) :: rest) =
      if more then if n * 128 + b = max then none else readVarIntFrom max (n * 128 + b + 1) rest
      else some (n * 128 + b, rest) := by
  have ht : (UInt8.ofNat (b + if more then 128 else 0)).toNat = b + if more then 128 else 0 := by
    rw [UInt8.toNat_ofNat']
    split <;> omega
  simp only [readVarIntFrom, ht, if_neg (Nat.not_lt.mpr hn)]
  cases more
  case false => simp [Nat.mod_eq_of_lt hb, hb]
  case true => simp [Nat.mod_eq_of_lt hb]

-- What has been written when the reader holds `n`.
def writtenVarInt (n : Nat) : Bytes :=
  if n = 0 then [] else writeVarIntFrom (n - 1) true

lemma writeVarIntFrom_digit (hd : d < 128) : writeVarIntFrom (n * 128 + d) more =
    writtenVarInt n ++ [UInt8.ofNat (d + if more then 128 else 0)] := by
  rw [writeVarIntFrom, writtenVarInt, (by omega : (n * 128 + d) % 128 = d),
    (by omega : (n * 128 + d) / 128 = n)]
  by_cases hn : n = 0
  · rw [if_pos (by omega), if_pos hn, List.nil_append]
  · rw [if_neg (by omega), if_neg hn]

lemma readVarIntFrom_written {max : Nat} (h : n ≤ max) (b : Bytes) :
    readVarIntFrom max 0 (writtenVarInt n ++ b) = readVarIntFrom max n b := by
  induction n using Nat.strong_induction_on generalizing b
  case h n hi =>
  by_cases hn : n = 0
  · rw [hn]
    rfl
  obtain ⟨m, d, hd, rfl⟩ : ∃ m d, d < 128 ∧ n = m * 128 + d + 1 :=
    ⟨(n - 1) / 128, (n - 1) % 128, by omega, by omega⟩
  rw [writtenVarInt, if_neg hn, Nat.add_sub_cancel, writeVarIntFrom_digit hd, List.append_assoc,
    hi m (by omega) (by omega), List.singleton_append, readVarIntFrom_byte hd (by omega), if_pos rfl,
    if_neg (by omega)]

lemma readVarInt_reads {n max : Nat} (h : n ≤ max) : Reads (readVarInt max) (writeVarInt n) n := by
  intro rest
  obtain ⟨m, d, hd, rfl⟩ : ∃ m d, d < 128 ∧ n = m * 128 + d :=
    ⟨n / 128, n % 128, by omega, by omega⟩
  rw [readVarInt, writeVarInt, writeVarIntFrom_digit hd, List.append_assoc,
    readVarIntFrom_written (by omega), List.singleton_append, readVarIntFrom_byte hd (by omega),
    if_neg (by simp)]

lemma readVarIntFrom_exact {max : Nat} (hm : max % 128 = 127)
    (h : readVarIntFrom max n b = some (m, rest)) :
    m ≤ max ∧ writtenVarInt n ++ b = writeVarInt m ++ rest := by
  induction b generalizing n
  case nil => cases h
  case cons ch b hi =>
  have hd : ch.toNat % 128 < 128 := Nat.mod_lt _ (by decide)
  have := ch.toNat_lt
  rw [readVarIntFrom] at h
  split at h
  · cases h
  split at h
  case isFalse hc =>
    cases h
    have hb : UInt8.ofNat (ch.toNat % 128 + 0) = ch := by
      rw [Nat.add_zero, Nat.mod_eq_of_lt (by omega), UInt8.ofNat_toNat]
    refine ⟨by omega, ?_⟩
    rw [writeVarInt, writeVarIntFrom_digit hd, if_neg Bool.false_ne_true, hb, List.append_assoc]
    rfl
  case isTrue hc =>
  dsimp only at h
  split at h
  · cases h
  obtain ⟨hle, he⟩ := hi h
  have hb : UInt8.ofNat (ch.toNat % 128 + 128) = ch := by
    rw [(by omega : ch.toNat % 128 + 128 = ch.toNat), UInt8.ofNat_toNat]
  rw [writtenVarInt, if_neg (by omega), Nat.add_sub_cancel, writeVarIntFrom_digit hd, if_pos rfl, hb,
    List.append_assoc] at he
  exact ⟨hle, he⟩

lemma readVarInt_codes {max : Nat} (hm : max % 128 = 127) :
    Codes (readVarInt max) writeVarInt (· ≤ max) := by
  intro b n rest
  constructor
  · exact readVarIntFrom_exact hm
  rintro ⟨hn, rfl⟩
  exact readVarInt_reads hn rest

lemma writeVarIntFrom_length (n more) : (writeVarIntFrom n more).length = getSizeOfVarInt n := by
  induction n using Nat.strong_induction_on generalizing more
  case h n hi =>
  rw [writeVarIntFrom, getSizeOfVarInt]
  split
  · rfl
  · simp [hi (n / 128 - 1) (by omega)]

lemma writeCompactSize_length : (writeCompactSize n).length = getSizeOfCompactSize n := by
  rw [writeCompactSize, getSizeOfCompactSize]
  split_ifs <;> simp

-- The types have at least seven bits.
theorem integers_encode_uniquely (k : Nat) :
    (Codes (readVarInt (2 ^ (k + 7) - 1)) writeVarInt (· < 2 ^ (k + 7)) ∧
      ∀ n < 2 ^ (k + 7), (writeVarInt n).length = getSizeOfVarInt n ∧
        ∀ m < 2 ^ (k + 7), writeVarInt n <+: writeVarInt m → n = m) ∧
    Codes readCompactSize writeCompactSize (· ≤ MAX_SIZE) ∧
      ∀ n ≤ MAX_SIZE, (writeCompactSize n).length = getSizeOfCompactSize n ∧
        ∀ m ≤ MAX_SIZE, writeCompactSize n <+: writeCompactSize m → n = m := by
  have hp : 2 ^ (k + 7) = 2 ^ k * 128 := Nat.pow_add ..
  have hk := Nat.two_pow_pos k
  have hv : Codes (readVarInt (2 ^ (k + 7) - 1)) writeVarInt (· < 2 ^ (k + 7)) :=
    (readVarInt_codes (by omega)).congr (fun _ _ => rfl) fun n => by omega
  have hc := readCompactSize_codes
  exact ⟨⟨hv, fun n hn => ⟨writeVarIntFrom_length n false, fun m hm => hv.eq_of_prefix hn hm⟩⟩,
    hc, fun n hn => ⟨writeCompactSize_length, fun m hm => hc.eq_of_prefix hn hm⟩⟩

namespace CBlockHeader

variable (header : CBlockHeader)

def serializeFields : Bytes :=
  writeLE 4 header.nVersion.toNat ++ (writeLE 32 header.hashPrevBlock ++
    (writeLE 32 header.hashMerkleRoot ++ (writeLE 4 header.nTime ++
      (writeLE 4 header.nBits ++ writeLE 4 header.nNonce))))

def serialize (getHash legacy : Bool) : Bytes :=
  header.serializeFields ++
    if header.isNewestFormat then []
    else if !legacy then writeLE 4 header.nFlags.toNat
    else if getHash && header.nFlags &&& BLOCK_PROOF_OF_STAKE ≠ 0 then
      writeLE 4 (header.nFlags &&& BLOCK_PROOF_OF_STAKE).toNat
    else []

def readFields : Reader CBlockHeader := do
  let nVersion ← readLE 4
  let hashPrevBlock ← readLE 32
  let hashMerkleRoot ← readLE 32
  let nTime ← readLE 4
  let nBits ← readLE 4
  let nNonce ← readLE 4
  pure {
    nVersion := BitVec.ofNat 32 nVersion, hashPrevBlock := hashPrevBlock,
    hashMerkleRoot := hashMerkleRoot, nTime := nTime, nBits := nBits, nNonce := nNonce }

-- No stream that is read from has `SER_GETHASH`.
def unserialize (legacy : Bool) : Reader CBlockHeader := do
  let header ← readFields
  if header.isNewestFormat then pure header
  else if !legacy then
    let nFlags ← readLE 4
    pure { header with nFlags := BitVec.ofNat 32 nFlags }
  else pure header

def hashBytes : Bytes :=
  header.serialize true true

structure Fits (header : CBlockHeader) : Prop where
  hashPrevBlock : header.hashPrevBlock < 256 ^ 32
  hashMerkleRoot : header.hashMerkleRoot < 256 ^ 32
  nTime : header.nTime < 256 ^ 4
  nBits : header.nBits < 256 ^ 4
  nNonce : header.nNonce < 256 ^ 4

instance (header : CBlockHeader) : Decidable header.Fits :=
  decidable_of_iff (header.hashPrevBlock < 256 ^ 32 ∧ header.hashMerkleRoot < 256 ^ 32 ∧
      header.nTime < 256 ^ 4 ∧ header.nBits < 256 ^ 4 ∧ header.nNonce < 256 ^ 4)
    ⟨fun ⟨h1, h2, h3, h4, h5⟩ => ⟨h1, h2, h3, h4, h5⟩, fun ⟨h1, h2, h3, h4, h5⟩ => ⟨h1, h2, h3, h4, h5⟩⟩

variable {header h1 h2 : CBlockHeader} {legacy : Bool} {b rest : Bytes}

lemma serializeFields_length (header : CBlockHeader) : header.serializeFields.length = 80 := by
  simp [serializeFields]

lemma readFields_codes : Codes readFields serializeFields fun h => h.Fits ∧ h.nFlags = 0 := by
  refine (readLE_codes.field (E := fun _ => True) (g := fun h => h.nVersion.toNat) fun v hv =>
    readLE_codes.field (g := hashPrevBlock) fun p _ =>
    readLE_codes.field (g := hashMerkleRoot) fun m _ =>
    readLE_codes.field (g := nTime) fun t _ =>
    readLE_codes.field (g := nBits) fun w _ =>
    readLE_codes.last (g := nNonce) (L := (·.nFlags = 0)) fun n _ h => ?_).congr
      (fun _ _ => rfl) fun h => ?_
  · have hv : v % 2 ^ 32 = v := Nat.mod_eq_of_lt hv
    cases h
    simp only [mk.injEq, BitVec.toNat_eq, BitVec.toNat_ofNat, hv]
    grind
  · have := h.nVersion.isLt
    grind [Fits]

-- A header as a stream leaves it: fields in range, and no flags in the newest format.
structure Wired (header : CBlockHeader) : Prop where
  fits : header.Fits
  flags : header.isNewestFormat → header.nFlags = 0

lemma unserialize_codes : Codes (unserialize false) (serialize · false false) Wired := by
  refine (readFields_codes.field (E := fun _ => True) (g := fun h => { h with nFlags := 0 })
    (v := fun h => if h.isNewestFormat then [] else writeLE 4 h.nFlags.toNat)
    (L := fun h => h.isNewestFormat → h.nFlags = 0) fun a ha => ?_).congr (fun h _ => ?_) fun h => ?_
  · have hn {h : CBlockHeader} (he : { h with nFlags := 0 } = a) :
        h.isNewestFormat = a.isNewestFormat := he ▸ rfl
    split
    case isTrue hc =>
      refine (Codes.pure (E := (a = ·)) fun _ => .rfl).congr (fun h he => ?_) fun h => ?_
      · rw [← he, if_pos hc]
      constructor
      · rintro rfl
        exact ⟨⟨trivial, by rw [← ha.2]⟩, fun _ => ha.2⟩
      · rintro ⟨⟨-, rfl⟩, hz⟩
        rw [← hz hc]
    case isFalse hc =>
    refine (readLE_codes.last (E := fun h => True ∧ { h with nFlags := 0 } = a) (L := fun _ => True)
      (g := fun h => h.nFlags.toNat) fun n hl h => ?_).congr (fun h he => ?_) fun h => ?_
    · constructor
      · rintro ⟨⟨⟨-, rfl⟩, rfl⟩, -⟩
        simp
      · rintro rfl
        exact ⟨⟨⟨trivial, by rw [← ha.2]⟩, Nat.mod_eq_of_lt hl⟩, trivial⟩
    · rw [hn he.1.2, if_neg hc]
    · have := h.nFlags.isLt
      grind
  · simp [serialize, serializeFields]
  · grind [Fits, Wired]

lemma readFields_reads (h : header.Fits) :
    Reads readFields header.serializeFields { header with nFlags := 0 } := by
  have hf : ({ header with nFlags := 0 } : CBlockHeader).Fits := ⟨h.1, h.2, h.3, h.4, h.5⟩
  exact readFields_codes.reads ⟨hf, rfl⟩

lemma hashPreimage_eq_iff :
    h1.hashPreimage = h2.hashPreimage ↔
      h1.nVersion = h2.nVersion ∧ h1.hashPrevBlock = h2.hashPrevBlock ∧
      h1.hashMerkleRoot = h2.hashMerkleRoot ∧ h1.nTime = h2.nTime ∧ h1.nBits = h2.nBits ∧
      h1.nNonce = h2.nNonce ∧ h1.isProofOfStake = h2.isProofOfStake := by
  constructor
  · intro h
    have hs := isProofOfStake_of_hashPreimage_eq h
    simp only [hashPreimage, preimage, HashPreimage.mk.injEq] at h
    exact ⟨h.1, h.2.1, h.2.2.1, h.2.2.2.1, h.2.2.2.2.1, h.2.2.2.2.2.1, hs⟩
  rintro ⟨hv, hp, hm, ht, hb, hn, hs⟩
  have hnew : h1.isNewestFormat = h2.isNewestFormat := by simp only [isNewestFormat, hv]
  simp only [isProofOfStake, hnew, hv] at hs
  simp only [hashPreimage, preimage, hv, hp, hm, ht, hb, hn, hnew, HashPreimage.mk.injEq, true_and]
  cases hc : h2.isNewestFormat
  case true => rfl
  case false => simpa [hc] using hs

lemma serializeFields_eq_iff (hf1 : h1.Fits) (hf2 : h2.Fits) :
    h1.serializeFields = h2.serializeFields ↔
      { h1 with nFlags := 0 } = { h2 with nFlags := 0 } := by
  constructor
  · exact fun h => (readFields_reads hf1).unique (h ▸ readFields_reads hf2)
  intro h
  have he : ({ h1 with nFlags := 0 } : CBlockHeader).serializeFields =
      ({ h2 with nFlags := 0 } : CBlockHeader).serializeFields := by
    rw [h]
  exact he

lemma proofOfStake_word (flags) (h : flags &&& BLOCK_PROOF_OF_STAKE ≠ 0) :
    flags &&& BLOCK_PROOF_OF_STAKE = 1 := by
  have hw : flags &&& BLOCK_PROOF_OF_STAKE = (BitVec.ofBool (flags.getLsbD 0)).setWidth 32 :=
    BitVec.and_one_eq_setWidth_ofBool_getLsbD
  rw [hw] at h ⊢
  cases hb : flags.getLsbD 0
  case false =>
    rw [hb] at h
    exact absurd rfl h
  case true => rfl

lemma hashBytes_eq (header : CBlockHeader) :
    header.hashBytes =
      header.serializeFields ++ if header.hashPreimage.stakeFlag then writeLE 4 1 else [] := by
  simp only [hashBytes, serialize, hashPreimage, preimage]
  by_cases hn : header.isNewestFormat
  · simp [hn]
  by_cases hf : header.nFlags &&& BLOCK_PROOF_OF_STAKE = 0
  · simp [hf, hn]
  · simp [proofOfStake_word _ hf, hn]

lemma hashBytes_eq_iff (hf1 : h1.Fits) (hf2 : h2.Fits) :
    h1.hashBytes = h2.hashBytes ↔ h1.hashPreimage = h2.hashPreimage := by
  rw [hashBytes_eq, hashBytes_eq]
  constructor
  · intro h
    have hl : h1.serializeFields.length = h2.serializeFields.length := by
      rw [serializeFields_length, serializeFields_length]
    have ⟨hfields, hflag⟩ := List.append_inj h hl
    have hs : h1.hashPreimage.stakeFlag = h2.hashPreimage.stakeFlag := by
      have := congrArg List.length hflag
      cases hc1 : h1.hashPreimage.stakeFlag <;> cases hc2 : h2.hashPreimage.stakeFlag <;>
        simp [hc1, hc2] at this ⊢
    have he := (serializeFields_eq_iff hf1 hf2).mp hfields
    simp only [mk.injEq] at he
    simp only [hashPreimage, preimage] at hs ⊢
    simp only [he.1, he.2.1, he.2.2.1, he.2.2.2.1, he.2.2.2.2.1, he.2.2.2.2.2.1, hs]
  intro h
  have hv := congrArg HashPreimage.nVersion h
  have hp := congrArg HashPreimage.hashPrevBlock h
  have hm := congrArg HashPreimage.hashMerkleRoot h
  have ht := congrArg HashPreimage.nTime h
  have hb := congrArg HashPreimage.nBits h
  have hn := congrArg HashPreimage.nNonce h
  simp only [hashPreimage, preimage] at hv hp hm ht hb hn
  rw [h]
  simp only [serializeFields, hv, hp, hm, ht, hb, hn]

end CBlockHeader

end Taler
