import TalerModel.Chain.DiskIndex
import TalerModel.Validation.Theorems.CheckBlock

open Codec

namespace Taler

open IndexObject CDiskBlockIndex CBlockHeader Function IndexNode BitVec

lemma and_twoPow_ne_zero (x) (hi : i < 32) : decide (x &&& twoPow 32 i ≠ 0) = x.getLsbD i := by
  rw [and_twoPow]
  cases x.getLsbD i
  case false => simp
  have : (twoPow 32 i).getLsbD i = true := by simp [hi]
  have hn : twoPow 32 i ≠ 0 := fun h => by simp [h] at this
  simpa using hn

namespace IndexObject

variable {pindex : IndexObject} {mask : BitVec 32} {hashPrev : Uint256}

lemma hasStatus_proofOfStake (pindex : IndexObject) :
    pindex.hasStatus STATUS_PROOF_OF_STAKE = pindex.nStatus.getLsbD 16 :=
  and_twoPow_ne_zero pindex.nStatus (i := 16) (by decide)

lemma flag_proofOfStake (nFlags) :
    decide (nFlags &&& BLOCK_PROOF_OF_STAKE ≠ 0) = nFlags.getLsbD 0 :=
  and_twoPow_ne_zero nFlags (i := 0) (by decide)

lemma nFlags_getLsbD (pindex : IndexObject) :
    pindex.nFlags.getLsbD 0 = pindex.nStatus.getLsbD 16 := by
  rw [nFlags, hasStatus_proofOfStake]
  split <;> split <;> split <;>
    simp_all [BLOCK_PROOF_OF_STAKE, BLOCK_STAKE_MODIFIER, BLOCK_NEW_FORMAT]

lemma flagStatus_getLsbD (nFlags) : (flagStatus nFlags).getLsbD 16 = nFlags.getLsbD 0 := by
  rw [← flag_proofOfStake, flagStatus]
  split <;> split <;> split <;>
    simp_all [STATUS_PROOF_OF_STAKE, STATUS_STAKE_MODIFIER, STATUS_NEW_FORMAT]

def identity (pindex : IndexObject) (hashPrev : Uint256) : HashPreimage :=
  let header := pindex.header hashPrev 0
  header.preimage (!header.isNewestFormat && pindex.nStatus.getLsbD 16)

lemma hashPreimage_header (h : mask.getLsbD 0 = true) :
    (pindex.header hashPrev mask).hashPreimage = pindex.identity hashPrev := by
  have hf : decide ((pindex.header hashPrev mask).nFlags &&& BLOCK_PROOF_OF_STAKE ≠ 0) =
      pindex.nStatus.getLsbD 16 := by
    rw [flag_proofOfStake]
    simp only [header, getLsbD_and, h, Bool.and_true, nFlags_getLsbD]
  rw [hashPreimage, hf]
  rfl

lemma ofHeader_flag (block) : (ofHeader block).nStatus.getLsbD 16 = block.nFlags.getLsbD 0 := by
  simp only [ofHeader, nFlags_set, addStatus, getLsbD_or, flagStatus_getLsbD]
  rfl

lemma ofHeader_identity (block) :
    (ofHeader block).identity block.hashPrevBlock = block.hashPreimage := by
  rw [hashPreimage, flag_proofOfStake, ← ofHeader_flag]
  rfl

lemma raiseValidity_fits (h : pindex.Fits) : (pindex.raiseValidity nUpTo).Fits := by
  rw [raiseValidity]
  split
  · exact h
  split
  · exact ⟨h.1, h.2, h.3, h.4, h.5, h.6, h.7, h.8, h.9, h.10⟩
  · exact h

structure SameIdentity (o1 o2 : IndexObject) : Prop where
  flag : o1.nStatus.getLsbD 16 = o2.nStatus.getLsbD 16
  nVersion : o1.nVersion = o2.nVersion
  hashMerkleRoot : o1.hashMerkleRoot = o2.hashMerkleRoot
  nTime : o1.nTime = o2.nTime
  nBits : o1.nBits = o2.nBits
  nNonce : o1.nNonce = o2.nNonce

namespace SameIdentity

variable {o1 o2 o3 : IndexObject}

lemma identity_eq (h : SameIdentity o1 o2) (hashPrev) :
    o1.identity hashPrev = o2.identity hashPrev := by
  have hn : (o1.header hashPrev 0).isNewestFormat = (o2.header hashPrev 0).isNewestFormat :=
    congrArg (fun v : BitVec 32 => decide (v &&& 0xFF010000 = 0x00010000)) h.nVersion
  simp only [identity, hn, h.flag]
  simp [header, preimage, h.nVersion, h.hashMerkleRoot, h.nTime, h.nBits, h.nNonce]

lemma trans (h : SameIdentity o1 o2) (h' : SameIdentity o2 o3) : SameIdentity o1 o3 :=
  ⟨h.1.trans h'.1, h.2.trans h'.2, h.3.trans h'.3, h.4.trans h'.4, h.5.trans h'.5, h.6.trans h'.6⟩

lemma addStatus (pindex bits) (h : bits.getLsbD 16 = false) :
    SameIdentity (pindex.addStatus bits) pindex :=
  ⟨by simp only [IndexObject.addStatus, getLsbD_or, h, Bool.or_false], rfl, rfl, rfl, rfl,
    rfl⟩

lemma raiseValidity (pindex nUpTo) (h : nUpTo.getLsbD 16 = false) :
    SameIdentity (pindex.raiseValidity nUpTo) pindex := by
  rw [IndexObject.raiseValidity]
  split
  · exact ⟨rfl, rfl, rfl, rfl, rfl, rfl⟩
  split
  · have hm : (~~~BLOCK_VALID_MASK).getLsbD 16 = true := by decide
    refine ⟨?_, rfl, rfl, rfl, rfl, rfl⟩
    simp only [getLsbD_or, getLsbD_and, h, hm, Bool.and_true, Bool.or_false]
  · exact ⟨rfl, rfl, rfl, rfl, rfl, rfl⟩

end SameIdentity

end IndexObject

inductive IndexUpdate
  | raiseValidity (nUpTo : Nat)
  | received (nTx nFile nPos : Nat)
  | undoWritten (nPos : Nat)
  | failedValid
  | failedChild
  | clearFailed
  | stakeModifier

def IndexUpdate.apply (pindex : IndexObject) : IndexUpdate → IndexObject
  | raiseValidity nUpTo => pindex.raiseValidity (BitVec.ofNat 32 nUpTo &&& BLOCK_VALID_MASK)
  | received nTx nFile nPos =>
    let pindex := { pindex with nTx := nTx, nFile := nFile, nDataPos := nPos, nUndoPos := 0 }
    (pindex.addStatus BLOCK_HAVE_DATA).raiseValidity 3
  | undoWritten nPos => { pindex with nUndoPos := nPos }.addStatus BLOCK_HAVE_UNDO
  | failedValid => pindex.addStatus BLOCK_FAILED_VALID
  | failedChild => pindex.addStatus BLOCK_FAILED_CHILD
  | clearFailed => { pindex with nStatus := pindex.nStatus &&& ~~~BLOCK_FAILED_MASK }
  | stakeModifier => pindex.addStatus STATUS_STAKE_MODIFIER

open IndexObject in
lemma IndexUpdate.apply_sameIdentity (u : IndexUpdate) (pindex) :
    SameIdentity (u.apply pindex) pindex := by
  cases u
  case raiseValidity nUpTo =>
    exact SameIdentity.raiseValidity _ _ (by simp [BLOCK_VALID_MASK])
  case received nTx nFile nPos =>
    have h := SameIdentity.addStatus
      { pindex with nTx := nTx, nFile := nFile, nDataPos := nPos, nUndoPos := 0 }
      BLOCK_HAVE_DATA (by decide)
    have h' := (SameIdentity.raiseValidity _ 3 (by decide)).trans h
    exact ⟨h'.1, h'.2, h'.3, h'.4, h'.5, h'.6⟩
  case undoWritten nPos =>
    have h := SameIdentity.addStatus { pindex with nUndoPos := nPos } BLOCK_HAVE_UNDO (by decide)
    exact ⟨h.1, h.2, h.3, h.4, h.5, h.6⟩
  case failedValid => exact SameIdentity.addStatus pindex _ (by decide)
  case failedChild => exact SameIdentity.addStatus pindex _ (by decide)
  case clearFailed =>
    refine ⟨?_, rfl, rfl, rfl, rfl, rfl⟩
    simp [IndexUpdate.apply, BLOCK_FAILED_MASK, BLOCK_FAILED_VALID, BLOCK_FAILED_CHILD]
  case stakeModifier => exact SameIdentity.addStatus pindex _ (by decide)

namespace CDiskBlockIndex

lemma readVarInt_writeVarInt (max) (h : n ≤ max) (rest) :
    readVarInt max (writeVarInt n ++ rest) = some (n, rest) :=
  readVarInt_reads h rest

lemma readIf_append (c max) (h : n ≤ max) (rest) :
    readIf c max ((if c then writeVarInt n else []) ++ rest) = some (if c then n else 0, rest) := by
  cases c
  case false => rfl
  case true => exact readVarInt_writeVarInt max h rest

lemma unserialize_reads {diskindex : CDiskBlockIndex} (h : diskindex.Fits)
    (hp : diskindex.hashPrev < 256 ^ 32) (hv : clientVersion ≤ INT_MAX) :
    Reads unserialize (diskindex.serialize clientVersion) diskindex.stored := by
  intro rest
  have hs : diskindex.nStatus.toNat ≤ UINT_MAX := by
    simp only [UINT_MAX]
    omega
  have hw : (BitVec.ofNat 32 diskindex.nStatus.toNat) = diskindex.nStatus := by simp
  have hf : (diskindex.header diskindex.hashPrev 0).Fits :=
    ⟨hp, h.hashMerkleRoot, h.nTime, h.nBits, h.nNonce⟩
  have hh := fun rest => readFields_reads hf rest
  have hst mask :
      hasStatus { nStatus := diskindex.nStatus } mask = diskindex.hasStatus mask := rfl
  simp only [unserialize, serialize, List.append_assoc, bind_apply, Option.bind_some, pure_apply,
    readVarInt_writeVarInt _ hv, readVarInt_writeVarInt INT_MAX h.nHeight,
    readVarInt_writeVarInt _ hs, readVarInt_writeVarInt UINT_MAX h.nTx, hw, hst,
    readIf_append _ INT_MAX h.nFile, readIf_append _ UINT_MAX h.nDataPos,
    readIf_append _ UINT_MAX h.nUndoPos, hh, readVarInt_writeVarInt INT_MAX h.nPowHeight]
  rfl

lemma stored_sameIdentity (diskindex : CDiskBlockIndex) :
    IndexObject.SameIdentity diskindex.stored.toIndexObject diskindex.toIndexObject :=
  ⟨rfl, rfl, rfl, rfl, rfl, rfl⟩

lemma stored_fits {diskindex : CDiskBlockIndex} (h : diskindex.Fits) : diskindex.stored.Fits := by
  have hite (c : Bool) {n b : Nat} (hn : n ≤ b) : (if c then n else 0) ≤ b := by
    split
    · exact hn
    · exact Nat.zero_le b
  exact {
    nHeight := h.nHeight, nPowHeight := h.nPowHeight, nTx := h.nTx, nTime := h.nTime
    nBits := h.nBits, nNonce := h.nNonce, hashMerkleRoot := h.hashMerkleRoot
    nFile := hite _ h.nFile, nDataPos := hite _ h.nDataPos, nUndoPos := hite _ h.nUndoPos }

end CDiskBlockIndex

namespace IndexNode

variable [Crypto] {node : IndexNode} {hash : Uint256}

def blockHash (node : IndexNode) : Uint256 :=
  Crypto.blockHash (node.identity node.hashPrev)

lemma getBlockHeader_getHash (node : IndexNode) : node.getBlockHeader.getHash = node.blockHash := by
  rw [getBlockHeader, getHash, hashPreimage_header (by decide), blockHash]

-- An entry after it was written to disk and read back. A null hash becomes a null pointer.
def reload (node : IndexNode) : IndexNode :=
  { node.toDisk.stored.toIndexObject with
    pprev := if node.hashPrev = 0 then none else some node.hashPrev }

omit [Crypto] in
lemma reload_hashPrev (node : IndexNode) : node.reload.hashPrev = node.hashPrev := by
  have h x : (if x = 0 then none else some x).getD 0 = x := by
    by_cases hx : x = 0 <;> simp [hx]
  exact h node.hashPrev

lemma reload_blockHash (node : IndexNode) : node.reload.blockHash = node.blockHash := by
  rw [blockHash, reload_hashPrev]
  exact congrArg Crypto.blockHash (node.toDisk.stored_sameIdentity.identity_eq _)

end IndexNode

namespace BlockMap

variable [Crypto] {hashGenesisBlock : Uint256} {checks : BlockMap → CBlockHeader → Bool}
variable {clientVersion : Nat} {m m1 m2 : BlockMap} {hash key : Uint256} {node : IndexNode}
variable {block : CBlockHeader} {keys done : List Uint256}

-- Each entry is known by its own hash, can be written to disk, and points to an entry of the map.
structure Keyed (m : BlockMap) : Prop where
  fits : ∀ hash node, m hash = some node → node.Fits
  prev : ∀ hash node, m hash = some node → node.hashPrev < 256 ^ 32
  hash : ∀ hash node, m hash = some node → node.blockHash = hash
  parent : ∀ hash node, m hash = some node → ∀ k, node.pprev = some k → (m k).isSome

omit [Crypto] in
open IndexObject in
lemma newNode_identity (block pprev) (h : pprev = none → block.hashPrevBlock = 0) :
    (newNode block pprev).hashPrev = block.hashPrevBlock ∧
      (newNode block pprev).identity block.hashPrevBlock = block.hashPreimage := by
  cases pprev
  case none =>
    have hs := SameIdentity.raiseValidity (ofHeader block) 2 (by decide)
    exact ⟨(h rfl).symm, (hs.identity_eq _).trans (ofHeader_identity block)⟩
  rename_i prev
  let pindexNew : IndexObject :=
    { ofHeader block with
      nHeight := prev.nHeight + 1
      nPowHeight := prev.nPowHeight + if block.isProofOfStake then 0 else 1 }
  have hflag : (pindexNew.nFlags_set block.nFlags).nStatus.getLsbD 16 =
      (ofHeader block).nStatus.getLsbD 16 := by
    simp only [pindexNew, nFlags_set, addStatus, getLsbD_or, flagStatus_getLsbD,
      ofHeader_flag, Bool.or_self]
  have hs : SameIdentity (pindexNew.nFlags_set block.nFlags) (ofHeader block) :=
    ⟨hflag, rfl, rfl, rfl, rfl, rfl⟩
  have hr := (SameIdentity.raiseValidity (pindexNew.nFlags_set block.nFlags) 2 (by decide)).trans hs
  exact ⟨rfl, (hr.identity_eq _).trans (ofHeader_identity block)⟩

section

omit [Crypto]

lemma insertBlockIndex_fst (m : BlockMap) (hash) :
    (m.insertBlockIndex hash).1 = if hash = 0 then none else some hash := by
  rw [insertBlockIndex]
  split
  · rfl
  · split <;> rfl

lemma insertBlockIndex_snd (m : BlockMap) (hash k) :
    (m.insertBlockIndex hash).2 k = m k ∨ k = hash ∧ k ≠ 0 ∧ m k = none := by
  rw [insertBlockIndex]
  split
  · exact .inl rfl
  rename_i hz
  cases hm : m hash
  case some => exact .inl rfl
  by_cases hk : k = hash
  · exact .inr ⟨hk, hk ▸ hz, hk ▸ hm⟩
  · exact .inl (update_of_ne hk ..)

lemma loadRecord_spec (h : m1.loadRecord key diskindex = some m2) :
    key ≠ 0 ∧
    m2 key = some { diskindex.toIndexObject with
      pprev := if diskindex.hashPrev = 0 then none else some diskindex.hashPrev } ∧
    ∀ k, k ≠ key → m2 k = m1 k ∨ k = diskindex.hashPrev ∧ k ≠ 0 ∧ m1 k = none := by
  simp only [loadRecord, insertBlockIndex_fst, Option.map_eq_some_iff] at h
  obtain ⟨hash, hkey, rfl⟩ := h
  split at hkey
  · simp at hkey
  rename_i hz
  obtain rfl := Option.some.inj hkey
  refine ⟨hz, update_self .., fun k hk => ?_⟩
  simp only [setNode, update_of_ne hk]
  have h1 : (m1.insertBlockIndex key).2 k = m1 k :=
    (insertBlockIndex_snd m1 key k).resolve_right fun h => hk h.1
  rw [← h1]
  exact insertBlockIndex_snd ..

end

-- The map after the records of the keys in `done` have been loaded.
structure Loaded (m : BlockMap) (done : List Uint256) (m1 : BlockMap) : Prop where
  loaded : ∀ k ∈ done, m1 k = (m k).map reload
  known : ∀ k, (m1 k).isSome → (m k).isSome

omit [Crypto] in
lemma pprev_of_hashPrev_ne_zero (h : node.hashPrev ≠ 0) : node.pprev = some node.hashPrev := by
  cases hp : node.pprev
  case none => exact absurd (by simp [IndexNode.hashPrev, hp]) h
  case some k => simp [IndexNode.hashPrev, hp]

lemma Loaded.loadRecord (h : Loaded m done m1) (hm : Keyed m) (hn : m key = some node)
    (hl : m1.loadRecord key node.toDisk.stored = some m2) : Loaded m (key :: done) m2 := by
  have ⟨_, hkey, hother⟩ := loadRecord_spec hl
  -- An entry that is only inserted as a parent is an entry of the map that was written.
  have hknown (k) (hk : (m2 k).isSome) : (m k).isSome := by
    by_cases he : k = key
    · simp [he, hn]
    rcases hother k he with h2 | ⟨hp, hz, _⟩
    case inl => exact h.known k (h2 ▸ hk)
    case inr =>
    have hp' : k = node.hashPrev := hp
    exact hm.parent key node hn k (hp' ▸ pprev_of_hashPrev_ne_zero (hp' ▸ hz))
  refine ⟨fun k hk => ?_, hknown⟩
  by_cases he : k = key
  · rw [he, hkey, hn]
    rfl
  have hd := h.loaded k ((List.mem_cons.mp hk).resolve_left he)
  cases hs : m k
  case none =>
    refine Option.not_isSome_iff_eq_none.mp fun hc => ?_
    simpa [hs] using hknown k hc
  rw [hs] at hd
  refine ((hother k he).resolve_right fun ⟨_, _, hnone⟩ => ?_).trans hd
  simp [hd] at hnone

lemma Loaded.foldlM (hm : Keyed m) (hv : clientVersion ≤ CDiskBlockIndex.INT_MAX)
    (h : Loaded m done m1)
    (hl : (m.writeBatch clientVersion keys).foldlM (fun m record => do
      let (diskindex, _) ← unserialize record.2
      m.loadRecord record.1 diskindex) m1 = some m2) : Loaded m (keys.reverse ++ done) m2 := by
  induction keys generalizing done m1
  case nil =>
    obtain rfl : m1 = m2 := by simpa [writeBatch] using hl
    exact h
  case cons key keys hi =>
  cases hn : m key
  case none =>
    -- There is no such entry, and none is loaded.
    have hd : Loaded m (key :: done) m1 := by
      refine ⟨fun k hk => ?_, h.known⟩
      by_cases he : k = key
      · refine (Option.not_isSome_iff_eq_none.mp fun hc => ?_).trans (by rw [he, hn]; rfl)
        simpa [he, hn] using h.known k hc
      · exact h.loaded k ((List.mem_cons.mp hk).resolve_left he)
    have := hi hd (by simpa [writeBatch, hn] using hl)
    simpa using this
  case some node =>
  have hr : Reads unserialize (node.toDisk.serialize clientVersion)
      node.toDisk.stored :=
    unserialize_reads (hm.fits _ _ hn) (hm.prev _ _ hn) hv
  simp only [writeBatch, List.filterMap_cons, hn, Option.map_some, List.foldlM_cons,
    hr.eq_some, Option.bind_eq_bind, Option.bind_some] at hl
  obtain ⟨m', hl1, hl2⟩ := Option.bind_eq_some_iff.mp hl
  have := hi (h.loadRecord hm hn hl1) hl2
  simpa using this

lemma loadBlockIndexGuts_returns (hm : Keyed m) (hv : clientVersion ≤ CDiskBlockIndex.INT_MAX)
    (hz : ∀ k ∈ keys, k ≠ 0) : ∃ m1, loadBlockIndexGuts (m.writeBatch clientVersion keys) = some m1 := by
  rw [loadBlockIndexGuts]
  generalize (fun _ => none : BlockMap) = m0
  induction keys generalizing m0
  case nil => exact ⟨m0, rfl⟩
  case cons key keys hi =>
  have hi := hi fun k hk => hz k (List.mem_cons_of_mem _ hk)
  cases hn : m key
  case none =>
    simp only [writeBatch, List.filterMap_cons, hn, Option.map_none]
    exact hi m0
  rename_i node
  have hr : Reads unserialize (node.toDisk.serialize clientVersion)
      node.toDisk.stored :=
    unserialize_reads (hm.fits _ _ hn) (hm.prev _ _ hn) hv
  have ⟨m', hl⟩ : ∃ m', BlockMap.loadRecord m0 key node.toDisk.stored = some m' := by
    simp only [loadRecord, insertBlockIndex_fst, if_neg (hz key (List.mem_cons_self ..)),
      Option.map_some, Option.some.injEq, exists_eq']
  have ⟨m1, hm1⟩ := hi m'
  refine ⟨m1, ?_⟩
  simp only [writeBatch, List.filterMap_cons, hn, Option.map_some, List.foldlM_cons, hr.eq_some,
    Option.bind_eq_bind, Option.bind_some, hl]
  exact hm1

lemma loadBlockIndexGuts_eq (hm : Keyed m) (hv : clientVersion ≤ CDiskBlockIndex.INT_MAX)
    (hk : ∀ k, k ∈ keys ↔ (m k).isSome)
    (h : loadBlockIndexGuts (m.writeBatch clientVersion keys) = some m1) (k) :
    m1 k = (m k).map reload := by
  have h0 : Loaded m [] fun _ => none := ⟨by simp, by simp⟩
  have hl := h0.foldlM hm hv h
  by_cases hc : k ∈ keys
  · exact hl.loaded k (by simpa using hc)
  have hn := Option.not_isSome_iff_eq_none.mp (hc ∘ (hk k).mpr)
  refine (Option.not_isSome_iff_eq_none.mp fun hs => ?_).trans (by rw [hn]; rfl)
  simpa [hn] using hl.known k hs

-- What happens to the index. Headers and heights, counts and positions are within their types.
inductive Step (hashGenesisBlock : Uint256) (checks : BlockMap → CBlockHeader → Bool) :
    BlockMap → BlockMap → Prop
  | header {m m' : BlockMap} {block : CBlockHeader} {key : Uint256}
      (accepted : m.acceptBlockHeader hashGenesisBlock checks block = some (key, m'))
      (header : block.Fits) (fits : ∀ hash node, m' hash = some node → node.Fits) :
      Step hashGenesisBlock checks m m'
  | update {m : BlockMap} {hash : Uint256} {node : IndexNode} (u : IndexUpdate)
      (mem : m hash = some node) (fits : (u.apply node.toIndexObject).Fits) :
      Step hashGenesisBlock checks m
        (m.setNode hash { u.apply node.toIndexObject with pprev := node.pprev })
  | restart {m m' : BlockMap} {clientVersion : Nat} {keys : List Uint256}
      (version : clientVersion ≤ CDiskBlockIndex.INT_MAX) (all : ∀ k, k ∈ keys ↔ (m k).isSome)
      (loaded : loadBlockIndexGuts (m.writeBatch clientVersion keys) = some m') :
      Step hashGenesisBlock checks m m'

abbrev Steps (hashGenesisBlock : Uint256) (checks : BlockMap → CBlockHeader → Bool) :=
  Relation.ReflTransGen (Step hashGenesisBlock checks)

omit [Crypto] in
lemma isSome_setNode (h : (m key).isSome) : (m.setNode hash node key).isSome := by
  by_cases hk : key = hash
  · simp [hk, setNode]
  · rwa [setNode, update_of_ne hk]

lemma Keyed.setNode (hm : Keyed m) (hf : node.Fits) (hp : node.hashPrev < 256 ^ 32)
    (hh : node.blockHash = hash)
    (hk : ∀ k, node.pprev = some k → (m.setNode hash node k).isSome) : Keyed (m.setNode hash node) := by
  have h (P : Uint256 → IndexNode → Prop) (hnew : P hash node)
      (hold : ∀ k n, m k = some n → P k n) (k n) (hs : m.setNode hash node k = some n) : P k n := by
    by_cases he : k = hash
    · simp only [he, BlockMap.setNode, update_self, Option.some.injEq] at hs
      exact he ▸ hs ▸ hnew
    simp only [BlockMap.setNode, update_of_ne he] at hs
    exact hold k n hs
  constructor
  case fits => exact h (fun _ n => n.Fits) hf hm.fits
  case prev => exact h (fun _ n => n.hashPrev < 256 ^ 32) hp hm.prev
  case hash => exact h (fun k n => n.blockHash = k) hh hm.hash
  case parent =>
  refine h (fun _ n => ∀ k, n.pprev = some k → (m.setNode hash node k).isSome) hk ?_
  exact fun k n hn k' hk' => isSome_setNode (hm.parent k n hn k' hk')

lemma addToBlockIndex_known (h : (m block.getHash).isSome) :
    m.addToBlockIndex block = (block.getHash, m) := by
  have ⟨n, hn⟩ := Option.isSome_iff_exists.mp h
  simp [addToBlockIndex, hn]

lemma Keyed.addToBlockIndex (hm : Keyed m) (hb : block.Fits)
    (hp : (m block.hashPrevBlock).isSome ∨ block.hashPrevBlock = 0)
    (hf : ∀ hash node, (m.addToBlockIndex block).2 hash = some node → node.Fits) :
    Keyed (m.addToBlockIndex block).2 := by
  cases hn : m block.getHash
  case some n =>
    rw [addToBlockIndex_known (by simp [hn])]
    exact hm
  simp only [BlockMap.addToBlockIndex, hn] at hf ⊢
  generalize hprev : (m.setNode block.getHash { ofHeader block with })
    block.hashPrevBlock = pprev at hf ⊢
  have ⟨hhash, hid⟩ := newNode_identity block pprev fun h => by
    refine hp.resolve_left fun hs => ?_
    have hc : (m.setNode block.getHash { ofHeader block with }
        block.hashPrevBlock).isSome := isSome_setNode hs
    simp [hprev, h] at hc
  refine hm.setNode (hf block.getHash _ (update_self ..)) (hhash ▸ hb.hashPrevBlock) ?_ ?_
  · rw [blockHash, hhash, hid, getHash]
  intro k hk
  cases pprev
  case none => simp [newNode] at hk
  simp only [newNode, Option.some.injEq] at hk
  have hs : (m.setNode block.getHash { ofHeader block with } k).isSome := by
    simp [← hk, hprev]
  by_cases he : k = block.getHash
  · simp [he, BlockMap.setNode]
  rw [BlockMap.setNode, update_of_ne he] at hs ⊢
  exact hs

lemma acceptBlockHeader_cases
    (h : m.acceptBlockHeader hashGenesisBlock checks block = some (key, m1)) :
    key = block.getHash ∧
    (m1 = m ∧ (m key).isSome ∨
      m1 = (m.addToBlockIndex block).2 ∧ (m1 key).isSome ∧
        (key = hashGenesisBlock ∨ (m block.hashPrevBlock).isSome)) := by
  have ⟨hkey, hadd⟩ : (m.addToBlockIndex block).1 = block.getHash ∧
      ((m.addToBlockIndex block).2 (m.addToBlockIndex block).1).isSome := by
    rw [addToBlockIndex]
    cases hn : m block.getHash
    case none => simp [setNode]
    case some n => simp [hn]
  simp only [acceptBlockHeader] at h
  split at h
  case isTrue hg =>
    obtain ⟨rfl, rfl⟩ := Prod.mk.inj (Option.some.inj h)
    exact ⟨hkey, .inr ⟨rfl, hadd, .inl (hkey.trans hg)⟩⟩
  cases hn : m block.getHash
  case some n =>
    simp only [hn, Option.ite_none_left_eq_some, Option.some.injEq, Prod.mk.injEq] at h
    obtain ⟨_, rfl, rfl⟩ := h
    exact ⟨rfl, .inl ⟨rfl, by simp [hn]⟩⟩
  simp only [hn, Option.ite_none_right_eq_some, Bool.and_eq_true] at h
  obtain ⟨⟨hp, _⟩, h⟩ := h
  obtain ⟨rfl, rfl⟩ := Prod.mk.inj (Option.some.inj h)
  exact ⟨hkey, .inr ⟨rfl, hadd, .inr hp⟩⟩

lemma isSome_addToBlockIndex (h : (m key).isSome) : ((m.addToBlockIndex block).2 key).isSome := by
  rw [addToBlockIndex]
  cases hn : m block.getHash
  case none => exact isSome_setNode h
  case some n => exact h

lemma Step.isSome (h : Step hashGenesisBlock checks m m1) (hm : Keyed m) (hk : (m key).isSome) :
    (m1 key).isSome := by
  cases h
  case header block key' hb ha hf =>
    rcases (acceptBlockHeader_cases ha).2 with ⟨rfl, _⟩ | ⟨rfl, _, _⟩
    case inl => exact hk
    case inr => exact isSome_addToBlockIndex hk
  case update => exact isSome_setNode hk
  case restart v keys hv ha hl => simpa [loadBlockIndexGuts_eq hm hv ha hl key] using hk

lemma Step.keyed (h : Step hashGenesisBlock checks m m1) (hm : Keyed m)
    (hg : (m hashGenesisBlock).isSome) : Keyed m1 := by
  cases h
  case header block key hb ha hf =>
    have ⟨hkey, hc⟩ := acceptBlockHeader_cases ha
    rcases hc with ⟨rfl, _⟩ | ⟨rfl, _, hgen | hp⟩
    case inl => exact hm
    case inr.inl =>
      rw [addToBlockIndex_known (hkey ▸ hgen ▸ hg)]
      exact hm
    case inr.inr => exact hm.addToBlockIndex hb (.inl hp) hf
  case update hash node u hn hf =>
    have hs := (u.apply_sameIdentity node.toIndexObject).identity_eq node.hashPrev
    have hp := hm.prev _ _ hn
    refine hm.setNode hf hp ?_ fun k hk => isSome_setNode (hm.parent _ _ hn k hk)
    exact (congrArg Crypto.blockHash hs).trans (hm.hash _ _ hn)
  case restart v keys hv ha hl =>
  have heq := loadBlockIndexGuts_eq hm hv ha hl
  have hof {k n} (hn : m1 k = some n) : ∃ n0, m k = some n0 ∧ n0.reload = n := by
    rwa [heq, Option.map_eq_some_iff] at hn
  constructor
  case fits =>
    intro k n hn
    obtain ⟨n0, hn0, rfl⟩ := hof hn
    exact stored_fits (hm.fits k n0 hn0)
  case prev =>
    intro k n hn
    obtain ⟨n0, hn0, rfl⟩ := hof hn
    rw [n0.reload_hashPrev]
    exact hm.prev k n0 hn0
  case hash =>
    intro k n hn
    obtain ⟨n0, hn0, rfl⟩ := hof hn
    rw [n0.reload_blockHash]
    exact hm.hash k n0 hn0
  case parent =>
  intro k n hn k' hk'
  obtain ⟨n0, hn0, rfl⟩ := hof hn
  simp only [reload, Option.ite_none_left_eq_some, Option.some.injEq] at hk'
  obtain ⟨hz, rfl⟩ := hk'
  have := hm.parent k n0 hn0 _ (pprev_of_hashPrev_ne_zero hz)
  simpa [heq] using this

omit [Crypto] in
lemma newNode_fits (hb : block.Fits) {pprev : Option IndexNode}
    (hp : ∀ prev, pprev = some prev →
      prev.nHeight < CDiskBlockIndex.INT_MAX ∧ prev.nPowHeight < CDiskBlockIndex.INT_MAX) :
    (newNode block pprev).Fits := by
  have hn : (0 : Nat) ≤ CDiskBlockIndex.INT_MAX := Nat.zero_le _
  cases pprev
  case none =>
    exact raiseValidity_fits
      ⟨hn, hn, hn, Nat.zero_le _, Nat.zero_le _, Nat.zero_le _, hb.2, hb.3, hb.4, hb.5⟩
  rename_i prev
  have ⟨hh, hw⟩ := hp prev rfl
  have hpow : prev.nPowHeight + (if block.isProofOfStake then 0 else 1) ≤
      CDiskBlockIndex.INT_MAX := by
    split <;> omega
  exact raiseValidity_fits
    ⟨hh, hpow, hn, Nat.zero_le _, Nat.zero_le _, Nat.zero_le _, hb.2, hb.3, hb.4, hb.5⟩

lemma addToBlockIndex_fits (hm : ∀ hash node, m hash = some node → node.Fits) (hb : block.Fits)
    (hp : ∀ prev, m.setNode block.getHash { ofHeader block with } block.hashPrevBlock =
      some prev → prev.nHeight < CDiskBlockIndex.INT_MAX ∧ prev.nPowHeight < CDiskBlockIndex.INT_MAX)
    (hn : (m.addToBlockIndex block).2 hash = some node) : node.Fits := by
  rw [addToBlockIndex] at hn
  cases hs : m block.getHash
  case some n =>
    rw [hs] at hn
    exact hm _ _ hn
  simp only [hs] at hn
  by_cases hk : hash = block.getHash
  · simp only [hk, setNode, update_self, Option.some.injEq] at hn
    exact hn ▸ newNode_fits hb hp
  rw [setNode, update_of_ne hk] at hn
  exact hm _ _ hn

def genesisMap (genesis : CBlockHeader) : BlockMap :=
  (addToBlockIndex (fun _ => none) genesis).2

lemma genesisMap_keyed (hf : genesis.Fits) (hp : genesis.hashPrevBlock = 0) :
    Keyed (genesisMap genesis) ∧ (genesisMap genesis genesis.getHash).isSome := by
  have h0 : Keyed fun _ => none := ⟨by simp, by simp, by simp, by simp⟩
  refine ⟨h0.addToBlockIndex hf (.inr hp) fun hash node hn => ?_,
    by simp [genesisMap, addToBlockIndex, setNode]⟩
  refine addToBlockIndex_fits (by simp) hf (fun prev hprev => ?_) hn
  -- A genesis block with a null hash would be its own parent.
  by_cases hz : genesis.hashPrevBlock = genesis.getHash
  · simp only [setNode, hz, update_self, Option.some.injEq] at hprev
    simp [← hprev, ofHeader, nFlags_set, addStatus, CDiskBlockIndex.INT_MAX]
  · simp [setNode, update_of_ne hz] at hprev

lemma Steps.keyed (h : Steps hashGenesisBlock checks m m1) (hm : Keyed m)
    (hg : (m hashGenesisBlock).isSome) :
    Keyed m1 ∧ ∀ k, (m k).isSome → (m1 k).isSome := by
  induction h
  case refl => exact ⟨hm, fun _ h => h⟩
  case tail _ hs hi =>
    exact ⟨hs.keyed hi.1 (hi.2 _ hg), fun k hk => hs.isSome hi.1 (hi.2 k hk)⟩

-- A block has one identity: the hash of the header that was received is the key of its entry, the
-- hash of the header that the entry gives back and the hash of its record on disk, at any later time;
-- and it covers the six fields and the kind of block, no more and no less.
theorem getHash_eq_of_acceptBlockHeader {genesis : CBlockHeader} (hf : genesis.Fits)
    (hp : genesis.hashPrevBlock = 0)
    (hr : Steps genesis.getHash checks (genesisMap genesis) m)
    (ha : m.acceptBlockHeader genesis.getHash checks block = some (key, m1)) (hb : block.Fits)
    (hf1 : ∀ hash node, m1 hash = some node → node.Fits) :
    (key = block.getHash ∧
      ∀ m2, Steps genesis.getHash checks m1 m2 →
        ∃ node, m2 key = some node ∧ node.getBlockHeader.getHash = block.getHash ∧
          ∀ clientVersion ≤ CDiskBlockIndex.INT_MAX, ∃ diskindex,
            unserialize (node.toDisk.serialize clientVersion) = some (diskindex, []) ∧
            diskindex.getBlockHash = block.getHash) ∧
    ∀ h1 h2 : CBlockHeader, h1.Fits → h2.Fits →
      (h1.hashBytes = h2.hashBytes ↔
        h1.nVersion = h2.nVersion ∧ h1.hashPrevBlock = h2.hashPrevBlock ∧
        h1.hashMerkleRoot = h2.hashMerkleRoot ∧ h1.nTime = h2.nTime ∧ h1.nBits = h2.nBits ∧
        h1.nNonce = h2.nNonce ∧ h1.isProofOfStake = h2.isProofOfStake) := by
  have ⟨hm, hg⟩ := genesisMap_keyed hf hp
  have ⟨hkm, hgm⟩ := Steps.keyed hr hm hg
  have hk1 := (Step.header ha hb hf1).keyed hkm (hgm _ hg)
  have hg1 := (Step.header ha hb hf1).isSome hkm (hgm _ hg)
  have ⟨hkey, hc⟩ := acceptBlockHeader_cases ha
  have hs1 : (m1 key).isSome := by
    rcases hc with ⟨rfl, h⟩ | ⟨_, h, _⟩
    case inl => exact h
    case inr => exact h
  refine ⟨⟨hkey, fun m2 h2 => ?_⟩, fun h1 h2 hf1 hf2 => ?_⟩
  · have ⟨hk2, hs2⟩ := Steps.keyed h2 hk1 hg1
    have ⟨node, hn⟩ := Option.isSome_iff_exists.mp (hs2 key hs1)
    have hhash := hk2.hash key node hn
    refine ⟨node, hn, ?_, fun v hv => ⟨node.toDisk.stored, ?_, ?_⟩⟩
    · rw [node.getBlockHeader_getHash, hhash, hkey]
    · exact (unserialize_reads (hk2.fits _ _ hn) (hk2.prev _ _ hn) hv).eq_some
    rw [getBlockHash, getHash, hashPreimage_header (by decide), ← hkey, ← hhash]
    exact congrArg Crypto.blockHash (node.toDisk.stored_sameIdentity.identity_eq _)
  · rw [hashBytes_eq_iff hf1 hf2, hashPreimage_eq_iff]

end BlockMap

section

local instance : Crypto :=
  Crypto.additive

def rootHeader : CBlockHeader where
  nVersion := 1
  hashPrevBlock := 0
  hashMerkleRoot := 7
  nTime := 0
  nBits := 0
  nNonce := 0

def stakeHeader : CBlockHeader :=
  { rootHeader with
    hashPrevBlock := 1, nNonce := 1, nFlags := BLOCK_PROOF_OF_STAKE ||| BLOCK_STAKE_MODIFIER }

open BlockMap in
theorem getHash_eq_of_acceptBlockHeader_stake :
    ∃ m1, (genesisMap rootHeader).acceptBlockHeader 1 (fun _ _ => true) stakeHeader = some (2, m1) ∧
      ∀ m2, Steps 1 (fun _ _ => true) m1 m2 →
        ∃ node, m2 2 = some node ∧ node.getBlockHeader.getHash = 2 := by
  have hroot : rootHeader.Fits := by decide
  have hstake : stakeHeader.Fits := by decide
  have hm := (genesisMap_keyed hroot rfl).1
  have ha : (genesisMap rootHeader).acceptBlockHeader 1 (fun _ _ => true) stakeHeader =
      some (2, ((genesisMap rootHeader).addToBlockIndex stakeHeader).2) := rfl
  have hroom : (newNode rootHeader none).nHeight < CDiskBlockIndex.INT_MAX ∧
      (newNode rootHeader none).nPowHeight < CDiskBlockIndex.INT_MAX := by decide
  have h := getHash_eq_of_acceptBlockHeader hroot rfl .refl ha hstake fun hash node hn =>
    addToBlockIndex_fits hm.fits hstake (fun prev hprev => Option.some.inj hprev ▸ hroom) hn
  refine ⟨_, ha, fun m2 h2 => ?_⟩
  have ⟨node, hn, hh, _⟩ := h.1.2 m2 h2
  exact ⟨node, hn, hh⟩

end

end Taler
