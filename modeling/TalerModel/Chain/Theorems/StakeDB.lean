import TalerModel.Chain.StakeDB
import TalerModel.Chain.Theorems.Stake

namespace Taler

open Function

namespace CBlockTreeDB

variable {V : Type} {cache : Finmap fun _ : Uint256 => V} {tree : CBlockTreeDB}

lemma readThrough_empty (db : Uint256 → Option V) : readThrough ∅ db = db := by
  funext hash
  simp [readThrough]

lemma readThrough_insert {hash : Uint256} (db) :
    readThrough (cache.insert hash value) db = update (readThrough cache db) hash (some value) := by
  funext hash'
  by_cases h : hash' = hash
  · rw [h, update_self, readThrough, Finmap.lookup_insert]
  · rw [update_of_ne h, readThrough, readThrough, Finmap.lookup_insert_of_ne _ h]

-- A flush, which may also happen before a write, does not change what can be read.

lemma flushStake_read :
    tree.flushStake.readStakeHash = tree.readStakeHash ∧
    tree.flushStake.readStakeModifier = tree.readStakeModifier :=
  ⟨readThrough_empty _, readThrough_empty _⟩

lemma writeStakeHash_read (hash proof) :
    (tree.writeStakeHash hash proof).readStakeHash = update tree.readStakeHash hash (some proof) ∧
    (tree.writeStakeHash hash proof).readStakeModifier = tree.readStakeModifier := by
  rw [writeStakeHash]
  split
  · refine ⟨?_, flushStake_read.2⟩
    exact readThrough_insert _
  · exact ⟨readThrough_insert _, rfl⟩

lemma writeStakeModifier_read (hash modifier) :
    (tree.writeStakeModifier hash modifier).readStakeModifier =
      update tree.readStakeModifier hash (some modifier) ∧
    (tree.writeStakeModifier hash modifier).readStakeHash = tree.readStakeHash := by
  rw [writeStakeModifier]
  split
  · refine ⟨?_, flushStake_read.1⟩
    exact readThrough_insert _
  · exact ⟨readThrough_insert _, rfl⟩

end CBlockTreeDB

namespace StakeIndex

open CBlockTreeDB

variable {index : StakeIndex} {pindex : CBlockIndex}

-- The layers of the database implement the stake data that blocks are connected with.

lemma setStakeModifier_store :
    (index.setStakeModifier pindex modifier fGenerated).store =
      index.store.setStakeModifier pindex modifier fGenerated := by
  rw [setStakeModifier, StakeStore.setStakeModifier]
  split
  · have ⟨hm, hh⟩ := @writeStakeModifier_read index.pblocktree pindex.getBlockHash modifier
    simp [store, hm, hh]
  · rfl

lemma setStakeHash_store :
    (index.setStakeHash pindex proof).store = index.store.setStakeHash pindex proof := by
  rw [setStakeHash, StakeStore.setStakeHash]
  split
  · have ⟨hh, hm⟩ := @writeStakeHash_read index.pblocktree pindex.getBlockHash proof
    simp [store, hm, hh]
  · rfl

lemma flushStake_store : index.flushStake.store = index.store := by
  have ⟨hh, hm⟩ := @flushStake_read index.pblocktree
  simp [flushStake, store, hm, hh]

lemma getStakeModifier_store (index : StakeIndex) (pindex : CBlockIndex) :
    pindex.getStakeModifier index.store =
      .ok (index.getStakeModifier pindex).1 (index.getStakeModifier pindex).2.store :=
  rfl

lemma getStakeHash_store (index : StakeIndex) (pindex : CBlockIndex) :
    pindex.getStakeHash index.store =
      .ok (index.getStakeHash pindex).1 (index.getStakeHash pindex).2.store := by
  rw [CBlockIndex.getStakeHash, getStakeHash]
  split <;> rfl

-- The same calls without the layers.
def plainStep (store : StakeStore) : StakeOp → StakeStore
  | .setStakeHash pindex proof => store.setStakeHash pindex proof
  | .setStakeModifier pindex modifier fGenerated => store.setStakeModifier pindex modifier fGenerated
  | .getStakeHash pindex => (pindex.getStakeHash store).final
  | .getStakeModifier pindex => (pindex.getStakeModifier store).final
  | .flushStake => store

theorem run_store (index : StakeIndex) (ops : List StakeOp) :
    (ops.foldl step index).store = ops.foldl plainStep index.store := by
  induction ops generalizing index
  case nil => rfl
  case cons op ops hi =>
  have hs : (index.step op).store = plainStep index.store op := by
    cases op
    case setStakeHash => exact setStakeHash_store
    case setStakeModifier => exact setStakeModifier_store
    case getStakeHash => rw [plainStep, getStakeHash_store]; rfl
    case getStakeModifier => rfl
    case flushStake => exact flushStake_store
  rw [List.foldl_cons, hi, hs, List.foldl_cons]

end StakeIndex

namespace StampCache

variable {V : Type} {cache : StampCache V} {stored : Uint256 → V} {hash : Uint256}

def Coherent (stored : Uint256 → V) (cache : StampCache V) : Prop :=
  ∀ entry ∈ cache.entries, entry.2.1 = stored entry.1

lemma not_mem_of_lookup (h : cache.lookup hash = none) :
    ∀ entry ∈ cache.entries, entry.1 ≠ hash := by
  have hf := Option.map_eq_none_iff.mp h
  simpa using List.find?_eq_none.mp hf

section

variable (h : cache.Coherent stored)
include h

lemma Coherent.lookup (hl : cache.lookup hash = some value) : value = stored hash := by
  have ⟨_, hm⟩ := lookup_mem hl
  exact h _ hm

lemma Coherent.get (hash) : (cache.get hash (stored hash)).1 = stored hash ∧
    (cache.get hash (stored hash)).2.Coherent stored := by
  have ⟨hv, hc⟩ := cache.get_cases hash (stored hash)
  have hv := hv.elim id fun ⟨_, hm⟩ => h _ hm
  refine ⟨hv, fun entry hm => (hc entry hm).elim (h entry) fun he => ?_⟩
  rw [he.1, he.2, hv]

end

-- A write that the cache does not know about is harmless only if the cache has no other value.
def Admits (cache : StampCache V) (hash : Uint256) (value : V) : Prop :=
  ∀ cached ∈ cache.lookup hash, cached = value

lemma Coherent.update (h : cache.Coherent stored) (ha : cache.Admits hash value) :
    cache.Coherent (update stored hash value) := by
  intro entry hm
  by_cases he : entry.1 = hash
  · rw [he, update_self]
    cases hl : cache.lookup hash
    case none => exact absurd he (not_mem_of_lookup hl entry hm)
    case some cached => rw [h entry hm, he, ← h.lookup hl, ha cached hl]
  rw [update_of_ne he]
  exact h entry hm

lemma get_of_not_admits (h : ¬cache.Admits hash value) (read) :
    (cache.get hash read).1 ≠ value := by
  simp only [Admits, not_forall] at h
  have ⟨cached, hl, hne⟩ := h
  simpa only [StampCache.get, Option.mem_def.mp hl] using hne

end StampCache

def StakeOp.entry? : StakeOp → Option CBlockIndex
  | .setStakeHash pindex _ => some pindex
  | .setStakeModifier pindex _ _ => some pindex
  | .getStakeHash pindex => some pindex
  | .getStakeModifier pindex => some pindex
  | .flushStake => none

namespace StakeIndex

open StampCache

structure Passed where
  hashes : Uint256 → Option Uint256 := fun _ => none
  modifiers : Uint256 → Option Nat := fun _ => none

def Passed.step (passed : Passed) : StakeOp → Passed
  | .setStakeHash pindex proof =>
    { passed with hashes := update passed.hashes pindex.getBlockHash (some proof) }
  | .setStakeModifier pindex modifier _ =>
    { passed with
      modifiers := update passed.modifiers pindex.getBlockHash (some modifier) }
  | _ => passed

-- Every read of an entry would return now what was last passed for it, or zero.
structure Correct (entries : Set CBlockIndex) (index : StakeIndex) (passed : Passed) : Prop where
  hashes : ∀ pindex ∈ entries, pindex.isProofOfStake →
    (index.getStakeHash pindex).1 = (passed.hashes pindex.getBlockHash).getD 0
  modifiers : ∀ pindex ∈ entries, index.generated pindex →
    (index.getStakeModifier pindex).1 = (passed.modifiers pindex.getBlockHash).getD 0

-- A write agrees with what is cached, and a modifier that is not written is the one there is.
def Safe (index : StakeIndex) : StakeOp → Prop
  | .setStakeHash pindex proof =>
    pindex.isProofOfStake → index.stakeHashCache.Admits pindex.getBlockHash proof
  | .setStakeModifier pindex modifier fGenerated =>
    if fGenerated then index.modifierCache.Admits pindex.getBlockHash modifier
    else index.generated pindex →
      (index.pblocktree.readStakeModifier pindex.getBlockHash).getD 0 = modifier
  | _ => True

structure Faithful (entries : Set CBlockIndex) (index : StakeIndex) (passed : Passed) : Prop where
  hashCache : index.stakeHashCache.Coherent fun hash =>
    (index.pblocktree.readStakeHash hash).getD 0
  modifierCache : index.modifierCache.Coherent fun hash =>
    (index.pblocktree.readStakeModifier hash).getD 0
  hashes : ∀ pindex ∈ entries, pindex.isProofOfStake →
    (index.pblocktree.readStakeHash pindex.getBlockHash).getD 0 =
      (passed.hashes pindex.getBlockHash).getD 0
  modifiers : ∀ pindex ∈ entries, index.generated pindex →
    (index.pblocktree.readStakeModifier pindex.getBlockHash).getD 0 =
      (passed.modifiers pindex.getBlockHash).getD 0

variable {entries : Set CBlockIndex} {index : StakeIndex} {passed : Passed} {pindex : CBlockIndex}

lemma getStakeHash_fst (h : pindex.isProofOfStake) (index : StakeIndex) :
    (index.getStakeHash pindex).1 = (index.stakeHashCache.get pindex.getBlockHash
      ((index.pblocktree.readStakeHash pindex.getBlockHash).getD 0)).1 := by
  simp [getStakeHash, h]

lemma getStakeModifier_fst (h : index.generated pindex) :
    (index.getStakeModifier pindex).1 = (index.modifierCache.get pindex.getBlockHash
      ((index.pblocktree.readStakeModifier pindex.getBlockHash).getD 0)).1 := by
  simp [getStakeModifier, StakeStore.modifierEntry, store, h]

lemma Faithful.correct (h : Faithful entries index passed) : Correct entries index passed where
  hashes pindex hm hp := by
    rw [getStakeHash_fst hp, (h.hashCache.get _).1, h.hashes pindex hm hp]
  modifiers pindex hm hg := by
    rw [getStakeModifier_fst hg, (h.modifierCache.get _).1, h.modifiers pindex hm hg]

lemma getD_update (f : Uint256 → Option V) (hash : Uint256) (value zero) :
    (fun hash' => (update f hash (some value) hash').getD zero) =
      update (fun hash' => (f hash').getD zero) hash value := by
  funext hash'
  by_cases h : hash' = hash
  · rw [h, update_self, update_self, Option.getD_some]
  · rw [update_of_ne h, update_of_ne h]

variable (hi : Set.InjOn CBlockIndex.getBlockHash entries)

include hi

lemma Faithful.setStakeHash (h : Faithful entries index passed) (hm : pindex ∈ entries)
    (hs : index.Safe (.setStakeHash pindex proof)) :
    Faithful entries (index.setStakeHash pindex proof)
      (passed.step (.setStakeHash pindex proof)) := by
  rw [StakeIndex.setStakeHash]
  split
  case isTrue hp =>
    have ⟨hr, hr'⟩ := @CBlockTreeDB.writeStakeHash_read index.pblocktree pindex.getBlockHash proof
    constructor
    case hashCache =>
      simp only [hr, getD_update]
      exact h.hashCache.update (hs hp)
    case modifierCache => simpa only [hr'] using h.modifierCache
    case hashes =>
      intro q hq hqp
      simp only [hr, Passed.step]
      by_cases he : q.getBlockHash = pindex.getBlockHash
      · rw [he, update_self, update_self]
      rw [update_of_ne he, update_of_ne he]
      exact h.hashes q hq hqp
    case modifiers => simpa only [hr', Passed.step] using h.modifiers
  case isFalse hp =>
  refine { h with hashes := ?_, modifiers := h.modifiers }
  intro q hq hqp
  have he : q.getBlockHash ≠ pindex.getBlockHash := fun he => hp (hi hq hm he ▸ hqp)
  simp only [Passed.step, update_of_ne he]
  exact h.hashes q hq hqp

lemma Faithful.setStakeModifier (h : Faithful entries index passed) (hm : pindex ∈ entries)
    (hs : index.Safe (.setStakeModifier pindex modifier fGenerated)) :
    Faithful entries (index.setStakeModifier pindex modifier fGenerated)
      (passed.step (.setStakeModifier pindex modifier fGenerated)) := by
  rw [StakeIndex.setStakeModifier]
  rw [Safe] at hs
  split
  case isTrue hg =>
    rw [if_pos hg] at hs
    have ⟨hr, hr'⟩ :=
      @CBlockTreeDB.writeStakeModifier_read index.pblocktree pindex.getBlockHash modifier
    constructor
    case hashCache => simpa only [hr'] using h.hashCache
    case modifierCache =>
      simp only [hr, getD_update]
      exact h.modifierCache.update hs
    case hashes => simpa only [hr', Passed.step] using h.hashes
    case modifiers =>
    intro q hq hqg
    simp only [hr, Passed.step]
    by_cases he : q.getBlockHash = pindex.getBlockHash
    · rw [he, update_self, update_self]
    have hne : q ≠ pindex := fun hn => he (congrArg _ hn)
    rw [update_of_ne he, update_of_ne he]
    exact h.modifiers q hq (by simpa only [update_of_ne hne] using hqg)
  case isFalse hg =>
  rw [if_neg hg] at hs
  refine { h with hashes := h.hashes, modifiers := ?_ }
  intro q hq hqg
  by_cases he : q.getBlockHash = pindex.getBlockHash
  · have hqe := hi hq hm he
    rw [hqe] at hqg ⊢
    simp only [Passed.step, update_self, Option.getD_some]
    exact hs hqg
  simp only [Passed.step, update_of_ne he]
  exact h.modifiers q hq hqg

omit hi in
lemma Faithful.getStakeHash (h : Faithful entries index passed) (pindex) :
    Faithful entries (index.getStakeHash pindex).2 passed := by
  rw [StakeIndex.getStakeHash]
  split
  · exact h
  · exact { h with hashCache := (h.hashCache.get _).2 }

omit hi in
lemma Faithful.flushStake (h : Faithful entries index passed) :
    Faithful entries index.flushStake passed := by
  have ⟨hr, hr'⟩ := @CBlockTreeDB.flushStake_read index.pblocktree
  constructor
  case hashCache => simpa only [StakeIndex.flushStake, hr] using h.hashCache
  case modifierCache => simpa only [StakeIndex.flushStake, hr'] using h.modifierCache
  case hashes => simpa only [StakeIndex.flushStake, hr] using h.hashes
  case modifiers => simpa only [StakeIndex.flushStake, hr'] using h.modifiers

lemma Faithful.step (h : Faithful entries index passed)
    (hm : ∀ pindex ∈ op.entry?, pindex ∈ entries) (hs : index.Safe op) :
    Faithful entries (index.step op) (passed.step op) := by
  cases op
  case setStakeHash => exact h.setStakeHash hi (hm _ rfl) hs
  case setStakeModifier => exact h.setStakeModifier hi (hm _ rfl) hs
  case getStakeHash => exact h.getStakeHash _
  case getStakeModifier => exact { h with modifierCache := (h.modifierCache.get _).2 }
  case flushStake => exact h.flushStake

omit hi in
lemma Faithful.not_correct (h : Faithful entries index passed)
    (hm : ∀ pindex ∈ op.entry?, pindex ∈ entries) (hs : ¬index.Safe op) :
    ¬Correct entries (index.step op) (passed.step op) := by
  intro hc
  cases op
  case setStakeHash pindex proof =>
    simp only [Safe, Classical.not_imp] at hs
    have ⟨hp, ha⟩ := hs
    have hr := hc.hashes pindex (hm _ rfl) hp
    simp only [StakeIndex.step, StakeIndex.setStakeHash, hp, if_true, Passed.step, update_self,
      Option.getD_some] at hr
    rw [getStakeHash_fst hp] at hr
    exact get_of_not_admits ha _ hr
  case setStakeModifier pindex modifier fGenerated =>
    cases fGenerated
    case true =>
      have hr := hc.modifiers pindex (hm _ rfl) (update_self ..)
      simp only [StakeIndex.step, StakeIndex.setStakeModifier, if_true, Passed.step,
        update_self, Option.getD_some] at hr
      rw [getStakeModifier_fst (update_self ..)] at hr
      exact get_of_not_admits hs _ hr
    case false =>
    simp only [Safe, Bool.false_eq_true, if_false, Classical.not_imp] at hs
    have ⟨hg, hne⟩ := hs
    have hr := hc.modifiers pindex (hm _ rfl) hg
    simp only [StakeIndex.step, StakeIndex.setStakeModifier, Bool.false_eq_true, if_false,
      Passed.step, update_self, Option.getD_some] at hr
    rw [getStakeModifier_fst hg, (h.modifierCache.get _).1] at hr
    exact hne hr
  case getStakeHash => exact hs trivial
  case getStakeModifier => exact hs trivial
  case flushStake => exact hs trivial

-- All reads at all points of a run would be right, and all of its writes are safe where they happen.

def AlwaysCorrect (entries : Set CBlockIndex) : List StakeOp → StakeIndex → Passed → Prop
  | [], index, passed => Correct entries index passed
  | op :: ops, index, passed =>
    Correct entries index passed ∧ AlwaysCorrect entries ops (index.step op) (passed.step op)

def AlwaysSafe : List StakeOp → StakeIndex → Prop
  | [], _ => True
  | op :: ops, index => index.Safe op ∧ AlwaysSafe ops (index.step op)

lemma Faithful.run (h : Faithful entries index passed)
    (hm : ∀ op ∈ ops, ∀ pindex ∈ op.entry?, pindex ∈ entries) :
    AlwaysCorrect entries ops index passed ↔ AlwaysSafe ops index := by
  induction ops generalizing index passed
  case nil => exact iff_of_true h.correct trivial
  case cons op ops hn =>
  have ⟨hop, hops⟩ := List.forall_mem_cons.mp hm
  rw [AlwaysCorrect, AlwaysSafe]
  by_cases hs : index.Safe op
  · rw [hn (h.step hi hop hs) hops]
    exact ⟨fun hc => ⟨hs, hc.2⟩, fun hc => ⟨h.correct, hc.2⟩⟩
  refine iff_of_false (fun hc => h.not_correct hop hs ?_) fun hc => hs hc.1
  cases ops
  case nil => exact hc.2
  case cons => exact hc.2.1

omit hi in
lemma initial_faithful (generated) : Faithful entries { generated := generated } {} := by
  constructor
  case hashCache => exact fun _ hm => nomatch hm
  case modifierCache => exact fun _ hm => nomatch hm
  case hashes => exact fun _ _ _ => rfl
  case modifiers => exact fun _ _ _ => rfl

-- Stake data is read as it was written just if no write contradicts what was read before.
theorem stake_reads_writes (generated : CBlockIndex → Bool)
    (hm : ∀ op ∈ ops, ∀ pindex ∈ op.entry?, pindex ∈ entries) :
    AlwaysCorrect entries ops { generated := generated } {} ↔
      AlwaysSafe ops { generated := generated } :=
  (initial_faithful generated).run hi hm

section

def stakedEntry : CBlockIndex :=
  [{ hash := 3, nVersion := 1, hashMerkleRoot := 0, nTime := 0, nBits := 0, nNonce := 0,
     fProofOfStake := true }]

omit hi in
theorem stake_reads_writes_once :
    AlwaysCorrect {stakedEntry} [.setStakeHash stakedEntry 5, .flushStake, .getStakeHash stakedEntry]
      { generated := fun _ => false } {} :=
  (stake_reads_writes (Set.injOn_singleton _ _) _ (by simp [StakeOp.entry?])).mpr
    ⟨(fun _ _ hl => nomatch hl), trivial, trivial, trivial⟩

omit hi in
theorem stake_reads_miss :
    ¬AlwaysCorrect {stakedEntry} [.getStakeHash stakedEntry, .setStakeHash stakedEntry 5]
      { generated := fun _ => false } {} := by
  intro h
  have hr := h.2.2.hashes stakedEntry rfl rfl
  exact absurd hr (by decide)

end

end StakeIndex

end Taler
