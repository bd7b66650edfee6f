import TalerModel.Chain.Theorems.Kernel

namespace Taler

open EStateM StakeStore CBlockIndex Params List

variable {generated : CBlockIndex → Bool} {bound : Int} {p q c t1 t2 : CBlockIndex} {time : Nat}

-- A store to which nothing has been written, and no value has been read from.
def emptyStore : StakeStore where
  generated := fun _ => false
  modifiers := fun _ => none
  stakeHashes := fun _ => none

section

structure ModifierCall where
  pindex : CBlockIndex
  nStakeModifier : Nat
  fGenerated : Bool

def StakeStore.afterCalls (calls : List ModifierCall) : StakeStore :=
  calls.foldl (fun store call =>
    store.setStakeModifier call.pindex call.nStakeModifier call.fGenerated) emptyStore

structure IsNearest (generated : CBlockIndex → Bool) (p q : CBlockIndex) : Prop where
  suffix : q <:+ p
  ne_nil : q ≠ []
  flagged : generated q
  nearest : ∀ c, c <:+ p → generated c → c <:+ q

-- A flag is set together with the modifier, and nothing is read into the cache.
structure Recorded (store : StakeStore) : Prop where
  stored : ∀ p, store.generated p → (store.modifiers p.getBlockHash).isSome
  cache : store.modifierCache = {}

lemma Recorded.setStakeModifier (h : Recorded store) (p modifier fGenerated) :
    Recorded (store.setStakeModifier p modifier fGenerated) := by
  rw [StakeStore.setStakeModifier]
  split
  case isFalse => exact h
  refine ⟨fun c hc => ?_, h.cache⟩
  dsimp only at hc ⊢
  by_cases hh : getBlockHash c = getBlockHash p
  · rw [hh, Function.update_self]; rfl
  have hne : c ≠ p := fun he => hh (he ▸ rfl)
  rw [Function.update_of_ne hne] at hc
  rw [Function.update_of_ne hh]
  exact h.stored c hc

lemma recorded_afterCalls (calls) : Recorded (afterCalls calls) := by
  have hrun store (h : Recorded store) : Recorded (calls.foldl (fun store call =>
      store.setStakeModifier call.pindex call.nStakeModifier call.fGenerated) store) := by
    induction calls generalizing store
    case nil => exact h
    case cons call calls hi => exact hi _ (h.setStakeModifier _ _ _)
  exact hrun emptyStore ⟨fun _ hp => absurd hp Bool.false_ne_true, rfl⟩

lemma IsNearest.self (h : IsNearest generated p q) (hp : generated p) : q = p :=
  h.suffix.eq_of_length
    (Nat.le_antisymm h.suffix.length_le (h.nearest p suffix_rfl hp).length_le)

lemma Recorded.getStakeModifier_val (h : Recorded store) (p : CBlockIndex) :
    ∃ store', p.getStakeModifier store =
      .ok ((store.modifiers (store.modifierEntry p).getBlockHash).getD 0) store' := by
  have hget : (store.modifierCache.get (store.modifierEntry p).getBlockHash
      ((store.modifiers (store.modifierEntry p).getBlockHash).getD 0)).1 =
        (store.modifiers (store.modifierEntry p).getBlockHash).getD 0 := by
    rw [h.cache]
    rfl
  exact ⟨_, congrArg (Result.ok · _) hget⟩

def ReadsInForce (store : StakeStore) (p q : CBlockIndex) : Prop :=
  ∃ modifier store', store.modifiers q.getBlockHash = some modifier ∧
    p.getStakeModifier store = .ok modifier store'

theorem readsInForce_iff (calls : List ModifierCall)
    (hq : IsNearest (afterCalls calls).generated p q) :
    ReadsInForce (afterCalls calls) p q ↔
      (afterCalls calls).generated p ∨
      ((afterCalls calls).modifiers (getBlockHash (getAncestor p 0))).getD 0 =
        ((afterCalls calls).modifiers q.getBlockHash).getD 0 := by
  have hr := recorded_afterCalls calls
  generalize afterCalls calls = store at hr hq ⊢
  have ⟨store', hv⟩ := hr.getStakeModifier_val p
  have ⟨modifier, hm⟩ := Option.isSome_iff_exists.mp (hr.stored q hq.flagged)
  have hreads : ReadsInForce store p q ↔
      (store.modifiers (store.modifierEntry p).getBlockHash).getD 0 = modifier := by
    constructor
    · intro ⟨m, s', hm', hrun⟩
      have he := hv.symm.trans hrun
      injection he with he _
      rw [he]
      exact Option.some.inj (hm'.symm.trans hm)
    intro he
    exact ⟨modifier, store', hm, he ▸ hv⟩
  rw [hreads, hm, Option.getD_some, modifierEntry]
  by_cases hp : store.generated p
  · refine iff_of_true ?_ (.inl hp)
    rw [if_pos hp, ← hq.self hp, hm]
    rfl
  rw [if_neg hp]
  exact ⟨.inr, fun h => h.resolve_left hp⟩

end

section

-- The nearest entry with the flag whose time is not after the bound.
def nearestBelow (generated : CBlockIndex → Bool) (bound : Int) : CBlockIndex → Option CBlockIndex
  | [] => none
  | b :: p =>
    if generated (b :: p) && getBlockTime (b :: p) ≤ bound then some (b :: p)
    else nearestBelow generated bound p

lemma kernelModifierEntry_eq (b) (ht : bound < t) :
    kernelModifierEntry generated bound (b :: p) t = nearestBelow generated bound p := by
  induction p generalizing b t
  case nil => rw [kernelModifierEntry, if_pos ht, if_pos rfl, nearestBelow]
  case cons d p hi =>
  rw [kernelModifierEntry, if_pos ht, if_neg (cons_ne_nil d p), nearestBelow]
  by_cases hg : generated (d :: p)
  case neg =>
    simp only [hg, Bool.false_eq_true, if_false, Bool.false_and]
    exact hi d ht
  simp only [hg, if_true, Bool.true_and, decide_eq_true_eq]
  by_cases hle : getBlockTime (d :: p) ≤ bound
  · rw [if_pos hle, kernelModifierEntry, if_neg (Int.not_lt.mpr hle)]
  rw [if_neg hle]
  exact hi d (Int.not_le.mp hle)

lemma nearestBelow_suffix (h : nearestBelow generated bound p = some c) : c <:+ p := by
  induction p
  case nil => exact absurd h nofun
  case cons b p hi =>
  rw [nearestBelow] at h
  split at h
  · exact Option.some.inj h ▸ suffix_rfl
  · exact (hi h).trans (suffix_cons b p)

lemma nearestBelow_eq (hq : q <:+ p) (hn : q ≠ [])
    (h : ∀ c, q <:+ c → c <:+ p → generated c → bound < getBlockTime c) :
    nearestBelow generated bound p = nearestBelow generated bound q.tail := by
  induction p
  case nil => exact absurd (suffix_nil.mp hq) hn
  case cons b p hi =>
  have hskip : nearestBelow generated bound (b :: p) = nearestBelow generated bound p := by
    rw [nearestBelow, if_neg]
    simp only [Bool.and_eq_true, decide_eq_true_eq, not_and, Int.not_le]
    exact h (b :: p) hq suffix_rfl
  rw [hskip]
  cases suffix_cons_iff.mp hq
  case inl he => rw [he, tail_cons]
  case inr hq => exact hi hq fun c hc hcp => h c hc (hcp.trans (suffix_cons b p))

lemma nearestBelow_above (hc : c <:+ p) (hn : c ≠ []) (hg : generated c)
    (hle : c.getBlockTime ≤ bound) : ∃ e, nearestBelow generated bound p = some e ∧ c <:+ e := by
  induction p
  case nil => exact absurd (suffix_nil.mp hc) hn
  case cons b p hi =>
  rw [nearestBelow]
  split
  · exact ⟨_, rfl, hc⟩
  rename_i hf
  cases suffix_cons_iff.mp hc
  case inl he => exact absurd (by simp [← he, hg, hle]) hf
  case inr hc => exact hi hc

end

section

variable [Crypto] {params : Params} {st : StakeStore}

omit [Crypto] in
lemma kernelSource_eq (hn : t1 ≠ []) (h : modifierBound params time < t1.getBlockTime) :
    kernelSource params st t1 time =
      nearestBelow st.generated (modifierBound params time) t1.tail := by
  rw [kernelSource, if_neg (Int.not_le.mpr h)]
  cases t1
  case nil => exact absurd rfl hn
  case cons b p => exact kernelModifierEntry_eq b h

omit [Crypto] in
lemma kernelSource_eq_iff (hs : t1 <:+ t2) (hn : t1 ≠ [])
    (h1 : modifierBound params time < t1.getBlockTime)
    (h2 : modifierBound params time < t2.getBlockTime) :
    kernelSource params st t1 time = kernelSource params st t2 time ↔
      ∀ c, t1 <:+ c → c <:+ t2 → c ≠ t2 → st.generated c →
        modifierBound params time < getBlockTime c := by
  cases t2
  case nil => exact absurd (suffix_nil.mp hs) hn
  case cons b p =>
  have hbelow {c : CBlockIndex} (hc : c <:+ b :: p) (hne : c ≠ b :: p) : c <:+ p :=
    (suffix_cons_iff.mp hc).resolve_left hne
  rw [kernelSource_eq hn h1, kernelSource_eq (cons_ne_nil b p) h2, tail_cons]
  constructor
  · intro he c hc hcp hne hg
    by_contra hle
    have hcn := hc.ne_nil hn
    have ⟨e, hfound, hce⟩ := nearestBelow_above (hbelow hcp hne) hcn hg (Int.not_lt.mp hle)
    have hlen := (nearestBelow_suffix (he.trans hfound)).length_le
    have := (hc.trans hce).length_le
    have := length_pos_of_ne_nil hn
    rw [length_tail] at hlen
    omega
  intro h
  cases suffix_cons_iff.mp hs
  case inl he => rw [he, tail_cons]
  rename_i hs
  refine (nearestBelow_eq hs hn fun c hc hcp => h c hc (hcp.trans (suffix_cons b p)) ?_).symm
  intro he
  have := hcp.length_le
  rw [he, length_cons] at this
  omega

lemma checkProofOfStake_congr (hn1 : t1 ≠ []) (hn2 : t2 ≠ [])
    (h1 : modifierBound params time < t1.getBlockTime)
    (h2 : modifierBound params time < t2.getBlockTime)
    (he : kernelSource params st t1 time = kernelSource params st t2 time)
    (block out value offset) : checkProofOfStake params t1 block out value time offset st =
      checkProofOfStake params t2 block out value time offset st := by
  have hrun {tip : CBlockIndex} (hn : tip ≠ [])
      (h : modifierBound params time < tip.getBlockTime) :
      checkProofOfStake params tip block out value time offset st =
        ((kernelSource params st tip time).elim (return none) fun pindex => do
          let nStakeModifier ← pindex.getStakeModifier
          let hash := Crypto.kernelHash nStakeModifier time offset out.n block.nTime
          return if hash > kernelTarget params block value time then none else some hash :
          Stake (Option Uint256)) st := by
    have hb : ¬tip.getBlockTime ≤
        getStakeModifierSelectionInterval params + time - params.nStakeMinAge := Int.not_le.mpr h
    rw [checkProofOfStake, if_neg hn, kernelSource, if_neg (Int.not_le.mpr h)]
    simp only [if_neg hb]
    rw [EStateM.bind_get, modifierBound]
    generalize kernelModifierEntry _ _ _ _ = source
    cases source <;> rfl
  rw [hrun hn1 h1, hrun hn2 h2, he]

-- Two tips give the same modifier just if no block in between generated one up to the bound.
theorem kernel_fixed_iff (hs : t1 <:+ t2) (hn : t1 ≠ [])
    (h1 : modifierBound params time < t1.getBlockTime)
    (h2 : modifierBound params time < t2.getBlockTime) :
    (kernelSource params st t1 time = kernelSource params st t2 time ∧
      ∀ block out value offset, checkProofOfStake params t1 block out value time offset st =
        checkProofOfStake params t2 block out value time offset st) ↔
      ∀ c, t1 <:+ c → c <:+ t2 → c ≠ t2 → st.generated c →
        modifierBound params time < getBlockTime c := by
  have hn2 := hs.ne_nil hn
  rw [← kernelSource_eq_iff hs hn h1 h2]
  exact ⟨And.left, fun he => ⟨he, checkProofOfStake_congr hn hn2 h1 h2 he⟩⟩

-- A modifier that is generated has the entropy bits of up to 64 different blocks. Each is the first of
-- those with the least selection hash among the ones that its round considers.
theorem getStakeModifier_selects {lookup : Uint256 → CBlockIndex} {pindex : CBlockIndex}
    (hf : FindsAncestors lookup pindex.tail) (hg : Generates params st pindex) :
    ∃ bits st' modifier st1 hash candidates picks,
      getStakeModifier params lookup pindex st = .ok (bits, true) st' ∧
      (lastGenerated st.generated pindex.tail).getStakeModifier st = .ok modifier st1 ∧
      Selects params st modifier pindex.tail hash candidates picks bits := by
  have ⟨⟨bits, fGenerated⟩, st', h, _, hs⟩ :=
    @getStakeModifier_returns params _ st _ _ hf fun _ => hg.2.1
  have ⟨hn, modifier, st1, hash, candidates, picks, hm, hs⟩ := hs hg
  cases hn
  exact ⟨bits, st', modifier, st1, hash, candidates, picks, h, hm, hs⟩

def connectModifiers (params : Params) (lookupBlockIndex : Uint256 → CBlockIndex) :
    CBlockIndex → Stake Unit
  | [] => pure ()
  | b :: pprev => do
    connectModifiers params lookupBlockIndex pprev
    let (nStakeModifier, fGenerated) ← getStakeModifier params lookupBlockIndex (b :: pprev)
    modify (setStakeModifier (b :: pprev) nStakeModifier fGenerated)

end

section

-- The times of a chain from the top, each after the median of those below it.

local instance instCryptoPlain : Crypto where
  blockHash _ := 0
  sha256d64 _ _ := 0
  commitHash _ _ := 0
  scrypt _ := 0
  lyra2z _ := 0
  coinbaseLeaf _ _ _ _ := 0
  headerLeaf _ _ _ _ _ := 0
  hash160 _ _ := 0
  kernelHash nStakeModifier _ _ _ _ := nStakeModifier
  selectionHash hashProof _ := hashProof
  verify _ _ _ := true

def timedHeader (hash nTime : Nat) : IndexHeader where
  hash := hash
  nVersion := 2
  hashMerkleRoot := 0
  nTime := nTime
  nBits := 0x1e0ffff0
  nNonce := 0
  fProofOfStake := false

def lateTip : CBlockIndex :=
  [timedHeader 5 589130, timedHeader 3 583196, timedHeader 2 583195]

def grownTip : CBlockIndex :=
  timedHeader 9 589140 :: timedHeader 7 589110 :: lateTip

def findGrown (hash : Uint256) : CBlockIndex :=
  (grownTip.tails.find? fun p => p ≠ [] && getBlockHash p = hash).getD []

def grownStore : StakeStore :=
  match connectModifiers mainNet findGrown grownTip emptyStore with
  | .ok _ st => st
  | .error _ st => st

def grownCalls : List ModifierCall :=
  [⟨lateTip.drop 2, 0, true⟩, ⟨lateTip.drop 1, 0, false⟩, ⟨lateTip, 0, false⟩,
    ⟨grownTip.drop 1, 6, true⟩, ⟨grownTip, 6, false⟩]

def earlyStore : StakeStore :=
  afterCalls (grownCalls.take 3)

theorem getStakeModifier_selects_grown :
    ∃ bits st' modifier st1 hash candidates picks,
      getStakeModifier mainNet findGrown (grownTip.drop 1) earlyStore = .ok (bits, true) st' ∧
      (lastGenerated earlyStore.generated lateTip).getStakeModifier earlyStore = .ok modifier st1 ∧
      Selects mainNet earlyStore modifier lateTip hash candidates picks bits := by
  have hfind : ∀ p ∈ lateTip.tails, p ≠ [] → findGrown (getBlockHash p) = p := by
    decide +kernel
  have hf : FindsAncestors findGrown lateTip := fun p hs => hfind p ((mem_tails p lateTip).mpr hs)
  have hg : Generates mainNet earlyStore (grownTip.drop 1) := by
    unfold Generates
    decide +kernel
  exact getStakeModifier_selects hf hg

lemma grown_connects : EStateM.returns (fun _ _ => true)
    (connectModifiers mainNet findGrown grownTip emptyStore) := by
  decide +kernel

lemma grown_calls : ∀ p ∈ grownTip.tails,
    grownStore.generated p = (afterCalls grownCalls).generated p ∧
      grownStore.modifiers (getBlockHash p) =
        (afterCalls grownCalls).modifiers (getBlockHash p) := by
  decide +kernel

lemma grown_times : ∀ p ∈ grownTip.tails, p.tail ≠ [] →
    getMedianTimePast p.tail < getBlockTime p := by
  decide +kernel

lemma grown_nearest : IsNearest (afterCalls grownCalls).generated grownTip (grownTip.drop 1) := by
  refine ⟨drop_suffix 1 grownTip, cons_ne_nil _ _, by decide +kernel, fun c hc hg => ?_⟩
  have hall : ∀ p ∈ grownTip.tails, (afterCalls grownCalls).generated p →
      p <:+ grownTip.drop 1 := by decide +kernel
  exact hall c ((mem_tails c grownTip).mpr hc) hg

theorem readsInForce_flagged : ReadsInForce (afterCalls grownCalls) (grownTip.drop 1)
    (grownTip.drop 1) := by
  have hg : (afterCalls grownCalls).generated (grownTip.drop 1) := by decide +kernel
  have hnear : IsNearest (afterCalls grownCalls).generated (grownTip.drop 1)
      (grownTip.drop 1) :=
    ⟨suffix_rfl, cons_ne_nil _ _, hg, fun _ hc _ => hc⟩
  exact (readsInForce_iff grownCalls hnear).mpr (.inl hg)

-- The block above the one that generated a modifier reads that of the genesis block.
theorem grown_not_readsInForce :
    EStateM.returns (fun _ _ => true)
      (connectModifiers mainNet findGrown grownTip emptyStore) ∧
    (∀ p ∈ grownTip.tails,
      grownStore.generated p = (afterCalls grownCalls).generated p ∧
        grownStore.modifiers (getBlockHash p) =
          (afterCalls grownCalls).modifiers (getBlockHash p)) ∧
    IsNearest (afterCalls grownCalls).generated grownTip (grownTip.drop 1) ∧
      ¬ReadsInForce (afterCalls grownCalls) grownTip (grownTip.drop 1) := by
  refine ⟨grown_connects, grown_calls, grown_nearest, fun ⟨modifier, store', hm, hr⟩ => ?_⟩
  have hread : EStateM.returns (fun v _ => v = 0)
      (grownTip.getStakeModifier (afterCalls grownCalls)) := by decide +kernel
  have hstored : (afterCalls grownCalls).modifiers
      (getBlockHash (grownTip.drop 1)) = some 6 := by decide +kernel
  rw [hr] at hread
  have hz := of_decide_eq_true hread
  rw [hz] at hm
  exact absurd (hm.symm.trans hstored) (by decide)

theorem kernel_fixed_late :
    kernelSource mainNet grownStore lateTip 0 =
        kernelSource mainNet grownStore (timedHeader 8 589135 :: lateTip) 0 ∧
      ∀ block out value offset,
        checkProofOfStake mainNet lateTip block out value 0 offset grownStore =
          checkProofOfStake mainNet (timedHeader 8 589135 :: lateTip) block out value 0
            offset grownStore := by
  refine (kernel_fixed_iff (suffix_cons _ _) (cons_ne_nil _ _) (by decide +kernel)
    (by decide +kernel)).mpr fun c hc hct hne _ => ?_
  have hcl := (suffix_cons_iff.mp hct).resolve_left hne
  have he := hcl.eq_of_length (Nat.le_antisymm hcl.length_le hc.length_le)
  rw [he]
  decide +kernel

-- Both tips of the connected chain pass the test of the bound, but the modifiers differ.
theorem grown_kernel_changes :
    EStateM.returns (fun _ _ => true)
      (connectModifiers mainNet findGrown grownTip emptyStore) ∧
    (∀ p ∈ grownTip.tails, p.tail ≠ [] → getMedianTimePast p.tail < getBlockTime p) ∧
    lateTip <:+ grownTip ∧ modifierBound mainNet 0 < lateTip.getBlockTime ∧
    modifierBound mainNet 0 < grownTip.getBlockTime ∧
    kernelSource mainNet grownStore lateTip 0 = some (lateTip.drop 2) ∧
    kernelSource mainNet grownStore grownTip 0 = some (grownTip.drop 1) ∧
    kernelSource mainNet grownStore lateTip 0 ≠ kernelSource mainNet grownStore grownTip 0 := by
  refine ⟨grown_connects, grown_times, drop_suffix 2 grownTip, ?_, ?_, ?_, ?_, ?_⟩
  all_goals decide +kernel

end

end Taler
