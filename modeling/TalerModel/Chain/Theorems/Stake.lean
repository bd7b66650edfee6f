import Mathlib.Data.List.MinMax
import TalerModel.Chain.Stake
import TalerModel.Chain.Theorems.Ancestor

namespace Taler

open EStateM CBlockIndex List

variable {params : Params} {lookup : Uint256 → CBlockIndex} {st st' st1 st2 : StakeStore}
  {pindex p : CBlockIndex} {modifier : Nat} {stop start : Int}
  {candidates rest done : List CBlockIndex}

namespace StampCache

variable {V : Type} {cache : StampCache V} {hash : Uint256} {value : V}

lemma lookup_mem (h : cache.lookup hash = some value) :
    ∃ stamp, (hash, value, stamp) ∈ cache.entries := by
  have ⟨entry, hf, hv⟩ := Option.map_eq_some_iff.mp h
  have hk : entry.1 = hash := by simpa using find?_some hf
  exact ⟨entry.2.2, by rw [← hk, ← hv]; exact mem_of_find?_eq_some hf⟩

lemma get_cases (cache : StampCache V) (hash : Uint256) (stored) :
    ((cache.get hash stored).1 = stored ∨
      ∃ stamp, (hash, (cache.get hash stored).1, stamp) ∈ cache.entries) ∧
    ∀ entry ∈ (cache.get hash stored).2.entries,
      entry ∈ cache.entries ∨ entry.1 = hash ∧ entry.2.1 = (cache.get hash stored).1 := by
  have hevict : cache.evict.entries ⊆ cache.entries := by
    rw [evict]
    split
    · exact fun entry hm => mem_of_mem_filter hm
    · exact List.Subset.refl _
  rw [get]
  split
  case h_1 hl =>
    refine ⟨.inr (lookup_mem hl), fun entry hm => ?_⟩
    cases mem_cons.mp hm
    case inl he => exact .inr (by simp [he])
    case inr he => exact .inl (mem_of_mem_filter he)
  refine ⟨.inl rfl, fun entry hm => ?_⟩
  cases mem_cons.mp hm
  case inl he => exact .inr (by simp [he])
  case inr he => exact .inl (hevict (mem_of_mem_filter he))

end StampCache

-- What the proof hash of a candidate may be read as: a stake hash is stored or cached.
def ReadsProof (st : StakeStore) (pi : CBlockIndex) (hashProof : Uint256) : Prop :=
  if pi.isProofOfStake then
    hashProof = (st.stakeHashes pi.getBlockHash).getD 0 ∨
      ∃ stamp, (pi.getBlockHash, hashProof, stamp) ∈ st.stakeHashCache.entries
  else hashProof = pi.getBlockHash

-- Reads change the caches only, and what is read afterwards could have been read before.
structure Reading (st st' : StakeStore) : Prop where
  generated : st'.generated = st.generated
  reads : ∀ pi hashProof, ReadsProof st' pi hashProof → ReadsProof st pi hashProof

lemma Reading.refl : Reading st st :=
  ⟨rfl, fun _ _ h => h⟩

lemma Reading.trans (h1 : Reading st st1) (h2 : Reading st1 st2) : Reading st st2 :=
  ⟨h2.generated.trans h1.generated, fun p v h => h1.reads p v (h2.reads p v h)⟩

lemma proofHash_reads (pi : CBlockIndex) :
    ∃ hashProof st', proofHash pi st = .ok hashProof st' ∧ ReadsProof st pi hashProof ∧
      Reading st st' := by
  by_cases hs : pi.isProofOfStake
  case neg =>
    refine ⟨pi.getBlockHash, st, by rw [proofHash, if_neg hs]; rfl, ?_, .refl⟩
    rw [ReadsProof, if_neg hs]
  let read := st.stakeHashCache.get pi.getBlockHash ((st.stakeHashes pi.getBlockHash).getD 0)
  have ⟨hv, hc⟩ := st.stakeHashCache.get_cases pi.getBlockHash
    ((st.stakeHashes pi.getBlockHash).getD 0)
  refine ⟨read.1, { st with stakeHashCache := read.2 }, ?_, by rw [ReadsProof, if_pos hs]; exact hv,
    rfl, fun q hashProof h => ?_⟩
  · rw [proofHash, if_pos hs, getStakeHash, if_neg (by simp [hs])]
    rfl
  unfold ReadsProof at h ⊢
  split at h
  case isFalse hq => rwa [if_neg hq]
  rename_i hq
  rw [if_pos hq]
  cases h
  case inl h => exact .inl h
  rename_i h
  have ⟨stamp, hm⟩ := h
  cases hc _ hm
  case inl hm => exact .inr ⟨stamp, hm⟩
  rename_i he
  have ⟨hk, he⟩ := he
  dsimp only at hk he
  rw [hk, he]
  exact hv

section

-- What a round considers: the first unselected candidate, and the others in its interval.
def considered (stop : Int) : List CBlockIndex → List CBlockIndex
  | [] => []
  | p :: rest => p :: rest.filter (getBlockTime · ≤ stop)

lemma mem_of_mem_considered (h : p ∈ considered stop rest) : p ∈ rest := by
  cases rest
  case nil => nomatch h
  case cons q rest =>
  cases mem_cons.mp h
  case inl h => exact h ▸ mem_cons_self ..
  case inr h => exact mem_cons_of_mem _ (mem_of_mem_filter h)

lemma considered_ne_nil (hn : candidates.Nodup) (hc : done.length < candidates.length) :
    considered stop (candidates.filter (· ∉ done)) ≠ [] := by
  intro h
  have hnil : candidates.filter (· ∉ done) = [] := by
    cases hf : candidates.filter (· ∉ done)
    case nil => rfl
    case cons =>
    rw [hf] at h
    nomatch h
  have hsub : candidates ⊆ done := fun p hp => by simpa using filter_eq_nil_iff.mp hnil p hp
  exact absurd (hn.subperm hsub).length_le (Nat.not_le.mpr hc)

def remaining (stop : Int) : Option CBlockIndex → List CBlockIndex → List CBlockIndex
  | none, rest => considered stop rest
  | some _, rest => rest.filter (getBlockTime · ≤ stop)

lemma remaining_argAux {hash : CBlockIndex → Nat} (best) :
    remaining stop (argAux (fun p q => hash p < hash q) best p) rest =
      rest.filter (getBlockTime · ≤ stop) := by
  cases best
  case none => rfl
  rw [argAux]
  dsimp only
  split <;> rfl

lemma improve_eq {round : SelectionRound} {hash : CBlockIndex → Nat}
    (h : round.best = best.map fun p => (p, hash p)) :
    round.improve p (hash p) = (argAux (fun p q => hash p < hash q) best p).map
      fun p => (p, hash p) := by
  cases best
  case none => simp [SelectionRound.improve, h, argAux]
  case some b =>
  simp only [SelectionRound.improve, h, argAux, Option.map_some]
  split <;> rfl

def roundStop (params : Params) (start : Int) (nRound : Nat) : Int :=
  start + ((range (nRound + 1)).map (getStakeModifierSelectionIntervalSection params)).sum

-- The block picked in a round is the first of those with the least hash, of the ones it considers.
def PicksLeast (params : Params) (start : Int) (hash : CBlockIndex → Nat)
    (candidates picks : List CBlockIndex) (nRound : Nat) : Prop :=
  picks[nRound]? = (considered (roundStop params start nRound)
    (candidates.filter (· ∉ picks.take nRound))).argmin hash

def IsBits (bits : Nat) (picks : List CBlockIndex) : Prop :=
  ∀ n, bits.testBit n ↔ ∃ p ∈ picks[n]?, p.getStakeEntropyBit = 1

lemma IsBits.snoc (h : IsBits bits done) (p) :
    IsBits (bits ||| (p.getStakeEntropyBit <<< done.length)) (done ++ [p]) := by
  intro n
  have hlt : p.getStakeEntropyBit < 2 := Nat.mod_lt _ (by decide)
  rw [Nat.testBit_or, Nat.testBit_shiftLeft, Bool.or_eq_true, h n]
  cases Nat.lt_trichotomy n done.length
  case inl hn => simp [getElem?_append_left hn, Nat.not_le.mpr hn]
  rename_i hn
  cases hn
  case inl hn => simp [hn, Nat.mod_eq_of_lt hlt]
  rename_i hn
  have hz := Nat.testBit_lt_two_pow (hlt.trans_le (Nat.le_self_pow (Nat.sub_ne_zero_of_lt hn) 2))
  rw [getElem?_eq_none hn.le, getElem?_eq_none (by simpa using Nat.succ_le_of_lt hn)]
  simp [hz]

end

section

def FindsAncestors (lookup : Uint256 → CBlockIndex) (pindex : CBlockIndex) : Prop :=
  ∀ p, p <:+ pindex → p ≠ [] → lookup (getBlockHash p) = p

structure Findable (lookup : Uint256 → CBlockIndex) (candidates : List CBlockIndex) : Prop where
  height : ∀ p ∈ candidates, ∀ q ∈ candidates, nHeight p = nHeight q → p = q
  found : ∀ p ∈ candidates, p ≠ [] ∧ lookup p.getBlockHash = p

def timeAndHash (p : CBlockIndex) : Int × Uint256 :=
  (p.getBlockTime, p.getBlockHash)

-- The longest run of ancestors with times in the interval, sorted by time and hash.
structure IsCandidates (params : Params) (pindexPrev : CBlockIndex) (candidates : List CBlockIndex) :
    Prop where
  nodup : candidates.Nodup
  mem : ∀ p, p ∈ candidates ↔ p <:+ pindexPrev ∧ p ≠ [] ∧ ∀ q, p <:+ q → q <:+ pindexPrev →
             selectionIntervalStart params pindexPrev ≤ getBlockTime q
  sorted : candidates.Pairwise fun p q => p.getBlockTime < q.getBlockTime ∨
             p.getBlockTime = q.getBlockTime ∧ hashBytes p.getBlockHash ≤ hashBytes q.getBlockHash

lemma mem_takeWhile_tails :
    p ∈ pindex.tails.takeWhile recent ↔ p <:+ pindex ∧ ∀ q, p <:+ q → q <:+ pindex → recent q := by
  induction pindex
  case nil => cases hr : recent [] <;> simp +contextual [takeWhile, hr]
  case cons b pprev hi =>
  rw [tails_cons, takeWhile_cons]
  by_cases hr : recent (b :: pprev)
  case neg =>
    rw [if_neg hr]
    exact iff_of_false not_mem_nil fun ⟨hs, h⟩ => hr (h _ hs suffix_rfl)
  rw [if_pos hr, mem_cons, hi, suffix_cons_iff]
  constructor
  · intro h
    cases h
    case inl he =>
      refine ⟨.inl he, fun q hpq hq => ?_⟩
      rwa [← hpq.eq_of_length_le (he ▸ hq.length_le), he]
    rename_i h
    refine ⟨.inr h.1, fun q hpq hq => ?_⟩
    cases suffix_cons_iff.mp hq
    case inl he => rwa [he]
    case inr hq => exact h.2 q hpq hq
  intro ⟨hp, h⟩
  exact hp.imp_right fun hp => ⟨hp, fun q hpq hq => h q hpq (hq.trans (suffix_cons b pprev))⟩

lemma nodup_tails (pindex : CBlockIndex) : pindex.tails.Nodup := by
  induction pindex
  case nil => exact nodup_singleton _
  case cons b pprev hi =>
  refine nodup_cons.mpr ⟨fun hm => ?_, hi⟩
  have hle := ((mem_tails _ _).mp hm).length_le
  rw [length_cons] at hle
  omega

lemma exists_candidates (params) (pindex : CBlockIndex) :
    ∃ candidates, IsCandidates params pindex candidates ∧
      sortedCandidates params pindex = candidates.map timeAndHash := by
  let order : CBlockIndex → CBlockIndex → Prop := fun p q => p.getBlockTime < q.getBlockTime ∨
    p.getBlockTime = q.getBlockTime ∧ hashBytes p.getBlockHash ≤ hashBytes q.getBlockHash
  have : Std.Total order := by
    refine ⟨fun p q => ?_⟩
    cases lt_trichotomy p.getBlockTime q.getBlockTime
    case inl h => exact .inl (.inl h)
    case inr h =>
    refine h.elim (fun h => ?_) fun h => .inr (.inl h)
    exact (List.le_total _ _).imp (fun hle => .inr ⟨h, hle⟩) fun hle => .inr ⟨h.symm, hle⟩
  have : IsTrans CBlockIndex order := by
    refine ⟨fun p q r hpq hqr => ?_⟩
    cases hpq
    case inl h => exact .inl (hqr.elim h.trans fun hqr => hqr.1 ▸ h)
    case inr h =>
    exact hqr.imp (fun hqr => h.1 ▸ hqr) fun hqr =>
      ⟨h.1.trans hqr.1, List.le_trans h.2 hqr.2⟩
  let run := pindex.tails.takeWhile fun p =>
    p ≠ [] && getBlockTime p ≥ selectionIntervalStart params pindex
  have hperm : (run.reverse.insertionSort order).Perm run :=
    (List.perm_insertionSort _ _).trans (List.reverse_perm _)
  refine ⟨run.reverse.insertionSort order, ⟨?_, fun p => ?_, List.pairwise_insertionSort ..⟩, ?_⟩
  · exact hperm.nodup_iff.mpr ((List.takeWhile_sublist _).nodup (nodup_tails pindex))
  · simp only [hperm.mem_iff, run, mem_takeWhile_tails, Bool.and_eq_true, decide_eq_true_eq]
    refine and_congr_right fun hp => ⟨fun h => ⟨(h p List.suffix_rfl hp).1, fun q hq hqs =>
      (h q hq hqs).2⟩, fun ⟨hn, h⟩ q hq hqs => ⟨hq.ne_nil hn, h q hq hqs⟩⟩
  rw [sortedCandidates, ← List.map_reverse]
  exact (List.map_insertionSort _ _ timeAndHash _ fun _ _ _ _ => Iff.rfl).symm

lemma IsCandidates.findable (h : IsCandidates params pindex candidates)
    (hf : FindsAncestors lookup pindex) : Findable lookup candidates := by
  refine ⟨fun p hp q hq he => ?_, fun p hp => ?_⟩
  · have ⟨hps, hpn, _⟩ := (h.mem p).mp hp
    have ⟨hqs, hqn, _⟩ := (h.mem q).mp hq
    rw [← getAncestor_eq hps hpn, he, getAncestor_eq hqs hqn]
  have ⟨hs, hn, _⟩ := (h.mem p).mp hp
  exact ⟨hn, hf p hs hn⟩

end

lemma lastGenerated_mono {generated generated' : CBlockIndex → Bool}
    (hg : ∀ p, p <:+ pindex → generated p → generated' p)
    (h : generated (lastGenerated generated pindex)) :
    generated' (lastGenerated generated' pindex) := by
  induction pindex
  case nil => exact hg [] (suffix_refl _) h
  case cons b pprev hi =>
  have hself := hg (b :: pprev) (suffix_refl _)
  have hi := hi fun p hp => hg p (hp.trans (suffix_cons b pprev))
  rw [lastGenerated] at h ⊢
  split at h
  case isTrue hc =>
    have hrest := hi h
    split
    · exact hrest
    rename_i hc'
    simp only [Bool.and_eq_true, decide_eq_true_eq, Bool.not_eq_true'] at hc hc'
    by_contra hn
    exact hc' ⟨hc.1, by simpa using hn⟩
  rw [if_neg (by simp [hself h])]
  exact hself h

variable [Crypto]

section

variable {mapHash mapHash1 mapHash2 : List (Nat × Nat)} {selected : List Nat}

def IsSelectionHash (st : StakeStore) (nStakeModifier : Nat) (pi : CBlockIndex)
    (hashSelection : Nat) : Prop :=
  ∃ hashProof, ReadsProof st pi hashProof ∧
    hashSelection = if pi.isProofOfStake then Crypto.selectionHash hashProof nStakeModifier >>> 32
      else Crypto.selectionHash hashProof nStakeModifier

lemma IsSelectionHash.reading (h : IsSelectionHash st1 modifier p v) (hr : Reading st st1) :
    IsSelectionHash st modifier p v :=
  have ⟨hashProof, hp, hv⟩ := h
  ⟨hashProof, hr.reads p hashProof hp, hv⟩

-- What a part of the selection does to the store and to the selection hashes.
structure Memoises (modifier : Nat) (candidates : List CBlockIndex) (st st' : StakeStore)
    (mapHash mapHash' : List (Nat × Nat)) : Prop where
  reading : Reading st st'
  keeps : ∀ n v, mapHash.lookup n = some v → mapHash'.lookup n = some v
  new : ∀ p ∈ candidates, ∀ v, mapHash'.lookup (nHeight p) = some v →
              mapHash.lookup (nHeight p) = some v ∨ IsSelectionHash st modifier p v

lemma Memoises.refl : Memoises modifier candidates st st mapHash mapHash :=
  ⟨.refl, fun _ _ h => h, fun _ _ _ h => .inl h⟩

lemma Memoises.trans (h1 : Memoises modifier candidates st st1 mapHash mapHash1)
    (h2 : Memoises modifier candidates st1 st2 mapHash1 mapHash2) :
    Memoises modifier candidates st st2 mapHash mapHash2 := by
  refine ⟨h1.reading.trans h2.reading, fun n v h => h2.keeps n v (h1.keeps n v h),
    fun p hp v h => ?_⟩
  cases h2.new p hp v h
  case inl h => exact h1.new p hp v h
  case inr h => exact .inr (h.reading h1.reading)

lemma selectionHashOf_memoises (hc : Findable lookup candidates) (hp : p ∈ candidates) (mapHash) :
    ∃ (v : Nat) (mapHash' : List (Nat × Nat)) (st' : StakeStore),
      selectionHashOf modifier mapHash p st = .ok (v, mapHash') st' ∧
      mapHash'.lookup (nHeight p) = some v ∧ Memoises modifier candidates st st' mapHash mapHash' := by
  cases hm : mapHash.lookup (nHeight p)
  case some v => exact ⟨v, mapHash, st, by rw [selectionHashOf, hm]; rfl, hm, .refl⟩
  have ⟨hashProof, st', h, hr, hst⟩ := @proofHash_reads st p
  refine ⟨_, _, st', by rw [selectionHashOf, hm]; exact bind_of_ok h, by simp, hst,
    fun n v hn => ?_, fun q hq v hv => ?_⟩
  · have hne : n ≠ nHeight p := by
      intro he
      rw [he, hm] at hn
      nomatch hn
    rwa [lookup_cons, beq_eq_false_iff_ne.mpr hne]
  by_cases he : nHeight q = nHeight p
  case neg => exact .inl (by rwa [lookup_cons, beq_eq_false_iff_ne.mpr he] at hv)
  case pos =>
  rw [he, lookup_cons_self] at hv
  rw [hc.height q hq p hp he]
  exact .inr ⟨hashProof, hr, (Option.some.inj hv).symm⟩

lemma selectCandidate_spec (hc : Findable lookup candidates) (hr : rest ⊆ candidates)
    (hs : rest.Pairwise fun p q => p.getBlockTime ≤ q.getBlockTime) (round) :
    ∃ round' st', selectCandidate lookup modifier stop selected (rest.map timeAndHash) round st =
        .ok round' st' ∧ Memoises modifier candidates st st' round.mapHash round'.mapHash ∧
      ∀ (hash : CBlockIndex → Nat) (best : Option CBlockIndex),
        (∀ p ∈ candidates, ∀ v, round'.mapHash.lookup (nHeight p) = some v → v = hash p) →
        round.best = best.map (fun p => (p, hash p)) →
        round'.best = ((remaining stop best (rest.filter fun p => nHeight p ∉ selected)).foldl
          (argAux fun p q => hash p < hash q) best).map fun p => (p, hash p) := by
  induction rest generalizing round st
  case nil => exact ⟨round, st, rfl, .refl, fun hash best _ h => by cases best <;> exact h⟩
  case cons p rest hi =>
  have ⟨hp, hr⟩ := cons_subset.mp hr
  have ⟨hle, hs⟩ := pairwise_cons.mp hs
  have ⟨hne, hl⟩ := hc.found p hp
  rw [map_cons, timeAndHash, selectCandidate, hl]
  simp only [hne, if_false]
  split
  case isTrue hstop =>
    simp only [Bool.and_eq_true, decide_eq_true_eq] at hstop
    refine ⟨round, st, rfl, .refl, fun hash best _ hb => ?_⟩
    cases best
    case none => simp [hb] at hstop
    rename_i b
    have hnil : remaining stop (some b) ((p :: rest).filter fun p => nHeight p ∉ selected) =
        [] := by
      refine filter_eq_nil_iff.mpr fun q hq => ?_
      have hq : p.getBlockTime ≤ q.getBlockTime := by
        cases mem_cons.mp (mem_of_mem_filter hq)
        case inl he => rw [he]
        case inr hq => exact hle q hq
      simpa using lt_of_lt_of_le hstop.2 hq
    rw [hnil, hb]
    rfl
  case isFalse hstop =>
  split
  case isTrue hsel =>
    have ⟨round', st', h, hm, hb⟩ := @hi st hr hs round
    refine ⟨round', st', h, hm, fun hash best ha hbest => ?_⟩
    rw [hb hash best ha hbest, filter_cons_of_neg (by simpa using hsel)]
  rename_i hsel
  have ⟨v, mapHash, st1, hv, hlook, hm1⟩ :=
    @selectionHashOf_memoises lookup st p modifier candidates _ hc hp round.mapHash
  have ⟨round', st', h, hm, hb⟩ := @hi st1 hr hs ⟨mapHash, round.improve p v⟩
  rw [bind_of_ok hv]
  refine ⟨round', st', h, hm1.trans hm, fun hash best ha hbest => ?_⟩
  have hv := ha p hp v (hm.keeps _ _ hlook)
  rw [filter_cons_of_pos (by simpa using hsel),
    hb hash (argAux (fun p q => hash p < hash q) best p) ha (hv ▸ improve_eq hbest)]
  cases best
  case none => rfl
  have htime : p.getBlockTime ≤ stop := by simpa [hbest] using hstop
  rw [remaining_argAux, remaining, filter_cons_of_pos (by simpa using htime)]
  rfl

lemma collectBits_selects {rounds new : Nat} (hc : Findable lookup candidates)
    (hn : candidates.Nodup)
    (hs : candidates.Pairwise fun p q => p.getBlockTime ≤ q.getBlockTime)
    (hlen : done.length + rounds ≤ candidates.length) (hd : done.Nodup)
    (hsel : ∀ p ∈ candidates, nHeight p ∈ selected ↔ p ∈ done) (hb : IsBits new done) :
    ∃ bits st' mapHash' picks, collectBits params lookup (candidates.map timeAndHash) modifier rounds
        done.length (start + ((range done.length).map
          (getStakeModifierSelectionIntervalSection params)).sum) selected mapHash new st =
        .ok bits st' ∧
      Memoises modifier candidates st st' mapHash mapHash' ∧ IsBits bits picks ∧
      done <+: picks ∧ picks.length = done.length + rounds ∧ picks.Nodup ∧
      ∀ hash : CBlockIndex → Nat,
        (∀ p ∈ candidates, ∀ v, mapHash'.lookup (nHeight p) = some v → v = hash p) →
        ∀ n, done.length ≤ n → n < picks.length →
          PicksLeast params start hash candidates picks n := by
  induction rounds generalizing done selected mapHash new st
  case zero =>
    exact ⟨new, st, mapHash, done, rfl, .refl, hb, prefix_rfl, rfl, hd,
      fun _ _ n hle hlt => absurd hlt (Nat.not_lt.mpr hle)⟩
  case succ rounds hi =>
  have ⟨round, st1, hr, hm1, hbest⟩ := @selectCandidate_spec lookup st modifier
    (roundStop params start done.length) candidates candidates _ selected hc (List.Subset.refl _) hs
    { mapHash := mapHash }
  let left := considered (roundStop params start done.length) (candidates.filter (· ∉ done))
  have hfilter : (candidates.filter fun p => nHeight p ∉ selected) =
      candidates.filter (· ∉ done) := filter_congr fun p hp => by simp [hsel p hp]
  rw [hfilter] at hbest
  -- Any function with the hashes computed so far gives the same pick.
  let known : CBlockIndex → Nat := fun p => (round.mapHash.lookup (nHeight p)).getD 0
  have hknown p (_ : p ∈ candidates) (v : Nat)
      (h : round.mapHash.lookup (nHeight p) = some v) : v = known p := by simp [known, h]
  have ⟨p, v, hp⟩ : ∃ p v, round.best = some (p, v) := by
    cases hl : left.argmin known
    case none => exact absurd (argmin_eq_none.mp hl) (considered_ne_nil hn (by omega))
    case some p =>
      exact ⟨p, _, (hbest known none hknown rfl).trans (congrArg (Option.map _) hl)⟩
  have hleast (hash : CBlockIndex → Nat) (ha : ∀ p ∈ candidates, ∀ v,
      round.mapHash.lookup (nHeight p) = some v → v = hash p) : left.argmin hash = some p := by
    have ⟨q, hq, he⟩ := Option.map_eq_some_iff.mp ((hbest hash none ha rfl).symm.trans hp)
    cases he
    exact hq
  have ⟨hpc, hpd⟩ : p ∈ candidates ∧ p ∉ done := by
    simpa using mem_of_mem_considered (argmin_mem (hleast known hknown))
  have hsel' : ∀ q ∈ candidates, nHeight q ∈ nHeight p :: selected ↔ q ∈ done ++ [p] := by
    intro q hq
    rw [mem_cons, mem_append, mem_singleton, hsel q hq, or_comm]
    exact or_congr_right ⟨hc.height q hq p hpc, congrArg nHeight⟩
  have hdone : (done ++ [p]).length = done.length + 1 := by simp
  have ⟨bits, st', mapHash', picks, h, hm, hbits, ⟨tl, hpre⟩, hl, hnd, hall⟩ :=
    @hi st1 (done ++ [p]) round.mapHash (nHeight p :: selected) _ (by omega)
      (hd.append (nodup_singleton p) (disjoint_singleton.mpr hpd)) hsel' (hb.snoc p)
  rw [append_assoc, singleton_append] at hpre
  refine ⟨bits, st', mapHash', picks, ?_, hm1.trans hm, hbits, ⟨p :: tl, hpre⟩, by omega, hnd,
    fun hash ha n hle hlt => ?_⟩
  · have hstop : start + ((range done.length).map
        (getStakeModifierSelectionIntervalSection params)).sum +
        getStakeModifierSelectionIntervalSection params done.length =
        roundStop params start done.length := by
      rw [roundStop, range_succ, map_append, sum_append, map_singleton, sum_singleton, add_assoc]
    rw [collectBits, hstop, bind_of_ok hr]
    rw [hdone] at h
    simp only [hp]
    exact h
  by_cases hn : n = done.length
  case neg => exact hall hash ha n (by omega) hlt
  case pos =>
  rw [PicksLeast, hn, ← hpre, take_left, getElem?_append_right le_rfl, Nat.sub_self]
  exact (hleast hash fun q hq v h => ha q hq v (hm.keeps _ _ h)).symm

structure Selects (params : Params) (st : StakeStore) (modifier : Nat) (pindexPrev : CBlockIndex)
    (hash : CBlockIndex → Nat) (candidates picks : List CBlockIndex) (bits : Nat) : Prop where
  isCandidates : IsCandidates params pindexPrev candidates
  isHash : ∀ p ∈ candidates, IsSelectionHash st modifier p (hash p)
  length : picks.length = min 64 candidates.length
  nodup : picks.Nodup
  least : ∀ n < picks.length,
    PicksLeast params (selectionIntervalStart params pindexPrev) hash candidates picks n
  isBits : IsBits bits picks

lemma collectBits_returns (hf : FindsAncestors lookup pindex) (modifier) :
    ∃ bits st' hash candidates picks, collectBits params lookup (sortedCandidates params pindex)
        modifier (min 64 (sortedCandidates params pindex).length) 0
        (selectionIntervalStart params pindex) [] [] 0 st = .ok bits st' ∧
      Reading st st' ∧ Selects params st modifier pindex hash candidates picks bits := by
  have ⟨candidates, hc, he⟩ := exists_candidates params pindex
  have ⟨bits, st', mapHash, picks, h, hm, hb, _, hl, hn, hleast⟩ :=
    @collectBits_selects params lookup st modifier (selectionIntervalStart params pindex) candidates
      [] _ [] [] (min 64 candidates.length) 0 (hc.findable hf) hc.nodup
      (hc.sorted.imp fun h => h.elim le_of_lt fun h => h.1.le) (by simp) nodup_nil (by simp)
      (by simp [IsBits])
  have hex p : ∃ v, IsSelectionHash st modifier p v ∧
      (p ∈ candidates → ∀ w, mapHash.lookup (nHeight p) = some w → w = v) := by
    have ⟨hashProof, _, _, hr, _⟩ := @proofHash_reads st p
    by_cases hp : p ∈ candidates
    case neg => exact ⟨_, ⟨hashProof, hr, rfl⟩, fun h => absurd h hp⟩
    cases hl : mapHash.lookup (nHeight p)
    case none => exact ⟨_, ⟨hashProof, hr, rfl⟩, nofun⟩
    case some v => exact ⟨v, (hm.new p hp v hl).resolve_left nofun, fun _ w hw => by simpa using hw.symm⟩
  choose hash hash_spec using hex
  refine ⟨bits, st', hash, candidates, picks, ?_, hm.reading, hc, fun p _ => (hash_spec p).1,
    ?_, hn, fun n hlt => ?_, hb⟩
  · rw [he, length_map]
    simpa using h
  · simpa using hl
  · exact hleast hash (fun p hp => (hash_spec p).2 hp) n (Nat.zero_le n) hlt

-- A modifier is generated: the last one is from an earlier interval than parent and entry.
def Generates (params : Params) (st : StakeStore) (pindexCurrent : CBlockIndex) : Prop :=
  pindexCurrent.tail ≠ [] ∧ st.generated (lastGenerated st.generated pindexCurrent.tail) ∧
  modifierEpoch params (lastGenerated st.generated pindexCurrent.tail).getBlockTime <
    modifierEpoch params (getBlockTime pindexCurrent.tail) ∧
  modifierEpoch params (lastGenerated st.generated pindexCurrent.tail).getBlockTime <
    modifierEpoch params pindexCurrent.getBlockTime

lemma getStakeModifier_returns (h : FindsAncestors lookup pindex.tail)
    (hg : pindex.tail ≠ [] → st.generated (lastGenerated st.generated pindex.tail)) :
    ∃ r st', getStakeModifier params lookup pindex st = .ok r st' ∧ Reading st st' ∧
      (Generates params st pindex → r.2 ∧ ∃ modifier st1 hash candidates picks,
        (lastGenerated st.generated pindex.tail).getStakeModifier st = .ok modifier st1 ∧
        Selects params st modifier pindex.tail hash candidates picks r.1) := by
  rw [getStakeModifier]
  by_cases hp : pindex.tail = []
  · simp only [hp, if_true]
    exact ⟨_, _, rfl, .refl, fun hn => absurd hp hn.1⟩
  simp only [hp, if_false]
  rw [bind_get]
  simp only [hg hp, Bool.not_true, Bool.false_eq_true, if_false]
  have ⟨modifier, st1, hm, hr⟩ : ∃ modifier st1,
      (lastGenerated st.generated pindex.tail).getStakeModifier st = .ok modifier st1 ∧
      Reading st st1 := ⟨_, _, rfl, rfl, fun _ _ h => h⟩
  rw [bind_of_ok hm]
  split
  case isTrue he =>
    refine ⟨_, st1, rfl, hr, fun hn => ?_⟩
    simp only [Bool.or_eq_true, decide_eq_true_eq] at he
    exact absurd he (not_or.mpr ⟨not_le.mpr hn.2.2.1, not_le.mpr hn.2.2.2⟩)
  have ⟨bits, st', hash, candidates, picks, hb, hr', hs⟩ :=
    @collectBits_returns params lookup st1 pindex.tail _ h modifier
  exact ⟨_, st', bind_of_ok hb, hr.trans hr', fun _ => ⟨rfl, modifier, st1, hash, candidates,
    picks, hm, { hs with isHash := fun p hp => (hs.isHash p hp).reading hr }⟩⟩

lemma generated_of_getStakeModifier (h : getStakeModifier params lookup pindex st = .ok r st')
    (hp : pindex.tail ≠ []) : st.generated (lastGenerated st.generated pindex.tail) := by
  simp only [getStakeModifier, hp, if_false] at h
  have ⟨store, st1, hg, h⟩ := bind_eq_ok.mp h
  cases hg
  by_contra hn
  rw [if_pos (by simpa using hn)] at h
  nomatch h

end

section

variable {tip : CBlockIndex} {block : CBlockHeader} {out : COutPoint} {value : CAmount}
  {time offset : Nat}

def modifierBound (params : Params) (time : Nat) : Int :=
  getStakeModifierSelectionInterval params + time - params.nStakeMinAge

def kernelSource (params : Params) (st : StakeStore) (tip : CBlockIndex) (time : Nat) :
    Option CBlockIndex :=
  if tip.getBlockTime ≤ modifierBound params time then none else
  kernelModifierEntry st.generated (modifierBound params time) tip tip.getBlockTime

-- Without a modifier a kernel is rejected. With one its hash is compared with the target.

lemma checkProofOfStake_of_none (hne : tip ≠ [])
    (h : kernelSource params st tip time = none) :
    checkProofOfStake params tip block out value time offset st = .ok none st := by
  rw [kernelSource, modifierBound] at h
  rw [checkProofOfStake, if_neg hne]
  split at h
  case isTrue ht =>
    rw [if_pos ht]
    rfl
  rename_i ht
  rw [if_neg ht]
  rw [EStateM.bind_get, h]
  rfl

omit [Crypto] in
lemma checkProofOfStake_of_some (hne : tip ≠ []) (h : kernelSource params st tip time = some p) :
    ∃ (nStakeModifier : Nat) (st' : StakeStore), st'.generated = st.generated ∧
      ∀ [Crypto] (block : CBlockHeader) (out : COutPoint)
      (value : CAmount) (offset : Nat),
      checkProofOfStake params tip block out value time offset st = .ok
        (if Crypto.kernelHash nStakeModifier time offset out.n block.nTime >
          kernelTarget params block value time then none
        else some (Crypto.kernelHash nStakeModifier time offset out.n block.nTime)) st' := by
  rw [kernelSource, modifierBound] at h
  split at h
  · cases h
  rename_i ht
  obtain ⟨m, st', hm, hg⟩ : ∃ m st', p.getStakeModifier st = .ok m st' ∧
    st'.generated = st.generated := ⟨_, _, rfl, rfl⟩
  refine ⟨m, st', hg, fun block out value offset => ?_⟩
  rw [checkProofOfStake, if_neg hne]
  rw [if_neg ht]
  rw [EStateM.bind_get, h]
  simp only [bind, EStateM.bind, hm]
  rfl

lemma checkProofOfStake_generated
    (h : checkProofOfStake params tip block out value time offset st = .ok proof st') :
    st'.generated = st.generated := by
  by_cases hne : tip = []
  · rw [checkProofOfStake, if_pos hne] at h
    nomatch h
  cases hs : kernelSource params st tip time
  case none =>
    rw [checkProofOfStake_of_none hne hs] at h
    cases h
    rfl
  case some =>
  have ⟨_, _, hg, hm⟩ := checkProofOfStake_of_some hne hs
  rw [hm] at h
  cases h
  exact hg

lemma checkProofOfStake_error (e st')
    (h : checkProofOfStake params tip block out value time offset st = .error e st') :
    e = .fault .outOfRange ∧ st' = st := by
  by_cases hne : tip = []
  · rw [checkProofOfStake, if_pos hne] at h
    cases h
    exact ⟨rfl, rfl⟩
  cases hs : kernelSource params st tip time
  case none =>
    rw [checkProofOfStake_of_none hne hs] at h
    nomatch h
  case some =>
  have ⟨_, _, _, hm⟩ := checkProofOfStake_of_some hne hs
  rw [hm] at h
  nomatch h

lemma checkProofOfStake_some {hash : Uint256}
    (h : checkProofOfStake params tip block out value time offset st = .ok (some hash) st') :
    (∃ nStakeModifier, hash = Crypto.kernelHash nStakeModifier time offset out.n block.nTime) ∧
      hash ≤ kernelTarget params block value time := by
  have hne : tip ≠ [] := by
    intro hne
    rw [checkProofOfStake, if_pos hne] at h
    nomatch h
  cases hs : kernelSource params st tip time
  case none =>
    rw [checkProofOfStake_of_none hne hs] at h
    nomatch h
  case some =>
  have ⟨nStakeModifier, _, _, hm⟩ := checkProofOfStake_of_some hne hs
  rw [hm] at h
  split at h
  · nomatch h
  case isFalse hle =>
  cases h
  exact ⟨⟨nStakeModifier, rfl⟩, Nat.le_of_not_gt hle⟩

end

end Taler
