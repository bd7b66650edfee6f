import TalerModel.Chain.Work

namespace Taler

open List Nat

def blockWork (nBits : Nat) : Nat :=
  2 ^ 256 / ((setCompact nBits).target + 1)

-- The bits encode a target of at least `2 ^ 160`.
structure Decodes (nBits : Nat) : Prop where
  fNegative : (setCompact nBits).fNegative = false
  fOverflow : (setCompact nBits).fOverflow = false
  target : 2 ^ 160 ≤ (setCompact nBits).target

section

variable {nBits : Nat}

lemma setCompact_target_succ_lt (nBits) : (setCompact nBits).target + 1 < 2 ^ 256 := by
  simp only [setCompact]
  split
  case isTrue h =>
    have := Nat.div_le_self (nBits % 2 ^ 23) (2 ^ (8 * (3 - nBits / 2 ^ 24)))
    omega
  have hmod : ∀ n, n * 2 ^ (8 * (nBits / 2 ^ 24 - 3)) % 2 ^ 256 % 2 = 0 := by
    intro n
    have he : 8 * (nBits / 2 ^ 24 - 3) = 8 * (nBits / 2 ^ 24 - 3) - 1 + 1 := by omega
    rw [Nat.mod_mod_of_dvd _ (by decide : 2 ∣ 2 ^ 256), he, Nat.pow_succ, ← Nat.mul_assoc,
      Nat.mul_mod_left]
  have := hmod (nBits % 2 ^ 23)
  omega

lemma getBlockProof_eq (h : Decodes nBits) : getBlockProof nBits = blockWork nBits := by
  have hlt := setCompact_target_succ_lt nBits
  have hz : (setCompact nBits).target ≠ 0 := by
    have := h.target
    omega
  have he : 2 ^ 256 = 2 ^ 256 - 1 - (setCompact nBits).target + ((setCompact nBits).target + 1) := by
    omega
  simp only [getBlockProof, h.fNegative, h.fOverflow, Bool.false_or, decide_eq_true_eq, if_neg hz]
  rw [blockWork, he, add_div_right _ (succ_pos _), ← he]

lemma findBlockProof_eq (h : Decodes nBits) :
    ∃ proof, findBlockProof nBits = some proof ∧ proof.toNat = blockWork nBits := by
  have hlt := setCompact_target_succ_lt nBits
  have htarget := h.target
  have hto : (BitVec.ofNat 256 (setCompact nBits).target).toNat = (setCompact nBits).target := by
    rw [BitVec.toNat_ofNat, mod_eq_of_lt (by omega)]
  have hsucc : (BitVec.ofNat 256 (setCompact nBits).target + 1).toNat =
      (setCompact nBits).target + 1 := by
    rw [BitVec.toNat_add, hto]
    exact mod_eq_of_lt hlt
  have hne : BitVec.ofNat 256 (setCompact nBits).target ≠ 0 := by
    intro hz
    rw [hz] at hto
    have : (0 : BitVec 256).toNat = 0 := rfl
    omega
  have hdiv : BitVec.ofNat 256 (setCompact nBits).target + 1 ≠ 0 := by
    intro hz
    rw [hz] at hsucc
    have : (0 : BitVec 256).toNat = 0 := rfl
    omega
  simp only [findBlockProof, h.fNegative, h.fOverflow, Bool.false_or, decide_eq_true_eq, if_neg hne,
    LongDivision.divide_eq hdiv, Option.map_some]
  refine ⟨_, rfl, ?_⟩
  have hsplit : blockWork nBits =
      (2 ^ 256 - 1 - (setCompact nBits).target) / ((setCompact nBits).target + 1) + 1 := by
    have hz : (setCompact nBits).target ≠ 0 := by omega
    rw [← getBlockProof_eq h]
    simp [getBlockProof, h.fNegative, h.fOverflow, if_neg hz]
  have hsmall : blockWork nBits < 2 ^ 256 := div_lt_self (by decide) (by omega)
  rw [BitVec.toNat_add, BitVec.toNat_udiv, BitVec.toNat_not, hto, hsucc, hsplit]
  rw [hsplit] at hsmall
  exact mod_eq_of_lt hsmall

lemma blockWork_pos (nBits) : 0 < blockWork nBits :=
  div_pos (le_of_lt (setCompact_target_succ_lt nBits)) (succ_pos _)

lemma blockWork_le (h : Decodes nBits) : blockWork nBits ≤ 2 ^ 96 := by
  have htarget := h.target
  calc blockWork nBits
    _ ≤ 2 ^ 256 / 2 ^ 160 := div_le_div_left (by omega) (by decide)
    _ = 2 ^ 96 := by decide

end

lemma ChainWork.get_set (n) : (set n).get.toNat = n.toNat % 2 ^ 128 := by
  have he : (set n).get = (n.setWidth 128).setWidth 256 := by
    refine BitVec.eq_of_getLsbD_eq fun i hi => ?_
    simp only [get, set, BitVec.getLsbD_setWidth, BitVec.getLsbD_append, BitVec.getLsbD_extractLsb']
    grind
  rw [he, BitVec.toNat_setWidth, BitVec.toNat_setWidth]
  omega

section

variable {α : Type} {nBits : α → Nat} {stored : List α → ChainWork} {known order : List (List α)}
  {p : List α} {b : α}

def chainWork (nBits : α → Nat) (p : List α) : Nat :=
  (p.map fun b => blockWork (nBits b)).sum

structure Bounded (nBits : α → Nat) (p : List α) : Prop where
  nHeight : nHeight p < 2 ^ 31
  decodes : ∀ b ∈ p, Decodes (nBits b)

lemma chainWork_le (h : ∀ b ∈ p, Decodes (nBits b)) : chainWork nBits p ≤ p.length * 2 ^ 96 := by
  induction p
  case nil => exact zero_le _
  case cons b p hi =>
  have hb := blockWork_le (h b mem_cons_self)
  have hp := hi fun c hc => h c (mem_cons_of_mem b hc)
  rw [chainWork] at hp ⊢
  rw [map_cons, sum_cons, length_cons, succ_mul]
  omega

lemma Bounded.chainWork_lt (h : Bounded nBits p) : chainWork nBits p < 2 ^ 128 := by
  have hlen : p.length ≤ 2 ^ 31 := by
    have := h.nHeight
    simp only [Taler.nHeight] at this
    omega
  calc chainWork nBits p
    _ ≤ p.length * 2 ^ 96 := chainWork_le h.decodes
    _ ≤ 2 ^ 31 * 2 ^ 96 := mul_le_mul_right _ hlen
    _ < 2 ^ 128 := by decide

lemma chainWork_cons (nBits b) (p : List α) :
    chainWork nBits (b :: p) = chainWork nBits p + blockWork (nBits b) := by
  rw [chainWork, map_cons, sum_cons, Nat.add_comm, chainWork]

lemma Bounded.nChainWork_eq (h : Bounded nBits p) :
    nChainWork (fun b => getBlockProof (nBits b)) p = chainWork nBits p := by
  induction p
  case nil => rfl
  case cons b p hi =>
  have hp : Bounded nBits p := by
    refine ⟨Nat.lt_of_le_of_lt ?_ h.nHeight, fun c hc => h.decodes c (mem_cons_of_mem b hc)⟩
    exact Nat.sub_le_sub_right (Nat.le_succ p.length) 1
  have hlt := h.chainWork_lt
  rw [chainWork_cons] at hlt
  rw [nChainWork, hi hp, getBlockProof_eq (h.decodes b mem_cons_self), chainWork_cons,
    Nat.mod_eq_of_lt hlt]

def Exact (nBits : α → Nat) (stored : List α → ChainWork) (p : List α) : Prop :=
  (stored p).get.toNat = chainWork nBits p

def Follows : List (List α) → List (List α) → Prop
  | _, [] => True
  | known, p :: order => (p ≠ [] ∧ (p.tail = [] ∨ p.tail ∈ known)) ∧ Follows (p :: known) order

variable [DecidableEq α]

lemma setChainWork_exact (h : Bounded nBits (b :: p)) (hp : p = [] ∨ Exact nBits stored p) :
    ∃ work, setChainWork nBits stored (b :: p) = some (Function.update stored (b :: p) work) ∧
      work.get.toNat = chainWork nBits (b :: p) := by
  have ⟨proof, he, hproof⟩ := findBlockProof_eq (h.decodes b mem_cons_self)
  have hparent : (if p = [] then 0 else (stored p).get).toNat = chainWork nBits p := by
    split
    case isTrue hn => rw [hn]; rfl
    case isFalse hn => exact hp.resolve_left hn
  have hlt := h.chainWork_lt
  rw [setChainWork, he]
  refine ⟨_, rfl, ?_⟩
  rw [chainWork_cons] at hlt ⊢
  rw [ChainWork.get_set, BitVec.toNat_add, hparent, hproof,
    mod_eq_of_lt (hlt.trans (by decide)), mod_eq_of_lt hlt]

lemma setChainWork_keeps (h : Bounded nBits p) (hn : p ≠ []) (hp : p.tail = [] ∨ p.tail ∈ known)
    (hk : ∀ q ∈ known, Exact nBits stored q) :
    ∃ stored', setChainWork nBits stored p = some stored' ∧
      ∀ q ∈ p :: known, Exact nBits stored' q := by
  cases p
  case nil => exact absurd rfl hn
  case cons b p =>
  have ⟨work, he, hw⟩ := setChainWork_exact h (hp.imp_right (hk _))
  refine ⟨_, he, fun q hq => ?_⟩
  by_cases hqp : q = b :: p
  · rw [hqp, Exact, Function.update_self, hw]
  · rw [Exact, Function.update_of_ne hqp, hk q (mem_of_ne_of_mem hqp hq)]

lemma loadChainWork_exact (hb : ∀ p ∈ order, Bounded nBits p) (hf : Follows known order)
    (hk : ∀ p ∈ known, Exact nBits stored p) :
    ∃ stored', loadChainWork nBits stored order = some stored' ∧
      ∀ p, p ∈ known ∨ p ∈ order → Exact nBits stored' p := by
  induction order generalizing known stored
  case nil => exact ⟨stored, rfl, fun p hp => hk p (hp.resolve_right not_mem_nil)⟩
  case cons p order hi =>
  have ⟨⟨hn, hp⟩, hf⟩ := hf
  have ⟨stored1, he, hk1⟩ := setChainWork_keeps (hb p mem_cons_self) hn hp hk
  have ⟨stored', hr, hall⟩ := hi (fun q hq => hb q (mem_cons_of_mem p hq)) hf hk1
  refine ⟨stored', ?_, fun q hq => hall q ?_⟩
  · rw [loadChainWork, foldlM_cons, he]
    exact hr
  simp only [mem_cons] at hq ⊢
  tauto

omit [DecidableEq α] in
lemma follows_of_sorted (hs : order.Pairwise fun p q => nHeight p ≤ nHeight q)
    (hp : ∀ p ∈ order, p ≠ [] ∧ (p.tail = [] ∨ p.tail ∈ known ∨ p.tail ∈ order)) :
    Follows known order := by
  induction order generalizing known
  case nil => trivial
  case cons p order hi =>
  have ⟨hfirst, hs⟩ := pairwise_cons.mp hs
  have ⟨hn, hparent⟩ := hp p mem_cons_self
  refine ⟨⟨hn, ?_⟩, hi hs fun q hq => ?_⟩
  · by_cases ht : p.tail = []
    · exact .inl ht
    have hlen := length_pos_of_ne_nil ht
    rw [length_tail] at hlen
    refine .inr ((hparent.resolve_left ht).resolve_right fun hm => ?_)
    cases mem_cons.mp hm
    case inl he =>
      have := congrArg length he
      rw [length_tail] at this
      omega
    rename_i hm
    have := hfirst _ hm
    simp only [nHeight, length_tail] at this
    omega
  have ⟨hqn, hq⟩ := hp q (mem_cons_of_mem p hq)
  refine ⟨hqn, ?_⟩
  simp only [mem_cons] at hq ⊢
  tauto

lemma addToBlockIndex_exact (hb : ∀ p ∈ order, Bounded nBits p) (hf : Follows known order)
    (hs : ∀ p, p ∈ s.entries ↔ p ∈ known) (hk : ∀ p ∈ known, Exact nBits s.stored p) :
    ∃ s', order.foldlM (WorkIndex.addToBlockIndex nBits) s = some s' ∧
      (∀ p, p ∈ s'.entries ↔ p ∈ known ∨ p ∈ order) ∧ ∀ p ∈ s'.entries, Exact nBits s'.stored p := by
  induction order generalizing known s
  case nil =>
    refine ⟨s, rfl, fun p => ?_, fun p hp => hk p ((hs p).mp hp)⟩
    rw [hs, or_iff_left not_mem_nil]
  case cons p order hi =>
  have ⟨⟨hn, hp⟩, hf⟩ := hf
  have hb' : ∀ q ∈ order, Bounded nBits q := fun q hq => hb q (mem_cons_of_mem p hq)
  rw [foldlM_cons, WorkIndex.addToBlockIndex]
  by_cases hm : p ∈ s.entries
  · have hpk := (hs p).mp hm
    have hs' : ∀ q, q ∈ s.entries ↔ q ∈ p :: known := fun q => by
      rw [hs, mem_cons]
      exact ⟨.inr, fun hq => hq.elim (fun he => he ▸ hpk) id⟩
    have ⟨s', hr, hent, hall⟩ := hi hb' hf hs' fun q hq => hk q ((hs q).mp ((hs' q).mpr hq))
    refine ⟨s', ?_, fun q => ?_, hall⟩
    · rw [if_pos hm]
      exact hr
    rw [hent, mem_cons, mem_cons]
    tauto
  have ⟨stored1, he, hk1⟩ := setChainWork_keeps (hb p mem_cons_self) hn hp hk
  have hs1 : ∀ q, q ∈ p :: s.entries ↔ q ∈ p :: known := fun q => by
    rw [mem_cons, mem_cons, hs]
  have ⟨s', hr, hent, hall⟩ :=
    hi (s := { entries := p :: s.entries, stored := stored1 }) hb' hf hs1 hk1
  refine ⟨s', ?_, fun q => ?_, hall⟩
  · rw [if_neg hm, he]
    exact hr
  rw [hent, mem_cons, mem_cons]
  tauto

omit [DecidableEq α] in
lemma Follows.parent (hf : Follows known order) :
    ∀ p ∈ order, p ≠ [] ∧ (p.tail = [] ∨ p.tail ∈ known ∨ p.tail ∈ order) := by
  induction order generalizing known
  case nil => exact fun p hp => absurd hp not_mem_nil
  case cons p order hi =>
  have ⟨⟨hn, hp⟩, hf⟩ := hf
  intro q hq
  cases mem_cons.mp hq
  case inl hq =>
    rw [hq]
    exact ⟨hn, hp.imp_right .inl⟩
  rename_i hq
  have ⟨hqn, hq⟩ := hi hf q hq
  refine ⟨hqn, ?_⟩
  simp only [mem_cons] at hq ⊢
  tauto

-- However the tree has grown, and whatever was stored before it is loaded.
theorem chainWork_exact {calls : List (List α)} (hf : Follows [] calls)
    (hb : ∀ p ∈ calls, Bounded nBits p) :
    ∃ s, calls.foldlM (WorkIndex.addToBlockIndex nBits) {} = some s ∧
      (∀ p, p ∈ s.entries ↔ p ∈ calls) ∧
      (∀ p ∈ calls, (s.stored p).get.toNat = (p.map fun b => 2 ^ 256 /
        ((setCompact (nBits b)).target + 1)).sum) ∧
      (∀ p ∈ calls, p.tail ≠ [] → (s.stored p.tail).get < (s.stored p).get) ∧
      ∀ vSortedByHeight, vSortedByHeight.Perm s.entries →
        vSortedByHeight.Pairwise (fun p q => nHeight p ≤ nHeight q) → ∀ stored0,
          ∃ stored, loadChainWork nBits stored0 vSortedByHeight = some stored ∧
            ∀ p ∈ calls, (stored p).get = (s.stored p).get := by
  have ⟨s, hr, hent, hall⟩ := addToBlockIndex_exact (s := {}) hb hf (fun _ => Iff.rfl)
    fun p hp => absurd hp not_mem_nil
  have hent p : p ∈ s.entries ↔ p ∈ calls := by
    rw [hent, or_iff_right not_mem_nil]
  have hexact p (hp : p ∈ calls) := hall p ((hent p).mpr hp)
  refine ⟨s, hr, hent, hexact, fun p hp ht => ?_, fun sorted hperm hsort stored0 => ?_⟩
  · have ⟨hn, hparent⟩ := hf.parent p hp
    have hpar := hexact _ ((hparent.resolve_left ht).resolve_left not_mem_nil)
    cases p
    case nil => exact absurd rfl hn
    case cons b p =>
    rw [BitVec.lt_def, hexact _ hp, hpar, chainWork_cons]
    exact Nat.lt_add_of_pos_right (blockWork_pos (nBits b))
  have hmem p := hperm.mem_iff.trans (hent p)
  have hfol : Follows [] sorted := follows_of_sorted hsort fun p hp => by
    have ⟨hn, hparent⟩ := hf.parent p ((hmem p).mp hp)
    exact ⟨hn, hparent.imp_right fun h => .inr ((hmem _).mpr (h.resolve_left not_mem_nil))⟩
  have hnone : ∀ p ∈ [], Exact nBits stored0 p := fun p hp => absurd hp not_mem_nil
  have ⟨stored, hload, hstored⟩ :=
    loadChainWork_exact (fun p hp => hb p ((hmem p).mp hp)) hfol hnone
  refine ⟨stored, hload, fun p hp => BitVec.eq_of_toNat_eq ?_⟩
  exact (hstored p (.inr ((hmem p).mpr hp))).trans (hexact p hp).symm

lemma bounded_pair : ∀ p ∈ [[0], [1, 0]], Bounded (fun _ : Nat => 0x1e0ffff0) p := by
  have hd : Decodes 0x1e0ffff0 := ⟨by decide, by decide, by decide⟩
  intro p hp
  have hlen : p.length ≤ 2 := by
    simp only [mem_cons, not_mem_nil, or_false] at hp
    rcases hp with rfl | rfl
    · decide
    · decide
  refine ⟨?_, fun _ _ => hd⟩
  rw [nHeight]
  omega

theorem chainWork_exact_pair : ∃ s,
    [[0], [1, 0]].foldlM (WorkIndex.addToBlockIndex fun _ : Nat => 0x1e0ffff0) {} = some s ∧
      (s.stored [0]).get < (s.stored [1, 0]).get := by
  have hf : Follows [] [[0], [1, 0]] :=
    ⟨⟨cons_ne_nil 0 [], .inl rfl⟩, ⟨cons_ne_nil 1 [0], .inr mem_cons_self⟩, trivial⟩
  have ⟨s, hr, _, _, hlt, _⟩ := chainWork_exact hf bounded_pair
  exact ⟨s, hr, hlt [1, 0] (mem_cons_of_mem _ mem_cons_self) (cons_ne_nil 0 [])⟩

end

def powBlocks (pb : CBlockIndex) : Nat :=
  pb.countP (!·.fProofOfStake)

lemma skipProofOfStake_powBlocks (pb) :
    (skipProofOfStake pb).elim (powBlocks pb = 0) fun p => powBlocks p.tail + 1 = powBlocks pb := by
  induction pb
  case nil => rfl
  case cons b pprev hi =>
  by_cases hb : b.fProofOfStake <;> simp_all [skipProofOfStake, powBlocks]

lemma timeSpan_isSome (n p minTime maxTime) :
    (timeSpan n p minTime maxTime).isSome ↔ n ≤ powBlocks p.tail := by
  induction n generalizing p minTime maxTime
  case zero => simp [timeSpan]
  case succ n hi =>
  have hs := skipProofOfStake_powBlocks p.tail
  rw [timeSpan]
  cases hp : skipProofOfStake p.tail
  case none =>
    simp only [hp, Option.elim_none] at hs
    simp [hs]
  case some q =>
  simp only [hp, Option.elim_some] at hs
  rw [Option.bind_eq_bind, Option.bind_some, hi]
  omega

lemma nPowHeight_eq (h : pb.getLast?.map IndexHeader.fProofOfStake = some false) :
    CBlockIndex.nPowHeight pb + 1 = powBlocks pb := by
  induction pb
  case nil => simp at h
  case cons b pprev hi =>
  cases pprev
  case nil =>
    simp_all [CBlockIndex.nPowHeight, powBlocks]
  case cons c p =>
  rw [getLast?_cons_cons] at h
  have hi := hi h
  rw [powBlocks, countP_cons, ← powBlocks, CBlockIndex.nPowHeight, ← hi]
  · by_cases hb : b.fProofOfStake <;> simp [hb]
  · simp

-- Above a genesis block that is mined.
theorem getNetworkHash_isSome_iff (h : pb.getLast?.map IndexHeader.fProofOfStake = some false) :
    (getNetworkHash pb).isSome ↔
      CBlockIndex.nPowHeight pb = 0 ∨ min 120 (nHeight pb) ≤ CBlockIndex.nPowHeight pb := by
  have hn := nPowHeight_eq h
  have hs := skipProofOfStake_powBlocks pb
  rw [getNetworkHash]
  split
  case isTrue hz => simp [hz]
  case isFalse hz =>
  cases hp : skipProofOfStake pb
  case none =>
    simp only [hp, Option.elim_none] at hs
    omega
  case some p =>
  simp only [hp, Option.elim_some] at hs
  have hpow : CBlockIndex.nPowHeight pb = powBlocks p.tail := by omega
  rw [or_iff_right hz, hpow, ← timeSpan_isSome _ p p.getBlockTime p.getBlockTime]
  cases hr : timeSpan (min 120 (nHeight pb)) p p.getBlockTime p.getBlockTime
  case none => simp [hr]
  case some r =>
  by_cases ht : r.2.1 = r.2.2 <;> simp [hr, ht]

-- Mined blocks of consecutive hashes and times.
def minedChain (n : Nat) : CBlockIndex :=
  (range n).reverse.map fun i => ⟨i, 0, 0, i, 0, 0, false⟩

theorem getNetworkHash_mined : (getNetworkHash (minedChain 3)).isSome ↔
    (minedChain 3).nPowHeight = 0 ∨ min 120 (nHeight (minedChain 3)) ≤ (minedChain 3).nPowHeight :=
  getNetworkHash_isSome_iff rfl

-- Below the first proof of stake of the test network there are nineteen blocks and the genesis block.
theorem getNetworkHash_first_stake :
    let pb := ⟨20, 0, 0, 20, 0, 0, true⟩ :: minedChain 20
    Params.testNet.nLyra2ZHeight < Params.testNet.TLRHeight ∧ 0 < Params.testNet.nLyra2ZHeight ∧
      Params.testNet.forkNumber (nHeight pb) = 2 ∧ getNetworkHash pb = none := by
  decide

end Taler
