import TalerModel.Chain.Arrival
import TalerModel.Chain.Theorems.Ancestor

namespace Taler.ChainState

open KeyedSet

variable {β : Type} {proof : β → Nat} {verdict : List β → List β → Verdict}
variable {s s1 s2 : ChainState proof} {g p q : List β}

lemma connectable_iff :
    connectable verdict p ↔ ∀ q, q <:+ p → q.tail ≠ [] → verdict q q = .accept := by
  simp only [connectable, List.all_eq_true, List.mem_tails, Bool.or_eq_true, decide_eq_true_eq]
  exact forall₂_congr fun q _ => or_iff_not_imp_left

lemma good_iff :
    s.good verdict p ↔
    (∀ q, q <:+ p → q ≠ [] → s.failed q = false ∧ (s.entry q).nChainTx ≠ 0) ∧
    connectable verdict p := by
  simp only [good, Bool.and_eq_true, List.all_eq_true, List.mem_tails, Bool.or_eq_true,
    decide_eq_true_eq, Bool.not_eq_true', ne_eq]
  exact and_congr_left' <| forall₂_congr fun q _ => or_iff_not_imp_left

lemma live_iff :
    s.live verdict p ↔
    s.failed p = false ∧ (s.entry p).nChainTx ≠ 0 ∧ connectable verdict p := by
  simp [live, and_assoc]

lemma connectable_suffix (h : connectable verdict p) (hq : q <:+ p) : connectable verdict q :=
  connectable_iff.mpr fun r hr hn => connectable_iff.mp h r (hr.trans hq) hn

lemma good_suffix (h : s.good verdict p) (hq : q <:+ p) : s.good verdict q := by
  have ⟨h, hc⟩ := good_iff.mp h
  exact good_iff.mpr ⟨fun r hr hn => h r (hr.trans hq) hn, connectable_suffix hc hq⟩

lemma good_live (h : s.good verdict p) (hn : p ≠ []) : s.live verdict p := by
  have ⟨h, hc⟩ := good_iff.mp h
  have ⟨hf, ht⟩ := h p List.suffix_rfl hn
  exact live_iff.mpr ⟨hf, ht, hc⟩

lemma good_congr (hf : ∀ q, q <:+ p → q ≠ [] → s2.failed q = s1.failed q)
    (ht : ∀ q, q <:+ p → q ≠ [] → (s2.entry q).nChainTx = (s1.entry q).nChainTx) :
    s2.good verdict p = s1.good verdict p := by
  rw [Bool.eq_iff_iff, good_iff, good_iff]
  exact and_congr_left' <| forall₃_congr fun q hq hn => by rw [hf q hq hn, ht q hq hn]

lemma live_congr (hf : s2.failed p = s1.failed p)
    (ht : (s2.entry p).nChainTx = (s1.entry p).nChainTx) : s2.live verdict p = s1.live verdict p := by
  simp [live, hf, ht]

def Represented (verdict : List β → List β → Verdict) (s : ChainState proof) (p : List β) : Prop :=
  ∃ q ∈ s.candidates, nChainWork proof q = nChainWork proof p ∧ (q = p ∨ s.good verdict q)

-- The set has a block `g` to return to, and no block with more work than `g` is missing from it.
structure GuardedBy (verdict : List β → List β → Verdict) (s : ChainState proof) (g : List β) :
    Prop where
  mem : g ∈ s.candidates
  ne_nil : g ≠ []
  good : s.good verdict g
  cover : ∀ p, s.live verdict p → nChainWork proof g < nChainWork proof p → Represented verdict s p

lemma Represented.mono (h : Represented verdict s1 p)
    (hc : ∀ q ∈ s1.candidates, nChainWork proof q = nChainWork proof p → q ∈ s2.candidates)
    (hg : ∀ q, s1.good verdict q → s2.good verdict q) : Represented verdict s2 p := by
  have ⟨q, hq, hw, h⟩ := h
  exact ⟨q, hc q hq hw, hw, h.imp_right (hg q)⟩

lemma ne_nil_of_work_lt (h : nChainWork proof g < nChainWork proof p) : p ≠ [] := by
  intro hn
  simp [hn, nChainWork] at h

lemma pruneBlockIndexCandidates_eq (h : s1.pruneBlockIndexCandidates = some s2) :
    s2 = { s1 with candidates := s1.candidates.pruneBelow (nChainWork proof s1.tip) } := by
  simp only [pruneBlockIndexCandidates, Option.ite_none_left_eq_some, Option.some.injEq] at h
  exact h.2.symm

lemma GuardedBy.prune (h : GuardedBy verdict s1 g) (hw : nChainWork proof s1.tip ≤ nChainWork proof g)
    (hp : s1.pruneBlockIndexCandidates = some s2) : GuardedBy verdict s2 g := by
  cases pruneBlockIndexCandidates_eq hp
  refine ⟨mem_pruneBelow.mpr ⟨h.mem, hw⟩, h.ne_nil, h.good, fun q hl hq => ?_⟩
  refine h.cover q hl hq |>.mono (fun r hr he => ?_) (fun _ => id)
  exact mem_pruneBelow.mpr ⟨hr, by omega⟩

lemma GuardedBy.advance (h : GuardedBy verdict s g) (hp : s.good verdict p)
    (hw : nChainWork proof g < nChainWork proof p) :
    ∃ g', GuardedBy verdict s g' ∧ nChainWork proof g' = nChainWork proof p := by
  have hn := ne_nil_of_work_lt hw
  have ⟨q, hq, hw', hg⟩ := h.cover p (good_live hp hn) hw
  have hg : s.good verdict q := hg.elim (· ▸ hp) id
  refine ⟨q, ⟨hq, ne_nil_of_work_lt (hw' ▸ hw), hg, fun r hl hr => ?_⟩, hw'⟩
  exact h.cover r hl (by omega)

lemma GuardedBy.of_le (h : GuardedBy verdict s1 g) (hc : s2.candidates = s1.candidates)
    (hg : ∀ q, s1.good verdict q → s2.good verdict q)
    (hl : ∀ q, s2.live verdict q → s1.live verdict q) : GuardedBy verdict s2 g where
  mem := hc ▸ h.mem
  ne_nil := h.ne_nil
  good := hg g h.good
  cover q hq hw := h.cover q (hl q hq) hw |>.mono (fun _ hr _ => hc ▸ hr) hg

variable [DecidableEq β]

section

lemma mem_insertCandidate_of_mem (h : q ∈ s.candidates) :
    q ∈ (s.insertCandidate verdict p).candidates :=
  mem_insert_of_mem h

lemma insertCandidate_lost (h : (s.insertCandidate verdict p).lost = false) : s.lost = false := by
  simp only [insertCandidate, Bool.or_eq_false_iff] at h
  exact h.1

lemma insertCandidate_represented (hl : s.live verdict p)
    (h : (s.insertCandidate verdict p).lost = false) :
    Represented verdict (s.insertCandidate verdict p) p := by
  have hs (q) : (s.insertCandidate verdict p).good verdict q = s.good verdict q := rfl
  simp only [insertCandidate, hl, Bool.true_and, Bool.or_eq_false_iff, List.any_eq_false,
    List.mem_filter] at h
  by_cases hc : ∃ q ∈ s.candidates, q ≠ p ∧ nChainWork proof q = nChainWork proof p
  · obtain ⟨q, hq, hn, hw⟩ := hc
    have hg := h.2 q ⟨hq, by simp [hn, hw]⟩
    exact ⟨q, mem_insertCandidate_of_mem hq, hw, .inr <| by simpa [hs] using hg⟩
  refine ⟨p, mem_insert_self fun q hq hw => ?_, rfl, .inl rfl⟩
  by_contra hn
  exact hc ⟨q, hq, hn, hw⟩

lemma insertCandidate_displaced (h : (s.insertCandidate verdict p).displaced = false) :
    s.displaced = false := by
  simp only [ChainState.insertCandidate, Bool.or_eq_false_iff] at h
  exact h.1

lemma tip_mem_insertCandidate (h : (s.insertCandidate verdict s.tip).displaced = false) :
    s.tip ∈ (s.insertCandidate verdict s.tip).candidates := by
  simp only [ChainState.insertCandidate, decide_true, Bool.true_and, Bool.or_eq_false_iff,
    Bool.not_eq_false', List.isEmpty_iff, List.filter_eq_nil_iff] at h
  refine mem_insert_self fun q hq hw => ?_
  by_contra hn
  exact h.2 q hq (by simp [hn, hw])

section

variable {c : Bool}

lemma insertCandidateIf_lost (h : (s.insertCandidateIf verdict c p).lost = false) :
    s.lost = false := by
  cases c
  case false => exact h
  case true => exact insertCandidate_lost h

lemma insertCandidateIf_displaced (h : (s.insertCandidateIf verdict c p).displaced = false) :
    s.displaced = false := by
  cases c
  case false => exact h
  case true => exact insertCandidate_displaced h

lemma mem_insertCandidateIf_of_mem (h : q ∈ s.candidates) :
    q ∈ (s.insertCandidateIf verdict c p).candidates := by
  cases c
  case false => exact h
  case true => exact mem_insertCandidate_of_mem h

@[simp]
lemma insertCandidateIf_entry : (s.insertCandidateIf verdict c p).entry = s.entry := by
  cases c <;> rfl

@[simp]
lemma insertCandidateIf_tip : (s.insertCandidateIf verdict c p).tip = s.tip := by
  cases c <;> rfl

@[simp]
lemma insertCandidateIf_blocks : (s.insertCandidateIf verdict c p).blocks = s.blocks := by
  cases c <;> rfl

@[simp]
lemma insertCandidateIf_unlinked : (s.insertCandidateIf verdict c p).unlinked = s.unlinked := by
  cases c <;> rfl

@[simp]
lemma insertCandidateIf_good :
    (s.insertCandidateIf verdict c p).good verdict q = s.good verdict q := by
  cases c <;> rfl

@[simp]
lemma insertCandidateIf_live :
    (s.insertCandidateIf verdict c p).live verdict q = s.live verdict q := by
  cases c <;> rfl

lemma Represented.insertCandidateIf (h : Represented verdict s q) :
    Represented verdict (s.insertCandidateIf verdict c p) q :=
  h.mono (fun _ hr _ => mem_insertCandidateIf_of_mem hr) fun _ hr => by rwa [insertCandidateIf_good]

lemma insertCandidateIf_represented (hc : c) (hp : s.live verdict p)
    (h : (s.insertCandidateIf verdict c p).lost = false) :
    Represented verdict (s.insertCandidateIf verdict c p) p := by
  subst hc
  exact insertCandidate_represented hp h

lemma GuardedBy.insertCandidateIf (h : GuardedBy verdict s1 g)
    (hc : s2.candidates = s1.candidates) (hg : ∀ q, s1.good verdict q → s2.good verdict q)
    (hl : ∀ q, q ≠ p → s2.live verdict q → s1.live verdict q)
    (hp : s2.live verdict p → nChainWork proof g < nChainWork proof p → c)
    (hs : (s2.insertCandidateIf verdict c p).lost = false) :
    GuardedBy verdict (s2.insertCandidateIf verdict c p) g := by
  refine ⟨mem_insertCandidateIf_of_mem (hc ▸ h.mem), h.ne_nil, ?_, fun q hq hw => ?_⟩
  · rw [insertCandidateIf_good]
    exact hg g h.good
  rw [insertCandidateIf_live] at hq
  by_cases hn : q = p
  · subst hn
    exact insertCandidateIf_represented (hp hq hw) hq hs
  have hr : Represented verdict s2 q := h.cover q (hl q hn hq) hw |>.mono (fun _ hr _ => hc ▸ hr) hg
  exact hr.insertCandidateIf

omit [DecidableEq β] in
lemma foldl_flag {flag : ChainState proof → Bool} {order : List (List β)}
    (hf : ∀ s p, flag (f s p) = false → flag s = false) (h : flag (order.foldl f s) = false) :
    flag s = false := by
  induction order generalizing s
  case nil => exact h
  case cons p order hi => exact hf s p (hi h)

end

end

section

lemma eraseCandidate_lost (h : (s.eraseCandidate verdict p).lost = false) : s.lost = false := by
  simp only [eraseCandidate, Bool.or_eq_false_iff] at h
  exact h.1

lemma mem_eraseCandidate (hp : s.live verdict p = false)
    (h : (s.eraseCandidate verdict p).lost = false) (hq : q ∈ s.candidates)
    (hl : s.live verdict q) : q ∈ (s.eraseCandidate verdict p).candidates := by
  simp only [eraseCandidate, Bool.or_eq_false_iff, List.any_eq_false, List.mem_filter] at h
  refine mem_erase.mpr ⟨hq, fun hw => ?_⟩
  have hn : q ≠ p := by
    intro he
    simp [he, hp] at hl
  exact h.2 q ⟨hq, by simp [hn, hw]⟩ hl

lemma GuardedBy.eraseCandidate (h : GuardedBy verdict s g) (hp : s.live verdict p = false)
    (hs : (s.eraseCandidate verdict p).lost = false) :
    GuardedBy verdict (s.eraseCandidate verdict p) g where
  mem := mem_eraseCandidate hp hs h.mem (good_live h.good h.ne_nil)
  ne_nil := h.ne_nil
  good := h.good
  cover q hl hw := by
    have ⟨r, hr, hw', hr'⟩ := h.cover q hl hw
    have hn : r ≠ [] := ne_nil_of_work_lt (hw' ▸ hw)
    have hl : s.live verdict r := by
      cases hr'
      case inl he => exact he ▸ hl
      case inr hg => exact good_live hg hn
    exact ⟨r, mem_eraseCandidate hp hs hr hl, hw', hr'⟩

end

section

@[simp]
lemma setEntry_entry_self (s : ChainState proof) (p : List β) (e) :
    (s.setEntry p e).entry p = e := by
  simp [setEntry]

@[simp]
lemma setEntry_tip (s : ChainState proof) (p : List β) (e) : (s.setEntry p e).tip = s.tip :=
  rfl

lemma setEntry_entry_ne (s : ChainState proof) (e) (h : q ≠ p) :
    (s.setEntry p e).entry q = s.entry q := by
  simp [setEntry, h]

lemma good_of_mark (hp : s.good verdict p = false) (hq : s.good verdict q) :
    (s.setEntry p e).good verdict q := by
  have hn r (hr : r <:+ q) : r ≠ p := by
    intro he
    simp [he ▸ good_suffix hq hr] at hp
  have hc : (s.setEntry p e).good verdict q = s.good verdict q := by
    refine good_congr (fun r hr _ => ?_) (fun r hr _ => ?_)
    · simp [failed, setEntry_entry_ne s e (hn r hr)]
    · simp [setEntry_entry_ne s e (hn r hr)]
  exact hc.trans hq

lemma live_of_mark (he : e.failed) (hq : (s.setEntry p e).live verdict q) : s.live verdict q := by
  have hn : q ≠ p := by
    intro h
    simp [live_iff, failed, h, he] at hq
  have hc : (s.setEntry p e).live verdict q = s.live verdict q :=
    live_congr (by simp [failed, setEntry_entry_ne s e hn]) (by simp [setEntry_entry_ne s e hn])
  exact hc.symm.trans hq

lemma GuardedBy.mark (h : GuardedBy verdict s g) (hp : s.good verdict p = false) (he : e.failed) :
    GuardedBy verdict (s.setEntry p e) g :=
  h.of_le rfl (fun _ => good_of_mark hp) (fun _ => live_of_mark he)

end

end Taler.ChainState
