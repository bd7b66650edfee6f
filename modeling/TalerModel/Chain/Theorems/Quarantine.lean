import TalerModel.Chain.Theorems.Standing

namespace Taler.ChainState

open List

variable {β : Type} [DecidableEq β] {proof : β → Nat} {verdict : List β → List β → Verdict}
variable {genesis : β} {s s1 s2 : ChainState proof} {f p q t : List β}
variable {failedOrder done order : List (List β)} {events : List (Event β)}

-- `AcceptBlockHeader` sees that the block descends from a failed one in `m_failed_blocks`.
def Traced (s : ChainState proof) (q : List β) : Prop :=
  (s.entry q).validity < BLOCK_VALID_SCRIPTS ∧ ∃ r ∈ s.failedBlocks, r <:+ q

-- Every descendant of a failed block is flagged or traced, if only blocks that connect are valid.
structure Quarantine (verdict : List β → List β → Verdict) (s : ChainState proof) : Prop where
  tested : ∀ q, BLOCK_VALID_SCRIPTS ≤ (s.entry q).validity → connectable verdict q
  tip : connectable verdict s.tip
  shut : ∀ f ∈ s.blocks, (s.entry f).failedValid → ∀ q ∈ s.blocks, f <:+ q → s.failed q ∨ s.Traced q

section

lemma markFailedChild_blocks : (s.markFailedChild f t).blocks = s.blocks := by
  induction t generalizing s
  case nil => rfl
  case cons b t hi =>
  simp only [markFailedChild]
  split
  · rfl
  · exact hi

lemma Traced.failedAncestor (h : s.Traced q) (ht : Tree genesis s)
    (ho : failedOrder.Perm s.failedBlocks) :
    ∃ f, s.failedAncestor failedOrder q = some (some (s.markFailedChild f q)) := by
  have ⟨hv, r, hr, hrq⟩ := h
  have hi : (s.entry q).isValid BLOCK_VALID_SCRIPTS = false := by
    simp [IndexEntry.isValid, Nat.not_le.mpr hv]
  simp only [ChainState.failedAncestor, hi, Bool.false_eq_true, if_false]
  split
  case h_1 hn =>
    have hg := getAncestor_eq hrq (ht.ne_nil (ht.failedBlocks r hr).1)
    have := find?_eq_none.mp hn r (ho.mem_iff.mpr hr)
    simp [hg] at this
  case h_2 f hf =>
  have hv := ht.failedBlocks f (ho.mem_iff.mp (mem_of_find?_eq_some hf)) |>.right
  exact ⟨f, by simp [hv]⟩

lemma Quarantine.rejects (h : Quarantine verdict s) (hs : Tree genesis s) (hf : f ∈ s.blocks)
    (hv : (s.entry f).failedValid) (hp : p ∉ s.blocks) (ht : p.tail ∈ s.blocks) (hfp : f <:+ p)
    (ho : failedOrder.Perm s.failedBlocks) (flags) :
    ∃ s', s.acceptHeader failedOrder p flags = some s' ∧ s'.blocks = s.blocks := by
  have hft : f <:+ p.tail := by
    cases p
    case nil => exact hfp
    case cons b p => exact (suffix_cons_iff.mp hfp).resolve_left fun he => hp (he ▸ hf)
  simp only [acceptHeader]
  cases hx : s.failed p.tail
  case true => exact ⟨s, rfl, rfl⟩
  have ht := (h.shut f hf hv p.tail ht hft).resolve_left (by simp [hx])
  obtain ⟨f, hfa⟩ := ht.failedAncestor hs ho
  exact ⟨s.markFailedChild f p.tail, by simp [hfa], markFailedChild_blocks⟩

end

section

omit [DecidableEq β] in
lemma Traced.of_le (h : s1.Traced q)
    (hv : (s2.entry q).validity < BLOCK_VALID_SCRIPTS ∨
      (s2.entry q).validity = (s1.entry q).validity)
    (hf : ∀ r ∈ s1.failedBlocks, r ∈ s2.failedBlocks) : s2.Traced q := by
  have ⟨hq, r, hr, hrq⟩ := h
  exact ⟨hv.elim id (fun he => he ▸ hq), r, hf r hr, hrq⟩

omit [DecidableEq β] in
lemma Quarantine.of_le (h : Quarantine verdict s1) (hb : s2.blocks = s1.blocks)
    (ht : s2.tip <:+ s1.tip) (hv : ∀ q, (s2.entry q).failedValid = (s1.entry q).failedValid)
    (hf : ∀ q, s1.failed q → s2.failed q)
    (hval : ∀ q, (s2.entry q).validity < BLOCK_VALID_SCRIPTS ∨
      (s2.entry q).validity = (s1.entry q).validity)
    (hfb : ∀ r ∈ s1.failedBlocks, r ∈ s2.failedBlocks) : Quarantine verdict s2 where
  tested q hq := by
    refine h.tested q ?_
    rcases hval q with hq' | he
    · omega
    · exact he ▸ hq
  tip := connectable_suffix h.tip ht
  shut f hm hv' q hq hfq := by
    rw [hb] at hm hq
    exact (h.shut f hm (hv f ▸ hv') q hq hfq).imp (hf q) fun ht => ht.of_le (hval q) hfb

lemma Quarantine.condemn (h : Quarantine verdict s)
    (hd : ∀ q ∈ s.blocks, p <:+ q → q ≠ p →
      s.failed q ∨ (s.entry q).validity < BLOCK_VALID_SCRIPTS) :
    Quarantine verdict { s.setEntry p { s.entry p with failedValid := true } with
      failedBlocks := s.failedBlocks.insert p } where
  tested q hq := by
    have hv := setEntry_field s p { s.entry p with failedValid := true } IndexEntry.validity rfl q
    exact h.tested q (hv ▸ hq)
  tip := h.tip
  shut f hf hv q hq hfq := by
    by_cases hqp : q = p
    · subst hqp
      exact .inl (by simp [failed, IndexEntry.failed])
    have hfail : s.failed q → (s.setEntry p { s.entry p with failedValid := true }).failed q :=
      (setEntry_failed_ne _ hqp).trans
    by_cases hfp : f = p
    · subst hfp
      refine (hd q hq hfq hqp).imp hfail fun hv => ?_
      refine ⟨?_, f, mem_insert_self, hfq⟩
      exact (setEntry_entry_ne s _ hqp).symm ▸ hv
    have hv : (s.entry f).failedValid := (setEntry_entry_ne s _ hfp) ▸ hv
    refine (h.shut f hf hv q hq hfq).imp hfail fun ht => ht.of_le (.inr ?_) ?_
    · exact congrArg _ (setEntry_entry_ne s _ hqp)
    · exact fun r => mem_insert_of_mem

end

section

omit [DecidableEq β] in
lemma exists_child_suffix (h : f <:+ q) (hn : f ≠ q) : ∃ r, r.tail = f ∧ r <:+ q := by
  induction q
  case nil => exact absurd (suffix_nil.mp h) hn
  case cons b q hi =>
  have h := (suffix_cons_iff.mp h).resolve_left hn
  by_cases he : f = q
  · exact ⟨b :: q, he.symm, suffix_rfl⟩
  have ⟨r, hr, hrq⟩ := hi h he
  exact ⟨r, hr, hrq.trans (suffix_cons b q)⟩

omit [DecidableEq β] in
lemma connectable_of_tip (hn : p ≠ []) (ht : connectable verdict p.tail)
    (hv : verdict p p = .accept) : connectable verdict p := by
  have ⟨b, r, hb⟩ := exists_cons_of_ne_nil hn
  subst hb
  refine connectable_iff.mpr fun q hq hq' => ?_
  cases suffix_cons_iff.mp hq
  case inl he => exact he ▸ hv
  case inr hq => exact connectable_iff.mp ht q hq hq'

lemma failed_of_mark (he : e.failed) (h : s.failed q) : (s.setEntry p e).failed q := by
  by_cases hq : q = p
  · rwa [hq, failed, setEntry_entry_self]
  · rwa [setEntry_failed_ne e hq]

variable {connect : List β → Verdict}

lemma Move.quarantine (hm : Move (fun _ => connect) s1 s2) (hs : Standing genesis s1)
    (h : Quarantine (fun _ => connect) s1) : Quarantine (fun _ => connect) s2 := by
  cases hm
  case drop =>
    exact h.of_le rfl suffix_rfl (fun _ => rfl) (fun _ => id) (fun _ => .inr rfl) fun _ => id
  case mark p hp =>
    refine h.of_le rfl suffix_rfl (fun q => ?_) (fun q => failed_of_mark ?_) (fun q => .inr ?_)
      fun _ => id
    · exact setEntry_field s1 p { s1.entry p with failedChild := true } IndexEntry.failedValid rfl q
    · simp [IndexEntry.failed]
    · exact setEntry_field s1 p { s1.entry p with failedChild := true } IndexEntry.validity rfl q
  case disconnect ht _ =>
    exact h.of_le rfl ht (fun _ => rfl) (fun _ => id) (fun _ => .inr rfl) fun _ => id
  case connect p hn ht hc hv =>
    have hp := connectable_of_tip hn (ht ▸ h.tip) hv
    refine ⟨fun q hq => ?_, hp, fun f hf hv q hq hfq => ?_⟩
    · by_cases hqp : q = p
      · exact hqp ▸ hp
      refine h.tested q ?_
      rwa [connectTip, setEntry_entry_ne s1 _ hqp] at hq
    have hv' : (s1.entry f).failedValid := by
      have he : ((s1.entry p).raiseValidity BLOCK_VALID_SCRIPTS).failedValid =
          (s1.entry p).failedValid := by
        simp only [IndexEntry.raiseValidity]
        split <;> rfl
      have he := setEntry_field s1 p _ IndexEntry.failedValid he f
      exact he ▸ hv
    -- The block that is connected has no failed ancestor.
    have hqp : q ≠ p := by
      rintro rfl
      have := (hc f hfq (hs.ne_nil hf)).1
      simp [failed, IndexEntry.failed, hv'] at this
    refine (h.shut f hf hv' q hq hfq).imp (fun hq => ?_) fun hq => hq.of_le (.inr ?_) fun _ => id
    · rwa [connectTip_failed]
    · exact congrArg _ (setEntry_entry_ne s1 _ hqp)
  case reject p hn ht hc hv =>
  refine h.condemn fun q _ hpq _ => .inr ?_
  by_contra hq
  have hq := connectable_iff.mp (h.tested q (Nat.not_lt.mp hq)) p hpq (ht ▸ hs.tip)
  simp [hv] at hq

lemma Moves.quarantine (hm : Moves (fun _ => connect) s1 s2) (hs : Standing genesis s1)
    (h : Quarantine (fun _ => connect) s1) : Quarantine (fun _ => connect) s2 :=
  hm.invariant hs (fun _ _ hs hm => hm.quarantine hs) h

lemma Quarantine.addToBlockIndex (h : Quarantine verdict s) (hs : Standing genesis s)
    (hp : p ∉ s.blocks) (ht : p.tail ∈ s.blocks) (ho : failedOrder.Perm s.failedBlocks)
    (hr : s.acceptHeader failedOrder p flags = some (s.addToBlockIndex p flags)) :
    Quarantine verdict (s.addToBlockIndex p flags) := by
  have he q (hq : q ≠ p) : (s.addToBlockIndex p flags).entry q = s.entry q :=
    addToBlockIndex_entry_ne hq
  refine ⟨fun q hq => ?_, h.tip, fun f hf hv q hq hfq => ?_⟩
  · by_cases hqp : q = p
    · subst hqp
      simp [ChainState.addToBlockIndex, BLOCK_VALID_TREE, BLOCK_VALID_SCRIPTS] at hq
    · exact h.tested q (he q hqp ▸ hq)
  have hfp : f ≠ p := by
    rintro rfl
    simp [ChainState.addToBlockIndex] at hv
  have hf' : f ∈ s.blocks := (mem_append.mp hf).resolve_right (by simpa using hfp)
  have hv' : (s.entry f).failedValid := he f hfp ▸ hv
  cases mem_append.mp hq
  case inl hq =>
    have hqp : q ≠ p := fun he => hp (he ▸ hq)
    refine (h.shut f hf' hv' q hq hfq).imp (fun hq => ?_) fun hq => hq.of_le (.inr ?_) fun _ => id
    · rwa [failed, he q hqp]
    · rw [he q hqp]
  rename_i hq
  have hq := mem_singleton.mp hq
  subst hq
  obtain ⟨s', hr', hb⟩ := h.rejects hs.toTree hf' hv' hp ht hfq ho flags
  cases hr.symm.trans hr'
  exact absurd (hb ▸ mem_append_right _ mem_cons_self) hp

lemma Quarantine.acceptHeader (h : Quarantine (fun _ => connect) s1) (hs : Standing genesis s1)
    (hp : p ∉ s1.blocks) (ht : p.tail ∈ s1.blocks) (ho : failedOrder.Perm s1.failedBlocks)
    (hr : s1.acceptHeader failedOrder p flags = some s2) : Quarantine (fun _ => connect) s2 := by
  rcases acceptHeader_cases hr with hr' | hr' | hr'
  · exact hr' ▸ h
  · exact Moves.quarantine (failedAncestor_moves hs ho hr') hs h
  subst hr'
  exact h.addToBlockIndex hs hp ht ho hr

lemma receivedBlockTransactions_field (hs : Tree genesis s) (hp : p ∈ s.blocks)
    (hf : s.failed p = false) (hd : (s.entry p).haveData = false) (hx : nTx ≠ 0)
    (g : IndexEntry → α) (hg : ∀ e n, g { e with nChainTx := n } = g e)
    (hr : g (s.receivedEntry p nTx) = g (s.entry p)) (q) :
    g ((s.receivedBlockTransactions verdict p nTx).entry q) = g (s.entry q) := by
  have ⟨n, he, _⟩ := (receivedBlockTransactions_counts verdict hs hp hf hd hx).entry q
  rw [he, hg, setEntry_field s p _ g hr]

lemma Quarantine.receivedBlockTransactions (h : Quarantine verdict s) (hs : Tree genesis s)
    (hp : p ∈ s.blocks) (hf : s.failed p = false) (hd : (s.entry p).haveData = false) (hx : nTx ≠ 0) :
    Quarantine verdict (s.receivedBlockTransactions verdict p nTx) := by
  have hc := receivedBlockTransactions_counts verdict hs hp hf hd hx
  have he : s.receivedEntry p nTx = _ := receivedEntry_eq hf
  refine h.of_le hc.blocks ?_ (fun q => ?_) (fun q hq => ?_) (fun q => ?_) fun r hr => ?_
  · exact hc.tip ▸ suffix_rfl
  · refine receivedBlockTransactions_field hs hp hf hd hx IndexEntry.failedValid (fun _ _ => rfl) ?_ q
    rw [he]
  · refine Eq.trans ?_ hq
    refine receivedBlockTransactions_field hs hp hf hd hx IndexEntry.failed (fun _ _ => rfl) ?_ q
    rw [he]
    rfl
  · have ⟨n, hn, _⟩ := hc.entry q
    rw [hn]
    by_cases hq : q = p
    · rw [hq, setEntry_entry_self, he]
      simp only [BLOCK_VALID_TRANSACTIONS, BLOCK_VALID_SCRIPTS]
      omega
    · exact .inr (by rw [setEntry_entry_ne s _ hq])
  · exact hc.failedBlocks ▸ hr

lemma Quarantine.markFailedValid (h : Quarantine verdict s) (hs : Tree genesis s)
    (hc : ∀ q ∈ s.blocks, q.tail ≠ p) :
    Quarantine verdict (s.setEntry p { s.entry p with failedValid := true }) := by
  have hv := setEntry_field s p { s.entry p with failedValid := true } IndexEntry.validity rfl
  refine ⟨fun q hq => h.tested q (hv q ▸ hq), h.tip, fun f hf hv' q hq hfq => ?_⟩
  have hmark : ({ s.entry p with failedValid := true } : IndexEntry).failed := by
    simp [IndexEntry.failed]
  by_cases hfp : f = p
  · subst hfp
    have hqf : q = f := by
      by_contra hn
      obtain ⟨r, hr, hrq⟩ := exists_child_suffix hfq (Ne.symm hn)
      have hrn : r ≠ [] := fun he => hs.ne_nil hf (by simp [← hr, he])
      exact hc r (hs.suffix_mem hq hrq hrn) hr
    subst hqf
    exact .inl (by rwa [failed, setEntry_entry_self])
  rw [setEntry_entry_ne s _ hfp] at hv'
  exact (h.shut f hf hv' q hq hfq).imp (failed_of_mark hmark) fun ht =>
    ht.of_le (.inr (hv q)) fun _ => id

lemma markInvalid_failed (h : s.failed q) : (s.markInvalid p t).failed q := by
  induction t generalizing s
  case nil => exact h
  case cons b t hi =>
  simp only [markInvalid]
  split
  · exact h
  · exact hi (failed_of_mark (by simp [IndexEntry.failed]) h)

lemma markInvalid_marks (hq : q <:+ t) (hp : p <:+ q) (hn : q ≠ p) :
    (s.markInvalid p t).failed q := by
  induction t generalizing s
  case nil =>
    rw [suffix_nil.mp hq] at hp hn
    exact absurd (suffix_nil.mp hp).symm hn
  case cons b t hi =>
  simp only [markInvalid]
  split
  case isTrue he =>
    exact absurd (hq.eq_of_length (Nat.le_antisymm hq.length_le (he ▸ hp.length_le)))
      fun hq => hn (hq.trans he)
  cases suffix_cons_iff.mp hq
  case inl he =>
    refine markInvalid_failed ?_
    rw [he, failed, setEntry_entry_self]
    simp [IndexEntry.failed]
  case inr hq => exact hi hq

lemma markInvalid_validity : ((s.markInvalid p t).entry q).validity = (s.entry q).validity := by
  induction t generalizing s
  case nil => rfl
  case cons b t hi =>
  simp only [markInvalid]
  split
  · rfl
  refine hi.trans ?_
  exact setEntry_field s (b :: t) { s.entry (b :: t) with failedChild := true } _ rfl q

omit [DecidableEq β] in
lemma Quarantine.congr (h : Quarantine verdict s1) (hb : s2.blocks = s1.blocks)
    (ht : s2.tip = s1.tip) (he : s2.entry = s1.entry) (hf : s2.failedBlocks = s1.failedBlocks) :
    Quarantine verdict s2 :=
  h.of_le hb (ht ▸ suffix_rfl) (fun q => by rw [he]) (fun q hq => by rwa [failed, he])
    (fun q => .inr (by rw [he])) (fun r hr => hf ▸ hr)

lemma Quarantine.readdCandidates (h : Quarantine verdict s) :
    Quarantine verdict (order.foldl (readdCandidate verdict) s) := by
  induction order generalizing s
  case nil => exact h
  case cons q order hi =>
  exact hi <| h.congr insertCandidateIf_blocks insertCandidateIf_tip insertCandidateIf_entry
    insertCandidateIf_failedBlocks

lemma Quarantine.invalidateBlock (h : Quarantine (fun _ => connect) s) (hs : Standing genesis s)
    (hc : ∀ q ∈ s.blocks, p <:+ q → q ≠ p → (s.entry q).isValid BLOCK_VALID_SCRIPTS → q <:+ s.tip) :
    Quarantine (fun _ => connect) (s.invalidateBlock (fun _ => connect) order p).2 := by
  have ⟨t, ht, hn, hcases⟩ := invalidateBlock_cases (fun _ => connect) order p hs rfl
  have hm : Move (fun _ => connect) s { s with tip := t } := .disconnect ht hn
  have h1 := hm.quarantine hs h
  rcases hcases with he | ⟨ha, walk, hw, hwalk, he⟩
  · exact he ▸ h1
  rw [he]
  let s2 := { s with tip := t }.markInvalid p walk
  have hm2 : Moves (fun _ => connect) { s with tip := t } s2 := markInvalid_moves ha hw
  have h2 := Moves.quarantine hm2 (hm.standing hs) h1
  have hb : s2.blocks = s.blocks := (markInvalid_spec hw).1.blocks
  have h3 := h2.condemn fun q hq hpq hqp => by
    by_cases hv : (s.entry q).isValid BLOCK_VALID_SCRIPTS
    · have hq := hc q (hb ▸ hq) hpq hqp hv
      have hp : s.contains p := contains_iff.mpr ⟨fun he => ha (he ▸ nil_suffix), hpq.trans hq⟩
      rw [if_pos hp] at hwalk
      exact .inl (markInvalid_marks (hwalk ▸ hq) hpq hqp)
    simp only [IndexEntry.isValid, Bool.and_eq_true, Bool.not_eq_true', decide_eq_true_eq,
      not_and_or, Bool.not_eq_false] at hv
    refine hv.imp markInvalid_failed fun hv => ?_
    rw [markInvalid_validity]
    exact Nat.not_le.mp hv
  have h4 : Quarantine (fun _ => connect) (s2.markFailed p) := h3.congr rfl rfl rfl rfl
  exact h4.readdCandidates

lemma Quarantine.preciousBlock (h : Quarantine (fun _ => connect) s1) (hs : Standing genesis s1)
    (hr : s1.preciousBlock (fun _ => connect) fuel p = some (b, s2)) :
    Quarantine (fun _ => connect) s2 := by
  rcases preciousBlock_moves hs hr with he | ⟨c, hs, hm⟩
  · exact he ▸ h
  · exact Moves.quarantine hm hs (h.congr rfl rfl rfl rfl)

structure Flagging (s0 s : ChainState proof) (done : List (List β)) : Prop where
  validity : ∀ q, (s.entry q).validity = (s0.entry q).validity
  failedValid : ∀ q, (s.entry q).failedValid = (s0.entry q).failedValid
  closed : ∀ q ∈ done, q.tail = [] ∨ q.tail ∈ done
  passed : ∀ q ∈ done, q.tail ≠ [] → s.failed q.tail → s.failed q

lemma loadEntry_field {g : IndexEntry → α} (hg : g (s.loadedEntry p) = g (s.entry p)) (q) :
    g ((s.loadEntry verdict p).entry q) = g (s.entry q) := by
  rw [loadEntry_entry]
  exact setEntry_field s p _ g hg q

lemma Flagging.loadEntry {s0 : ChainState proof} (h : Flagging s0 s done) (hn : p ≠ [])
    (hd : p ∉ done) (ht : p.tail = [] ∨ p.tail ∈ done) :
    Flagging s0 (s.loadEntry verdict p) (p :: done) := by
  have hne q (hq : q ≠ p) : (s.loadEntry verdict p).failed q = s.failed q := by
    rw [failed, loadEntry_entry, countEntry_entry_ne hq, failed]
  constructor
  case validity => exact fun q => (loadEntry_field rfl q).trans (h.validity q)
  case failedValid => exact fun q => (loadEntry_field rfl q).trans (h.failedValid q)
  case closed => exact closed_cons h.closed ht
  case passed =>
  intro q hq hqt hf
  cases mem_cons.mp hq
  case inl he =>
    subst he
    rw [hne _ (tail_ne_self hn)] at hf
    rw [failed, loadEntry_entry, countEntry_entry_self]
    simp only [loadedEntry, IndexEntry.failed, hf]
    cases (s.entry q).failedValid <;> cases (s.entry q).failedChild <;> simp [hqt]
  rename_i hq
  have hqp : q ≠ p := fun he => hd (he ▸ hq)
  have hqt' : q.tail ≠ p := fun he => hd (he ▸ (h.closed q hq).resolve_left hqt)
  rw [hne _ hqt'] at hf
  rw [hne _ hqp]
  exact h.passed q hq hqt hf

omit [DecidableEq β] in
lemma Flagging.failed_of_suffix (h : Flagging s0 s done) (ht : Tree genesis s)
    (hd : ∀ p ∈ s.blocks, p ∈ done) (hf : s.failed f) (hn : f ≠ []) (hq : q ∈ s.blocks)
    (hfq : f <:+ q) : s.failed q := by
  induction q
  case nil => exact absurd (suffix_nil.mp hfq) hn
  case cons b q hi =>
  cases suffix_cons_iff.mp hfq
  case inl he => exact he ▸ hf
  case inr hfq =>
  have hqn := hfq.ne_nil hn
  exact h.passed _ (hd _ hq) hqn (hi (ht.parent _ hq hqn) hfq)

lemma foldl_loadEntry_tip : (order.foldl (loadEntry verdict) s).tip = s.tip := by
  induction order generalizing s
  case nil => rfl
  case cons p order hi => exact hi.trans loadEntry_tip

lemma Quarantine.restart (h : Quarantine verdict s1) (hs : Standing genesis s1)
    (ho : order.Perm s1.blocks) (hsort : order.Pairwise (·.length ≤ ·.length))
    (hr : s1.restart verdict order = some s2) : Quarantine verdict s2 := by
  let s := order.foldl (loadEntry verdict) s1.reloaded
  have hb : s.blocks = s1.blocks := foldl_loadEntry_blocks
  have ht : s.tip = s1.tip := foldl_loadEntry_tip
  have ⟨done, ⟨hrel, hl⟩, hd⟩ := load_rule verdict
    (P := fun s done => Reloading genesis s done ∧ Flagging s1 s done)
    (fun s done p h hp hd ht =>
      ⟨h.1.loadEntry hp hd ht, h.2.loadEntry (h.1.tree.ne_nil hp) hd ht⟩)
    ⟨hs.reloading hs.tip_mem hs.clean, fun _ => rfl, fun _ => rfl, by simp, by simp⟩
    hs.toTree.reloaded ho hsort
  have hq : Quarantine verdict s := by
    refine ⟨fun q hq => h.tested q (hl.validity q ▸ hq), ht ▸ h.tip, fun f hf hv q hq hfq => ?_⟩
    have hd p (hp : p ∈ s.blocks) : p ∈ done := hd p (hb ▸ hp)
    have hf' : s.failed f := by simp [failed, IndexEntry.failed, hv]
    exact .inl (hl.failed_of_suffix hrel.tree hd hf' (hrel.tree.ne_nil hf) hq hfq)
  rw [pruneBlockIndexCandidates_eq hr]
  exact hq.congr rfl rfl rfl rfl

end

section

-- A condition on the calls of a run, in the states in which they are made.
def Meets (verdict : List β → List β → Verdict) (cond : ChainState proof → Event β → Prop) :
    List (Event β) → ChainState proof → Prop
  | [], _ => True
  | e :: events, s => cond s e ∧ ∀ s' ∈ s.step verdict e, Meets verdict cond events s'

instance {cond : ChainState proof → Event β → Prop} [∀ s e, Decidable (cond s e)] :
    (events : List (Event β)) → (s : ChainState proof) → Decidable (Meets verdict cond events s)
  | [], _ => inferInstanceAs (Decidable True)
  | e :: events, s =>
    have (s' : ChainState proof) : Decidable (Meets verdict cond events s') :=
      instDecidableMeets events s'
    inferInstanceAs (Decidable (cond s e ∧ ∀ s' ∈ s.step verdict e, Meets verdict cond events s'))

-- An invariant that every call under the condition keeps holds at the end of a run that meets it.
lemma run_rule {P : ChainState proof → Prop} {cond : ChainState proof → Event β → Prop}
    (hstep : ∀ s1 s2 e, P s1 → e.Legal s1 → cond s1 e → s1.perform verdict e = some s2 → P s2)
    (h : P s1) (hm : Meets verdict cond events s1) (hr : run verdict events s1 = some s2) :
    P s2 := by
  induction events generalizing s1
  case nil =>
    cases hr
    exact h
  case cons e events hi =>
  have ⟨s, hs, hr⟩ := Option.bind_eq_some_iff.mp hr
  have ⟨he, hp⟩ := step_eq_some hs
  exact hi (hstep s1 s e h he hm.1 hp) (hm.2 s hs) hr

-- What a call has to meet so that `AcceptBlockHeader` can tell every descendant of a failed block:
-- `AcceptBlock` finds a block invalid before any header builds on it, and every descendant with
-- valid scripts of a block that is invalidated is on the active chain.
def Event.Confined (s : ChainState proof) : Event β → Prop
  | .invalidData pindex => ∀ q ∈ s.blocks, q.tail ≠ pindex
  | .invalidate _ pindex =>
    ∀ q ∈ s.blocks, pindex <:+ q → q ≠ pindex → (s.entry q).isValid BLOCK_VALID_SCRIPTS →
      q <:+ s.tip
  | .reset .. => False
  | _ => True

instance (s : ChainState proof) : (e : Event β) → Decidable (e.Confined s)
  | .invalidData .. | .invalidate .. => inferInstanceAs (Decidable (∀ q ∈ s.blocks, _))
  | .reset .. => inferInstanceAs (Decidable False)
  | .header .. | .block .. | .activate .. | .precious .. | .restart .. =>
    inferInstanceAs (Decidable True)

variable {connect : List β → Verdict}

lemma Quarantine.perform (h : Quarantine (fun _ => connect) s1) (hs : Standing genesis s1)
    (he : e.Legal s1) (hc : e.Confined s1) (hr : s1.perform (fun _ => connect) e = some s2) :
    Quarantine (fun _ => connect) s2 := by
  cases e <;>
    simp only [ChainState.perform, Option.some.injEq, Option.map_eq_some_iff, Prod.exists] at hr
  case header =>
    obtain ⟨hp, ht, ho⟩ := he
    exact h.acceptHeader hs hp ht ho hr
  case block =>
    obtain ⟨hp, hx, hf, hd⟩ := he
    exact hr ▸ h.receivedBlockTransactions hs.toTree hp hf hd hx
  case invalidData => exact hr ▸ h.markFailedValid hs.toTree hc
  case activate =>
    obtain ⟨b, s, hr', hs'⟩ := hr
    subst hs'
    exact Moves.quarantine (activateBestChain_moves hs hr') hs h
  case invalidate => exact hr ▸ h.invalidateBlock hs hc
  case reset => exact hc.elim
  case precious =>
    obtain ⟨b, s, hr', hs'⟩ := hr
    subst hs'
    exact h.preciousBlock hs hr'
  case restart => exact h.restart hs he.1 he.2 hr

lemma init_quarantine : Quarantine verdict (init proof genesis nTx) where
  tested q hq := by
    by_cases hg : q = [genesis]
    · simp [hg, connectable]
    · simp [init_entry_ne hg, BLOCK_VALID_SCRIPTS] at hq
  tip := by simp [init, connectable]
  shut f hf hv := by
    rw [init_blocks hf, init_entry_self] at hv
    simp at hv

-- No descendant of a failed block ever enters the index, as long as the calls are confined.
theorem acceptHeader_rejects_descendant (connect : List β → Verdict) (genesis : β) (nTx : Nat)
    (hx : nTx ≠ 0)
    (hc : Meets (fun _ => connect) (fun s e => e.Confined s) events (init proof genesis nTx))
    (hr : run (fun _ => connect) events (init proof genesis nTx) = some s) (hf : f ∈ s.blocks)
    (hv : (s.entry f).failedValid) (hp : p ∉ s.blocks) (ht : p.tail ∈ s.blocks) (hfp : f <:+ p)
    (ho : failedOrder.Perm s.failedBlocks) (flags : HeaderFlags) :
    ∃ s', s.acceptHeader failedOrder p flags = some s' ∧ p ∉ s'.blocks := by
  have ⟨hs, hq⟩ := run_rule
    (P := fun s => Standing genesis s ∧ Quarantine (fun _ => connect) s)
    (fun _ _ _ h he hc hr => ⟨h.1.perform he hr, h.2.perform h.1 he hc hr⟩)
    ⟨init_standing hx, init_quarantine⟩ hc hr
  have ⟨s', hr', hb⟩ := hq.rejects hs.toTree hf hv hp ht hfp ho flags
  exact ⟨s', hr', hb ▸ hp⟩

theorem acceptHeader_rejects_descendant_traced :
    ∃ s s' : ChainState unitWork,
    run (fun _ p => if p = [1, 0] then .invalid else .accept)
      [.header [] [1, 0] {}, .header [] [2, 1, 0] {}, .block [1, 0] 1, .activate 3]
      (init _ 0 1) = some s ∧ (s.entry [1, 0]).failedValid ∧
    s.acceptHeader s.failedBlocks [3, 2, 1, 0] {} = some s' ∧ [3, 2, 1, 0] ∉ s'.blocks := by
  let connect : List Nat → Verdict := fun p => if p = [1, 0] then .invalid else .accept
  let events : List (Event Nat) :=
    [.header [] [1, 0] {}, .header [] [2, 1, 0] {}, .block [1, 0] 1, .activate 3]
  have ⟨s, hr, hf, hv, hp, ht⟩ :
      ∃ s, run (fun _ => connect) events (init unitWork 0 1) = some s ∧ [1, 0] ∈ s.blocks ∧
        (s.entry [1, 0]).failedValid ∧ [3, 2, 1, 0] ∉ s.blocks ∧ [2, 1, 0] ∈ s.blocks := by
    decide +kernel
  have hc : Meets (fun _ => connect) (fun s e => e.Confined s) events (init unitWork 0 1) := by
    decide +kernel
  have ⟨s', hr', hp'⟩ := acceptHeader_rejects_descendant connect 0 1 (by simp) hc hr hf hv hp ht
    (by decide) (.refl _) {}
  exact ⟨s, s', hr, hv, hr', hp'⟩

-- A header is on top of a block when that fails `CheckBlock`, or on a once active branch.
theorem acceptHeader_accepts_descendant :
    (∃ s s' : ChainState unitWork,
      run (fun _ _ => .accept)
        [.header [] [1, 0] {}, .header [] [2, 1, 0] {}, .invalidData [1, 0]] (init _ 0 1) = some s ∧
      (s.entry [1, 0]).failedValid ∧
      s.acceptHeader s.failedBlocks [3, 2, 1, 0] {} = some s' ∧ [3, 2, 1, 0] ∈ s'.blocks) ∧
    ∃ s s' : ChainState unitWork,
      run (fun _ _ => .accept)
        [.header [] [1, 0] {}, .header [] [2, 1, 0] {}, .block [1, 0] 1, .block [2, 1, 0] 1,
          .activate 3, .header [] [3, 1, 0] {}, .header [] [4, 3, 1, 0] {}, .block [3, 1, 0] 1,
          .block [4, 3, 1, 0] 1, .activate 3,
          .invalidate [[0], [1, 0], [2, 1, 0], [3, 1, 0], [4, 3, 1, 0]] [1, 0]] (init _ 0 1) = some s ∧
      (s.entry [1, 0]).failedValid ∧
      s.acceptHeader s.failedBlocks [5, 2, 1, 0] {} = some s' ∧ [5, 2, 1, 0] ∈ s'.blocks := by
  simp only [exists_and_left]
  decide +kernel

end

end Taler.ChainState
