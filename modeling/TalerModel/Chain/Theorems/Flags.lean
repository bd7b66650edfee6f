import TalerModel.Chain.Theorems.Standing

namespace Taler.ChainState

variable {β : Type} [DecidableEq β] {proof : β → Nat} {verdict : List β → List β → Verdict}
variable {genesis : β} {s s1 s2 s3 : ChainState proof} {p q t : List β}
variable {order queue : List (List β)}

def headerFlags (e : IndexEntry) : HeaderFlags where
  stakeModifier := e.stakeModifier
  newFormat := e.newFormat

def fixedPart (e : IndexEntry) : HeaderFlags × Nat × Bool :=
  (headerFlags e, e.nTx, e.haveData)

-- The index has the same entries, with the same bits from their headers.
structure SameIndex (s1 s2 : ChainState proof) : Prop where
  blocks : s2.blocks = s1.blocks
  flags : ∀ p, headerFlags (s2.entry p) = headerFlags (s1.entry p)

-- The index has the same entries, and the blocks of the same ones have arrived.
structure SameData (s1 s2 : ChainState proof) : Prop where
  blocks : s2.blocks = s1.blocks
  fixed : ∀ p, fixedPart (s2.entry p) = fixedPart (s1.entry p)

omit [DecidableEq β] in
lemma SameData.sameIndex (h : SameData s1 s2) : SameIndex s1 s2 :=
  ⟨h.blocks, fun p => congrArg Prod.fst (h.fixed p)⟩

omit [DecidableEq β] in
lemma SameData.haveData (h : SameData s1 s2) (p) : (s2.entry p).haveData = (s1.entry p).haveData :=
  congrArg (fun x => x.2.2) (h.fixed p)

namespace SameData

section

omit [DecidableEq β]

lemma refl (s : ChainState proof) : SameData s s :=
  ⟨rfl, fun _ => rfl⟩

lemma trans (h1 : SameData s1 s2) (h2 : SameData s2 s3) : SameData s1 s3 :=
  ⟨h2.blocks.trans h1.blocks, fun p => (h2.fixed p).trans (h1.fixed p)⟩

lemma of_eq (hb : s2.blocks = s1.blocks) (he : s2.entry = s1.entry) : SameData s1 s2 :=
  ⟨hb, fun p => by rw [he]⟩

end

lemma setEntry (h : fixedPart e = fixedPart (s.entry p)) : SameData s (s.setEntry p e) :=
  ⟨rfl, setEntry_field s p e fixedPart h⟩

lemma insertCandidateIf : SameData s (s.insertCandidateIf verdict c p) :=
  of_eq insertCandidateIf_blocks insertCandidateIf_entry

omit [DecidableEq β] in
lemma foldl (h : ∀ s p, SameData s (f s p)) : SameData s (order.foldl f s) := by
  induction order generalizing s
  case nil => exact refl s
  case cons p order hi => exact (h s p).trans hi

end SameData

lemma fixedPart_raiseValidity (e n) : fixedPart (e.raiseValidity n) = fixedPart e := by
  rw [IndexEntry.raiseValidity]
  split <;> rfl

lemma Move.sameData (h : Move verdict s1 s2) : SameData s1 s2 := by
  cases h
  case drop => exact .of_eq rfl rfl
  case mark => exact .setEntry rfl
  case disconnect => exact .of_eq rfl rfl
  case connect p _ _ _ _ =>
    have h := SameData.setEntry (fixedPart_raiseValidity (s1.entry p) BLOCK_VALID_SCRIPTS)
    exact ⟨h.blocks, h.fixed⟩
  case reject p _ _ _ _ =>
  have h : SameData s1 (s1.setEntry p { s1.entry p with failedValid := true }) := .setEntry rfl
  exact ⟨h.blocks, h.fixed⟩

lemma Moves.sameData (h : Moves verdict s1 s2) : SameData s1 s2 := by
  induction h
  case refl => exact .refl s1
  case tail _ hm hi => exact hi.trans hm.sameData

omit [DecidableEq β] in
lemma Counts.sameData (h : Counts s1 s2) : SameData s1 s2 := by
  refine ⟨h.blocks, fun p => ?_⟩
  have ⟨n, he, _⟩ := h.entry p
  rw [he]
  rfl

lemma markInvalid_sameData (s : ChainState proof) (p t) : SameData s (s.markInvalid p t) := by
  induction t generalizing s
  case nil => exact .refl s
  case cons b t hi =>
  simp only [markInvalid]
  split
  · exact .refl s
  let e : IndexEntry := { s.entry (b :: t) with failedChild := true }
  have h : SameData s (s.setEntry (b :: t) e) := .setEntry rfl
  let s' : ChainState proof :=
    { s.setEntry (b :: t) e with candidates := s.candidates.erase (b :: t) }
  have h' : SameData s s' := ⟨h.blocks, h.fixed⟩
  exact h'.trans (hi s')

lemma markFailedChild_sameData (s : ChainState proof) (p t) :
    SameData s (s.markFailedChild p t) := by
  induction t generalizing s
  case nil => exact .refl s
  case cons b t hi =>
  simp only [markFailedChild]
  split
  · exact .refl s
  have h : SameData s (s.setEntry (b :: t) { s.entry (b :: t) with failedChild := true }) :=
    .setEntry rfl
  exact h.trans (hi _)

lemma invalidateBlock_sameData (s : ChainState proof) (order : List (List β)) (p) :
    SameData s (s.invalidateBlock verdict order p).2 := by
  simp only [invalidateBlock]
  split
  · exact .of_eq rfl rfl
  let s' : ChainState proof := { s with tip := (disconnectWhile (p.isSuffixOf ·) s.tip).1 }
  have htip : SameData s s' := .of_eq rfl rfl
  have hmark := htip.trans (markInvalid_sameData s' p (if s.contains p then s.tip else p))
  have hfail (s : ChainState proof) : SameData s (s.markFailed p) := by
    have h : SameData s (s.setEntry p { s.entry p with failedValid := true }) := .setEntry rfl
    exact ⟨h.blocks, h.fixed⟩
  exact (hmark.trans (hfail _)).trans (.foldl fun _ _ => .insertCandidateIf)

lemma clearFailed_sameData (s : ChainState proof) (p) : SameData s (s.clearFailed p) := by
  have h : SameData s (s.setEntry p (s.entry p).clearFailed) := .setEntry rfl
  exact ⟨h.blocks, h.fixed⟩

lemma resetAncestors_sameData (s : ChainState proof) (p) : SameData s (s.resetAncestors p) := by
  induction p generalizing s
  case nil => exact .refl s
  case cons b p hi =>
  simp only [resetAncestors]
  split
  · exact (clearFailed_sameData s _).trans (hi _)
  · exact hi s

lemma resetBlockFailureFlags_sameData (s : ChainState proof) (order : List (List β))
    (p) : SameData s (s.resetBlockFailureFlags verdict order p) := by
  refine SameData.trans (.foldl fun s q => ?_) (resetAncestors_sameData _ p)
  rw [resetDescendant]
  split
  · exact (clearFailed_sameData s q).trans .insertCandidateIf
  · exact .refl s

lemma restart_sameData (h : s1.restart verdict order = some s2) : SameData s1 s2 := by
  have hload (s : ChainState proof) (p : List β) : SameData s (s.loadEntry verdict p) := by
    refine ⟨loadEntry_blocks, fun q => ?_⟩
    rw [loadEntry_entry]
    exact setEntry_field s p (s.loadedEntry p) fixedPart rfl q
  have hr : SameData s1 s1.reloaded := ⟨rfl, fun _ => rfl⟩
  have hm : Move verdict _ s2 := prune_move h
  exact (hr.trans (.foldl hload)).trans hm.sameData

lemma receivedBlockTransactions_sameData (verdict)
    (h : Standing genesis s) (he : (Event.block p nTx).Legal s) :
    SameData (s.setEntry p (s.receivedEntry p nTx)) (s.receivedBlockTransactions verdict p nTx) := by
  have ⟨hp, hx, hf, hd⟩ := he
  exact (receivedBlockTransactions_counts verdict h.toTree hp hf hd hx).sameData

lemma perform_sameData (h : Standing genesis s1) (he : e.Legal s1)
    (hb : ∀ p nTx, e ≠ .block p nTx) (hr : s1.perform verdict e = some s2) :
    SameData s1 s2 ∨
      ∃ failedOrder p flags, e = .header failedOrder p flags ∧ s2 = s1.addToBlockIndex p flags := by
  cases e <;>
    simp only [ChainState.perform, Option.some.injEq, Option.map_eq_some_iff, Prod.exists] at hr
  case header failedOrder p flags =>
    rcases acceptHeader_cases hr with hr | hr | hr
    · exact .inl (hr ▸ .refl s1)
    · obtain ⟨f, _, _, _, he⟩ := failedAncestor_eq_some hr
      exact .inl (he ▸ markFailedChild_sameData s1 f p.tail)
    · exact .inr ⟨failedOrder, p, flags, rfl, hr⟩
  case block p nTx => exact absurd rfl (hb p nTx)
  case invalidData => exact .inl (hr ▸ .setEntry rfl)
  case activate =>
    obtain ⟨b, s, hr', hs⟩ := hr
    exact .inl (hs ▸ Moves.sameData (activateBestChain_moves h hr'))
  case invalidate => exact .inl (hr ▸ invalidateBlock_sameData ..)
  case reset => exact .inl (hr ▸ resetBlockFailureFlags_sameData ..)
  case precious fuel p =>
    obtain ⟨b, s, hr', hs⟩ := hr
    subst hs
    rcases preciousBlock_moves h hr' with he | ⟨c, _, hm⟩
    · exact .inl (he ▸ .refl s1)
    have h0 : SameData s1 (s1.replaceCandidate verdict c p) := .of_eq rfl rfl
    exact .inl (h0.trans (Moves.sameData hm))
  case restart => exact .inl (restart_sameData hr)

omit [DecidableEq β] in
lemma headerFlags_receivedEntry (s : ChainState proof) (p : List β) (nTx) :
    headerFlags (s.receivedEntry p nTx) = headerFlags (s.entry p) :=
  congrArg Prod.fst (fixedPart_raiseValidity _ _)

lemma perform_sameIndex (h : Standing genesis s1) (he : e.Legal s1)
    (hr : s1.perform verdict e = some s2) :
    SameIndex s1 s2 ∨
      ∃ failedOrder p flags, e = .header failedOrder p flags ∧ s2 = s1.addToBlockIndex p flags := by
  by_cases hb : ∃ p nTx, e = .block p nTx
  · obtain ⟨p, nTx, rfl⟩ := hb
    have hs := (receivedBlockTransactions_sameData verdict h he).sameIndex
    obtain rfl := Option.some.inj hr
    refine .inl ⟨hs.blocks, fun q => (hs.flags q).trans ?_⟩
    exact setEntry_field s1 p _ headerFlags (headerFlags_receivedEntry s1 p nTx) q
  push Not at hb
  exact (perform_sameData h he hb hr).imp_left SameData.sameIndex

end Taler.ChainState
