import TalerModel.Chain.Theorems.Run

namespace Taler.ChainState

open Relation (ReflTransGen)

variable {β : Type} [DecidableEq β] {proof : β → Nat} {verdict : List β → List β → Verdict}

-- Whatever `ActivateBestChain` does to the chain state is a sequence of these changes.
inductive Move (verdict : List β → List β → Verdict) : ChainState proof → ChainState proof → Prop
  | drop {s : ChainState proof} (candidates : KeyedSet (nChainWork proof)) (lost : Bool)
      (hc : ∀ p ∈ candidates, p ∈ s.candidates) (hl : lost = false → s.lost = false) :
      Move verdict s { s with candidates := candidates, lost := lost }
  | mark {s : ChainState proof} {p : List β} (hp : ¬p <:+ s.tip) :
      Move verdict s (s.setEntry p { s.entry p with failedChild := true })
  | disconnect {s : ChainState proof} {t : List β} (ht : t <:+ s.tip) (hn : t ≠ []) :
      Move verdict s { s with tip := t }
  | connect {s : ChainState proof} {m p : List β} (hn : p ≠ []) (ht : p.tail = s.tip)
      (hc : s.Clean p) (hv : verdict m p = .accept) : Move verdict s (s.connectTip p)
  | reject {s : ChainState proof} {m p : List β} (hn : p ≠ []) (ht : p.tail = s.tip)
      (hc : s.Clean p) (hv : verdict m p = .invalid) :
      Move verdict s { s.setEntry p { s.entry p with failedValid := true } with
        failedBlocks := s.failedBlocks.insert p }

abbrev Moves (verdict : List β → List β → Verdict) : ChainState proof → ChainState proof → Prop :=
  ReflTransGen (Move verdict)

-- The active chain is complete without failure flags. Unlike in `Active`, work is arbitrary.
structure Standing (genesis : β) (s : ChainState proof) : Prop extends Tree genesis s where
  tip : s.tip ≠ []
  clean : s.Clean s.tip

variable {genesis : β} {s s1 s2 : ChainState proof} {m p q t : List β}

section

omit [DecidableEq β]

lemma Clean.suffix (h : s.Clean p) (hq : q <:+ p) : s.Clean q :=
  fun r hr => h r (hr.trans hq)

lemma Clean.congr (h : s1.Clean p) (hf : ∀ q, q <:+ p → s2.failed q = s1.failed q)
    (hc : ∀ q, q <:+ p → (s2.entry q).nChainTx = (s1.entry q).nChainTx) : s2.Clean p := by
  intro q hq hn
  rw [hf q hq, hc q hq]
  exact h q hq hn

lemma clean_nil (s : ChainState proof) : s.Clean [] :=
  fun _ hq hn => absurd (List.suffix_nil.mp hq) hn

end

lemma setEntry_field (s : ChainState proof) (p : List β) (e : IndexEntry) (g : IndexEntry → α)
    (h : g e = g (s.entry p)) (q) : g ((s.setEntry p e).entry q) = g (s.entry q) := by
  by_cases hq : q = p
  · rw [hq, setEntry_entry_self, h]
  · rw [setEntry_entry_ne s e hq]

lemma setEntry_failed_ne (e) (h : q ≠ p) : (s.setEntry p e).failed q = s.failed q := by
  rw [failed, setEntry_entry_ne s e h, failed]

lemma Clean.setEntry (h : s.Clean q) (e) (hp : ¬p <:+ q) : (s.setEntry p e).Clean q := by
  have hn r (hr : r <:+ q) : r ≠ p := fun he => hp (he ▸ hr)
  exact h.congr (fun r hr => setEntry_failed_ne e (hn r hr))
    (fun r hr => by rw [setEntry_entry_ne s e (hn r hr)])

namespace Standing

omit [DecidableEq β] in
lemma tip_mem (h : Standing genesis s) : s.tip ∈ s.blocks :=
  h.mem_of_complete (h.clean s.tip List.suffix_rfl h.tip).2

omit [DecidableEq β] in
lemma not_suffix_tip (h : Standing genesis s) (hf : s.failed t) (hn : t ≠ []) : ¬t <:+ s.tip := by
  intro ht
  simp [(h.clean t ht hn).1] at hf

lemma setEntry (h : Standing genesis s) (hp : ¬p <:+ s.tip) (ht : Tree genesis (s.setEntry p e)) :
    Standing genesis (s.setEntry p e) :=
  ⟨ht, h.tip, h.clean.setEntry e hp⟩

omit [DecidableEq β] in
lemma setTip (h : Standing genesis s) (ht : t <:+ s.tip) (hn : t ≠ []) :
    Standing genesis { s with tip := t } :=
  ⟨(Reflagged.setTip s t).tree h.toTree, hn, h.clean.suffix ht⟩

end Standing

section

omit [DecidableEq β] in
lemma not_suffix_of_tail (hn : p ≠ []) (ht : p.tail = t) : ¬p <:+ t := by
  have ⟨b, r, hb⟩ := List.exists_cons_of_ne_nil hn
  subst hb ht
  exact not_cons_suffix b r

lemma reject_reflagged (hp : p ∈ s.blocks) :
    Reflagged s { s.setEntry p { s.entry p with failedValid := true } with
      failedBlocks := s.failedBlocks.insert p } := by
  have hr : Reflagged s (s.setEntry p { s.entry p with failedValid := true }) :=
    .setEntry rfl rfl rfl (Nat.le_refl _) fun _ => rfl
  refine { hr with failedBlocks := fun h f hf => ?_ }
  cases List.mem_insert_iff.mp hf
  case inl he => exact ⟨he ▸ hp, by simp [he]⟩
  case inr hf => exact hr.failedBlocks h f hf

lemma Move.reflagged (h : Move verdict s1 s2) (ht : Tree genesis s1) : Reflagged s1 s2 := by
  cases h
  case drop hc hl => exact { Reflagged.refl s1 with candidates := hc, lost := hl }
  case mark => exact .setEntry rfl rfl rfl (Nat.le_refl _) id
  case disconnect => exact .setTip s1 _
  case connect => exact connectTip_reflagged s1 _
  case reject hn _ hc _ =>
    exact reject_reflagged (ht.mem_of_complete (hc _ List.suffix_rfl hn).2)

lemma Move.standing (h : Move verdict s1 s2) (hs : Standing genesis s1) :
    Standing genesis s2 := by
  have hr := h.reflagged hs.toTree
  have ht := hr.tree hs.toTree
  cases h
  case drop => exact ⟨ht, hs.tip, hs.clean⟩
  case mark hp => exact hs.setEntry hp ht
  case disconnect ht' hn => exact hs.setTip ht' hn
  case connect p hn _ hc _ =>
    refine ⟨ht, hn, Clean.congr hc (fun q _ => ?_) (fun q _ => hr.nChainTx q)⟩
    exact connectTip_failed s1 p q
  case reject hn ht' _ _ =>
    exact ⟨ht, hs.tip, hs.clean.setEntry _ (not_suffix_of_tail hn ht')⟩

lemma Moves.standing (h : Moves verdict s1 s2) (hs : Standing genesis s1) :
    Standing genesis s2 := by
  induction h
  case refl => exact hs
  case tail hm hi => exact hm.standing hi

lemma Moves.invariant {P : ChainState proof → Prop} (h : Moves verdict s1 s2)
    (hs : Standing genesis s1)
    (hm : ∀ s1 s2, Standing genesis s1 → Move verdict s1 s2 → P s1 → P s2) (hp : P s1) : P s2 := by
  induction h
  case refl => exact hp
  case tail h h' hi => exact hm _ _ (Moves.standing h hs) h' hi

end

section

lemma eraseCandidate_move (s : ChainState proof) (p) :
    Move verdict s (s.eraseCandidate verdict p) :=
  .drop _ _ (fun _ hc => (KeyedSet.mem_erase.mp hc).1) eraseCandidate_lost

lemma prune_move (h : s1.pruneBlockIndexCandidates = some s2) : Move verdict s1 s2 := by
  cases pruneBlockIndexCandidates_eq h
  exact .drop _ s1.lost (fun _ hc => (KeyedSet.mem_pruneBelow.mp hc).1) id

section

variable (hs : Standing genesis s) (hn : t ≠ []) (ht : t <:+ p) (hf : s.failed t)
include hs hn ht hf

lemma removeChain_moves : Moves verdict s (s.removeChain verdict t p) := by
  induction p generalizing s
  case nil => exact absurd (List.suffix_nil.mp ht) hn
  case cons b p hi =>
  simp only [removeChain, hf, if_true]
  split
  · exact .single (eraseCandidate_move s t)
  rename_i he
  let e := { s.entry (b :: p) with failedChild := true }
  let s' := s.setEntry (b :: p) e
  have ht' := List.suffix_cons_iff.mp ht |>.resolve_left (Ne.symm he)
  -- The block has a failed ancestor, so it is not on the active chain.
  have hm : Move verdict s s' := .mark fun hb => hs.not_suffix_tip hf hn (ht.trans hb)
  have hm' : Move verdict s' (s'.eraseCandidate verdict (b :: p)) := eraseCandidate_move s' _
  refine .head hm <| .head hm' <| hi (hm'.standing (hm.standing hs)) ht' ?_
  exact (setEntry_failed_ne e (Ne.symm he)).trans hf

lemma markFailedChild_moves : Moves verdict s (s.markFailedChild t p) := by
  induction p generalizing s
  case nil => exact .refl
  case cons b p hi =>
  simp only [markFailedChild]
  split
  · exact .refl
  rename_i he
  have ht' := List.suffix_cons_iff.mp ht |>.resolve_left (Ne.symm he)
  have hm : Move verdict s _ := .mark fun hb => hs.not_suffix_tip hf hn (ht.trans hb)
  refine .head hm <| hi (hm.standing hs) ht' ?_
  exact (setEntry_failed_ne _ (Ne.symm he)).trans hf

end

lemma failedAncestor_moves (hs : Standing genesis s) (ho : order.Perm s.failedBlocks)
    (h : s.failedAncestor order p = some (some s')) : Moves verdict s s' := by
  have ⟨f, hf, hfp, hv, he⟩ := failedAncestor_eq_some h
  have hn := hs.ne_nil (hs.failedBlocks f (ho.mem_iff.mp hf)).1
  exact he ▸ markFailedChild_moves hs hn hfp (by simp [failed, IndexEntry.failed, hv])

lemma findMostWorkChain_go_moves (hs : Standing genesis s1)
    (h : findMostWorkChain.go verdict fuel s1 = some (p, s2)) :
    Moves verdict s1 s2 ∧ s2.Clean p := by
  induction fuel generalizing s1
  case zero => simp [findMostWorkChain.go] at h
  case succ fuel hi =>
  simp only [findMostWorkChain.go] at h
  split at h
  case h_1 =>
    cases h
    exact ⟨.refl, clean_nil _⟩
  rename_i pindexNew hm
  have hc := hs.candidates _ (KeyedSet.max?_mem hm)
  split at h
  case h_1 => simp at h
  case h_2 hu =>
    cases h
    refine ⟨.refl, fun q hq hn => ⟨?_, hs.complete_suffix hc hq hn⟩⟩
    cases firstUnusable_none hu hq hn
    case inl hc => exact (hs.clean q (contains_iff.mp hc).2 hn).1
    case inr hf => exact hf
  case h_3 t ht =>
  obtain ⟨ht, hn, hf⟩ := firstUnusable_failed hs.toTree hc ht
  have hm : Moves verdict s1 _ := removeChain_moves hs hn ht hf
  obtain ⟨hm', hu⟩ := hi (Moves.standing hm hs) h
  exact ⟨hm.trans hm', hu⟩

lemma pathTo_suffix (h : q ∈ pathTo f p) : q <:+ p ∧ q ≠ [] := by
  induction p
  case nil => simp [pathTo] at h
  case cons b p hi =>
  simp only [pathTo] at h
  split at h
  · simp at h
  cases List.mem_append.mp h
  case inl h =>
    obtain ⟨hs, hn⟩ := hi h
    exact ⟨hs.trans (List.suffix_cons b p), hn⟩
  case inr h => simp [List.mem_singleton.mp h]

lemma connectPath_moves (hc : s1.Clean m) (hp : ∀ x ∈ path, x <:+ m ∧ x ≠ [])
    (h : connectPath verdict oldTip m path s1 = some (r, s2)) :
    Moves verdict s1 s2 ∧ (r ≠ .invalidFound → s2.Clean m) := by
  induction path generalizing s1
  case nil =>
    cases h
    exact ⟨.refl, fun _ => hc⟩
  case cons x path hi =>
  obtain ⟨hx, hn⟩ := hp x List.mem_cons_self
  simp only [connectPath] at h
  split at h
  · simp at h
  rename_i ht
  have ht := not_not.mp ht
  split at h
  case h_1 =>
    cases h
    exact ⟨.refl, fun _ => hc⟩
  case h_2 hv =>
    cases h
    exact ⟨.tail (.single (.reject hn ht (hc.suffix hx) hv)) (eraseCandidate_move ..), by simp⟩
  rename_i hv
  split at h
  case h_1 => simp at h
  rename_i s hs
  have hm : Moves verdict s1 s := .tail (.single (.connect hn ht (hc.suffix hx) hv)) (prune_move hs)
  have hc' : s.Clean m := by
    rw [pruneBlockIndexCandidates_eq hs]
    exact hc.congr (fun q _ => connectTip_failed s1 x q)
      (fun q _ => (connectTip_reflagged s1 x).nChainTx q)
  split at h
  · cases h
    exact ⟨hm, fun _ => hc'⟩
  obtain ⟨hm', hr⟩ := hi hc' (fun y hy => hp y (List.mem_cons_of_mem x hy)) h
  exact ⟨hm.trans hm', hr⟩

omit [DecidableEq β] in
lemma disconnectWhile_suffix (again) (hn : t ≠ []) :
    (disconnectWhile again t).1 <:+ t ∧ (disconnectWhile again t).1 ≠ [] := by
  induction t
  case nil => exact absurd rfl hn
  case cons b t hi =>
  cases t
  case nil => simp [disconnectWhile]
  case cons c t =>
  simp only [disconnectWhile]
  split
  · obtain ⟨hs, hn⟩ := hi (by simp)
    exact ⟨hs.trans (List.suffix_cons b _), hn⟩
  · simp

lemma activateBestChainStep_moves (hs : Standing genesis s1) (hc : s1.Clean m)
    (h : s1.activateBestChainStep verdict m = some (r, s2)) :
    Moves verdict s1 s2 ∧ (r ≠ .invalidFound → s2.Clean m) := by
  obtain ⟨ht, hn⟩ := disconnectWhile_suffix (· ≠ s1.findFork m) hs.tip
  simp only [activateBestChainStep] at h
  split at h
  · cases h
    exact ⟨.single (.disconnect ht hn), fun _ => hc⟩
  let s := { s1 with tip := (disconnectWhile (· ≠ s1.findFork m) s1.tip).1 }
  have hc' : s.Clean m := hc
  obtain ⟨hm, hd⟩ := connectPath_moves hc' (fun x => pathTo_suffix) h
  exact ⟨.head (.disconnect ht hn) hm, hd⟩

def Activation.Heads (a : Activation proof) : Prop :=
  a.chain.Clean a.pindexMostWork

lemma ensureMostWork_moves (hs : Standing genesis a1.chain) (hh : a1.Heads)
    (h : ensureMostWork verdict a1 = some a2) : Moves verdict a1.chain a2.chain ∧ a2.Heads := by
  simp only [ensureMostWork] at h
  split at h
  · cases h
    exact ⟨.refl, hh⟩
  obtain ⟨⟨p, s⟩, hf, he⟩ := Option.map_eq_some_iff.mp h
  subst he
  exact findMostWorkChain_go_moves hs hf

lemma activateInner_moves (hs : Standing genesis a.chain) (hh : a.Heads)
    (h : activateInner verdict startingTip fuel a = some r) :
    Moves verdict a.chain r.chain ∧ ∀ a', r = .proceed a' → a'.Heads := by
  induction fuel generalizing a
  case zero => simp [activateInner] at h
  case succ fuel hi =>
  obtain ⟨a1, ha, hc⟩ := activateInner_cases h
  obtain ⟨hm1, hh1⟩ := ensureMostWork_moves hs hh ha
  cases hc
  case inl hc =>
    cases hc.2
    exact ⟨hm1, by simpa using hh1⟩
  rename_i hc
  obtain ⟨result, s, hs2, hc⟩ := hc
  obtain ⟨hm2, hd⟩ := activateBestChainStep_moves (Moves.standing hm1 hs) hh1 hs2
  have hm := hm1.trans hm2
  have hh2 : (a1.afterStep result s).Heads := by
    cases result
    case invalidFound => exact clean_nil s
    case done | systemError => exact hd (by simp)
  rcases hc with ⟨_, hc⟩ | hc | hc
  · subst hc
    exact ⟨hm, by simp⟩
  · obtain ⟨hm3, hh3⟩ := hi (Moves.standing hm hs) hh2 hc
    exact ⟨hm.trans hm3, hh3⟩
  subst hc
  refine ⟨hm, fun a' he => ?_⟩
  cases he
  exact hh2

lemma activateOuter_moves (hs : Standing genesis a.chain) (hh : a.Heads)
    (h : activateOuter verdict fuel a = some (b, s)) : Moves verdict a.chain s := by
  induction fuel generalizing a
  case zero => simp [activateOuter] at h
  case succ fuel hi =>
  obtain ⟨r, hi', hc⟩ := activateOuter_cases h
  obtain ⟨hm, hh'⟩ := activateInner_moves (a := { a with blocksConnected := false }) hs hh hi'
  rcases hc with hc | ⟨a', hc, ⟨_, he, _⟩ | h⟩
  · subst hc
    exact hm
  · subst hc he
    exact hm
  subst hc
  exact hm.trans (hi (Moves.standing hm hs) (hh' a' rfl) h)

lemma activateBestChain_moves (hs : Standing genesis s1)
    (h : s1.activateBestChain verdict fuel = some (b, s2)) : Moves verdict s1 s2 :=
  activateOuter_moves (a := { chain := s1 }) hs (clean_nil s1) h

end

end Taler.ChainState
