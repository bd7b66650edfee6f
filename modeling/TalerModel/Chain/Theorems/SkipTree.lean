import TalerModel.Chain.CChain

namespace Taler

variable {α : Type}

-- Trees with skip pointers. An entry starts with a null one, and `BuildSkip` may set it later.
inductive SkipTree [DecidableEq α] : Set (List α) → (List α → List α) → Prop
  | genesis (g : α) : SkipTree {[g]} fun _ => []
  | add {T pskip b p} : SkipTree T pskip → p ∈ T → SkipTree (insert (b :: p) T) pskip
  | build {T pskip p} : SkipTree T pskip → p ∈ T →
    SkipTree T (Function.update pskip p (buildSkip pskip p))

variable {T : Set (List α)} {pskip : List α → List α} {p q pa pb : List α} {height : Nat}

lemma findAncestor_eq (h : SkipsTo pskip p) (hn : p ≠ []) (height : Nat) :
    findAncestor pskip p height = some (getAncestor p height) := by
  rw [findAncestor]
  split
  case isTrue hc =>
    simp only [Bool.or_eq_true, decide_eq_true_eq] at hc
    rw [getAncestor, if_pos (by omega)]
  rename_i hc
  simp only [Bool.or_eq_true, decide_eq_true_eq, not_or] at hc
  exact ancestorLoop_eq h hn (by omega) (Nat.le_refl _)

lemma findAncestor_neg {height : Int} (h : height < 0) : findAncestor pskip p height = some [] := by
  rw [findAncestor, if_pos (by simp [h])]

lemma stepDown_eq [DecidableEq α] (h : pa.length = pb.length) :
    stepDown pa pb = (lastCommon pa pb, lastCommon pa pb) := by
  induction pa generalizing pb
  case nil =>
    cases pb
    case nil => rfl
    case cons => nomatch h
  case cons a pa hi =>
  cases pb
  case nil => nomatch h
  case cons b pb =>
  rw [stepDown, lastCommon]
  split
  case isTrue he => rw [← he]
  · exact hi (Nat.succ_inj.mp h)

namespace SkipTree

-- What is known about the entries of a tree. An entry that is not in it has no skip pointer yet.
structure Valid (T : Set (List α)) (pskip : List α → List α) : Prop where
  ne_nil : ∀ p ∈ T, p ≠ []
  closed : ∀ p ∈ T, ∀ q, q <:+ p → q ≠ [] → q ∈ T
  rooted : ∃ g, ∀ p ∈ T, [g] <:+ p
  skips : ∀ p, pskip p = [] ∨ pskip p = getAncestor p (getSkipHeight (nHeight p))

lemma Valid.skipsTo (h : Valid T pskip) (p) : SkipsTo pskip p :=
  fun q _ => h.skips q

lemma Valid.insert (h : Valid T pskip) (hp : p ∈ T) : Valid (insert (b :: p) T) pskip where
  ne_nil := by
    rintro q (rfl | hq)
    · exact List.cons_ne_nil b p
    · exact h.ne_nil q hq
  closed := by
    rintro q (rfl | hq) r hr hn
    · cases List.suffix_cons_iff.mp hr
      case inl hr => exact .inl hr
      case inr hr => exact .inr (h.closed p hp r hr hn)
    · exact .inr (h.closed q hq r hr hn)
  rooted := by
    have ⟨g, hg⟩ := h.rooted
    refine ⟨g, ?_⟩
    rintro q (rfl | hq)
    · exact (hg p hp).trans (List.suffix_cons b p)
    · exact hg q hq
  skips := h.skips

variable [DecidableEq α]

lemma valid (h : SkipTree T pskip) : Valid T pskip := by
  induction h
  case genesis g =>
    refine ⟨?_, ?_, ⟨g, ?_⟩, fun _ => .inl rfl⟩
    · rintro p rfl
      exact List.cons_ne_nil g []
    · rintro p rfl q hq hn
      exact (List.suffix_cons_iff.mp hq).resolve_right fun hq => hn (List.suffix_nil.mp hq)
    rintro p rfl
    exact List.suffix_rfl
  case add hp hi => exact hi.insert hp
  case build p _ _ hi =>
  refine ⟨hi.ne_nil, hi.closed, hi.rooted, fun q => ?_⟩
  by_cases hq : q = p
  · rw [hq, Function.update_self]
    exact buildSkip_eq (hi.skipsTo p.tail) (hi.skips p)
  rw [Function.update_of_ne hq]
  exact hi.skips q

lemma Valid.findLastCommonAncestor_eq (h : Valid T pskip) (ha : pa ≠ []) (hb : pb ≠ []) :
    findLastCommonAncestor pskip pa pb = some (lastCommonAncestor pa pb) := by
  rw [findLastCommonAncestor, lastCommonAncestor]
  split
  case isTrue hgt =>
    obtain ⟨_, hl⟩ := getAncestor_lower hgt hb
    rw [findAncestor_eq (h.skipsTo pa) ha]
    simp [stepDown_eq hl]
  rename_i hle
  split
  case isTrue hgt =>
    obtain ⟨_, hl⟩ := getAncestor_lower hgt ha
    rw [findAncestor_eq (h.skipsTo pb) hb]
    simp [stepDown_eq hl.symm]
  rename_i hge
  have hl : pa.length = pb.length := by
    have := List.length_pos_of_ne_nil ha
    have := List.length_pos_of_ne_nil hb
    simp only [nHeight] at hle hge
    omega
  simp [stepDown_eq hl]

lemma Valid.lastCommonAncestor_mem (h : Valid T pskip) (ha : pa ∈ T) (hb : pb ∈ T) :
    lastCommonAncestor pa pb ∈ T := by
  have ⟨g, hg⟩ := h.rooted
  have ⟨hs, _, hall⟩ := lastCommonAncestor_suffix (h.ne_nil pa ha) (h.ne_nil pb hb)
  refine h.closed pa ha _ hs fun hn => ?_
  have := (hall [g] (hg pa ha) (hg pb hb)).length_le
  rw [hn] at this
  exact absurd this (by simp)

-- In every tree the lookups end, at the only ancestor of that height and the highest common one.
theorem ancestors_exact (h : SkipTree T pskip) :
    (∀ p ∈ T, ∀ height ≤ nHeight p, ∃ a ∈ T, findAncestor pskip p height = some a ∧
      (a <:+ p ∧ nHeight a = height) ∧ ∀ q ∈ T, q <:+ p → nHeight q = height → q = a) ∧
    ∀ pa ∈ T, ∀ pb ∈ T, ∃ a ∈ T, findLastCommonAncestor pskip pa pb = some a ∧
      (a <:+ pa ∧ a <:+ pb) ∧ ∀ q, q <:+ pa → q <:+ pb → q <:+ a ∧ nHeight q ≤ nHeight a := by
  have hv := h.valid
  constructor
  · intro p hp height hh
    have hn := hv.ne_nil p hp
    have hs := getAncestor_isSuffix p height
    have ha := nHeight_getAncestor hh hn
    refine ⟨_, hv.closed p hp _ hs (getAncestor_ne_nil hh hn), findAncestor_eq (hv.skipsTo p) hn
      height, ⟨hs, ha⟩, ?_⟩
    intro q hq hqs hqh
    exact hqh ▸ (getAncestor_eq hqs (hv.ne_nil q hq)).symm
  intro pa ha pb hb
  have hna := hv.ne_nil pa ha
  have hnb := hv.ne_nil pb hb
  have ⟨hsa, hsb, hall⟩ := lastCommonAncestor_suffix hna hnb
  refine ⟨_, hv.lastCommonAncestor_mem ha hb, hv.findLastCommonAncestor_eq hna hnb, ⟨hsa, hsb⟩, ?_⟩
  intro q hqa hqb
  have hq := hall q hqa hqb
  exact ⟨hq, Nat.sub_le_sub_right hq.length_le 1⟩

def forked : Set (List Nat) :=
  insert [2, 0] (insert [1, 0] {[0]})

def forkedSkip : List Nat → List Nat :=
  Function.update (fun _ => []) [1, 0] (buildSkip (fun _ => []) [1, 0])

lemma forked_skipTree : SkipTree forked forkedSkip :=
  .build (.add (.add (.genesis 0) (.refl _)) (.inr (.refl _))) (.inr (.inl rfl))

theorem ancestors_exact_forked :
    findAncestor forkedSkip [1, 0] 0 = some [0] ∧
    ∃ a ∈ forked, findLastCommonAncestor forkedSkip [1, 0] [2, 0] = some a ∧
      (a <:+ [1, 0] ∧ a <:+ [2, 0]) ∧
        ∀ q, q <:+ [1, 0] → q <:+ [2, 0] → q <:+ a ∧ nHeight q ≤ nHeight a :=
  ⟨by decide, (ancestors_exact forked_skipTree).2 [1, 0] (.inr (.inl rfl)) [2, 0] (.inl rfl)⟩

end SkipTree

end Taler
