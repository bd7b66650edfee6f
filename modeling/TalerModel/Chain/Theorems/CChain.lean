import Mathlib.Data.List.TakeWhile
import Mathlib.Tactic.IntervalCases
import TalerModel.Chain.Theorems.SkipTree

namespace Taler

open List Option

namespace CChain

variable {α : Type} {T : Set (List α)} {pskip : List α → List α} {tip p q a c : List α} {n : Nat}

def path : List α → List (List α)
  | [] => []
  | b :: p => path p ++ [b :: p]

section

lemma length_path (tip : List α) : (path tip).length = tip.length := by
  induction tip
  case nil => rfl
  case cons b tip hi => rw [path, length_append, hi, length_singleton, length_cons]

lemma mem_path : p ∈ path tip ↔ p ≠ [] ∧ p <:+ tip := by
  induction tip
  case nil =>
    refine ⟨nofun, fun ⟨hn, hs⟩ => absurd (suffix_nil.mp hs) hn⟩
  case cons b tip hi =>
  rw [path, mem_append, hi, mem_singleton, suffix_cons_iff]
  constructor
  · rintro (⟨hn, hs⟩ | rfl)
    · exact ⟨hn, .inr hs⟩
    · exact ⟨cons_ne_nil b tip, .inl rfl⟩
  rintro ⟨hn, hs | hs⟩
  · exact .inr hs
  · exact .inl ⟨hn, hs⟩

lemma path_getElem? (h : n ≤ nHeight tip) (hn : tip ≠ []) :
    (path tip)[n]? = some (getAncestor tip n) := by
  induction tip
  case nil => exact absurd rfl hn
  case cons b tip hi =>
  by_cases he : n = nHeight (b :: tip)
  · have hl : n = (path tip).length := by rw [he, length_path]; rfl
    rw [path, hl, getElem?_concat_length, ← hl, he, getAncestor_self]
  have hlt : n < nHeight (b :: tip) := by omega
  have hl : n < tip.length := hlt
  have ht : tip ≠ [] := ne_nil_of_length_pos (by omega)
  rw [path, getElem?_append_left (by rw [length_path]; exact hl), hi (by rw [nHeight]; omega) ht]
  exact congrArg some (getAncestor_tail hlt)

lemma getAncestor_nHeight_eq_iff (hp : p ≠ []) : getAncestor tip (nHeight p) = p ↔ p <:+ tip := by
  constructor
  · exact fun h => h ▸ getAncestor_isSuffix tip _
  · exact fun h => getAncestor_eq h hp

end

structure IsFork (tip p a : List α) : Prop where
  left : a <:+ tip
  right : a <:+ p
  last : ∀ c, c <:+ tip → c <:+ p → c <:+ a

lemma IsFork.unique (ha : IsFork tip p a) (hc : IsFork tip p c) : a = c :=
  (hc.last a ha.1 ha.2).eq_of_length
    (Nat.le_antisymm (hc.last a ha.1 ha.2).length_le (ha.last c hc.1 hc.2).length_le)

variable [DecidableEq α]

section

def successor (L : List (List α)) (p : List α) : List α :=
  ((L.dropWhile (· ≠ p)).tail.head?).getD []

-- The last one of a list of blocks that is a block or an ancestor of it, or null.
def lastAncestor (L : List (List α)) (p : List α) : List α :=
  ((L.filter fun q => decide (q <:+ p)).getLast?).getD []

lemma successor_of_notMem (h : p ∉ L) : successor L p = [] := by
  have hall : ∀ q ∈ L, decide (q ≠ p) := fun q hq => decide_eq_true fun he => h (he ▸ hq)
  rw [successor, dropWhile_eq_nil_iff.mpr hall]
  rfl

lemma successor_of_getElem? (hd : L.Nodup) (h : L[n]? = some p) :
    successor L p = (L[n + 1]?).getD [] := by
  induction L generalizing n
  case nil => exact absurd h (by simp)
  case cons q L hi =>
  cases n
  case zero =>
    have hq : q = p := by simpa using h
    rw [successor, dropWhile_cons_of_neg (by simp [hq]), tail_cons, head?_eq_getElem?]
    rfl
  case succ n =>
  have hq : q ≠ p := fun he => (nodup_cons.mp hd).1 (he ▸ mem_of_getElem? h)
  have := hi (nodup_cons.mp hd).2 h
  rw [successor] at this ⊢
  rw [dropWhile_cons_of_pos (by simp [hq]), this]
  rfl

lemma lastAncestor_path (tip p : List α) : IsFork tip p (lastAncestor (path tip) p) := by
  induction tip
  case nil => exact ⟨suffix_rfl, nil_suffix, fun c hc _ => hc⟩
  case cons b tip hi =>
  rw [lastAncestor, path, filter_append]
  by_cases hs : (b :: tip) <:+ p
  · rw [filter_cons_of_pos (by simpa using hs), filter_nil, getLast?_concat]
    exact ⟨suffix_rfl, hs, fun c hc _ => hc⟩
  rw [filter_cons_of_neg (by simpa using hs), filter_nil, append_nil]
  refine ⟨hi.1.trans (suffix_cons b tip), hi.2, fun c hc hp => ?_⟩
  refine hi.last c ((suffix_cons_iff.mp hc).resolve_left fun he => hs ?_) hp
  exact he ▸ hp

omit [DecidableEq α] in
lemma path_nodup (tip : List α) : (path tip).Nodup := by
  induction tip
  case nil => exact nodup_nil
  case cons b tip hi =>
  rw [path, nodup_append]
  refine ⟨hi, nodup_singleton _, fun q hq r hr he => ?_⟩
  have hle := (mem_path.mp hq).2.length_le
  rw [he, mem_singleton.mp hr, length_cons] at hle
  omega

end

section

variable (h : SkipTree.Valid T pskip)
include h

omit [DecidableEq α] in
lemma get_eq (tip) (n : Int) :
    get pskip tip n = some (if n < 0 then [] else ((path tip)[n.toNat]?).getD []) := by
  rw [get]
  split
  case isTrue ht =>
    rw [ht]
    simp [path]
  rename_i ht
  split
  case isTrue hneg => exact findAncestor_neg hneg
  rename_i hpos
  have ⟨m, hm⟩ := Int.eq_ofNat_of_zero_le (Int.not_lt.mp hpos)
  rw [hm, findAncestor_eq (h.skipsTo tip) ht, Int.toNat_natCast]
  by_cases hle : m ≤ nHeight tip
  · rw [path_getElem? hle ht, getD_some]
  rw [getAncestor, if_pos (by omega), getElem?_eq_none]
  · rfl
  rw [length_path]
  simp only [nHeight] at hle
  omega

lemma contains_eq (tip p) : contains pskip tip p = some (decide (p ∈ path tip)) := by
  rw [contains]
  split
  case isTrue hc =>
    simp only [Bool.or_eq_true, decide_eq_true_eq] at hc
    refine congrArg some (decide_eq_false fun hm => ?_).symm
    have ⟨hn, hs⟩ := mem_path.mp hm
    cases hc
    case inl hp => exact hn hp
    case inr ht => exact hn (suffix_nil.mp (ht ▸ hs))
  case isFalse hc =>
  simp only [Bool.or_eq_true, decide_eq_true_eq, not_or] at hc
  rw [findAncestor_eq (h.skipsTo tip) hc.2, map_some]
  congr 1
  rw [decide_eq_decide, getAncestor_nHeight_eq_iff hc.1, mem_path]
  exact ⟨fun hs => ⟨hc.1, hs⟩, And.right⟩

lemma lastContained_eq (tip p) : ∃ a, lastContained pskip tip p = some a ∧ IsFork tip p a := by
  induction p
  case nil => exact ⟨[], rfl, nil_suffix, suffix_rfl, fun c _ hc => hc⟩
  case cons b p hi =>
  have ⟨a, ha, hf⟩ := hi
  rw [lastContained, contains_eq h, bind_eq_bind, bind_some]
  by_cases hm : b :: p ∈ path tip
  · refine ⟨b :: p, by simp [hm], (mem_path.mp hm).2, suffix_rfl, fun c _ hc => hc⟩
  refine ⟨a, by simp [hm, ha], hf.1, hf.2.trans (suffix_cons b p), fun c ht hc => ?_⟩
  refine hf.last c ht ((suffix_cons_iff.mp hc).resolve_left fun he => hm ?_)
  exact mem_path.mpr ⟨cons_ne_nil b p, he ▸ ht⟩

lemma findFork_eq (tip p : List α) : findFork pskip tip p = some (lastAncestor (path tip) p) := by
  have hlast := lastAncestor_path tip p
  rw [findFork]
  split
  case isTrue hp =>
    subst hp
    rw [suffix_nil.mp hlast.2]
  rename_i hp
  split
  case isFalse =>
    have ⟨a, ha, hf⟩ := lastContained_eq h tip p
    rw [ha, hf.unique hlast]
  rename_i hgt
  by_cases ht : tip = []
  · subst ht
    rfl
  rw [height, if_neg ht] at hgt ⊢
  rw [findAncestor_eq (h.skipsTo p) hp]
  have ⟨a, ha, hf⟩ := lastContained_eq h tip (getAncestor p (nHeight tip))
  have ⟨hs, hl⟩ := getAncestor_lower (Int.ofNat_lt.mp hgt) ht
  -- A common block is not above the tip, so that nothing is lost by going down to its height.
  have hfork : IsFork tip p a := by
    refine ⟨hf.1, hf.2.trans hs, fun c hct hcp => hf.last c hct ?_⟩
    exact suffix_of_suffix_length_le hcp hs (hl ▸ hct.length_le)
  rw [bind_eq_bind, bind_some, ha, hfork.unique hlast]

omit [DecidableEq α] in
lemma next_eq (hp : p ≠ []) : next pskip tip p = some (((path tip)[nHeight p + 1]?).getD []) := by
  have hpos : ¬((nHeight p : Int) + 1 < 0) := by omega
  rw [next, if_neg hp, get_eq h, if_neg hpos]
  rfl

lemma next_of_mem (hm : p ∈ path tip) : next pskip tip p = some (successor (path tip) p) := by
  have ⟨hn, hs⟩ := mem_path.mp hm
  have ht := hs.ne_nil hn
  have hle : nHeight p ≤ nHeight tip := Nat.sub_le_sub_right hs.length_le 1
  have he : (path tip)[nHeight p]? = some p := by
    rw [path_getElem? hle ht, (getAncestor_nHeight_eq_iff hn).mpr hs]
  rw [next_eq h hn, successor_of_getElem? (path_nodup tip) he]

lemma next_of_notMem (hp : p ≠ []) (hm : p ∉ path tip) :
    next pskip tip p = some (successor (path tip) p) ↔ tip = [] ∨ nHeight tip ≤ nHeight p := by
  rw [next_eq h hp, successor_of_notMem hm, some_inj]
  by_cases ht : tip = []
  · simp [ht, path]
  by_cases hle : nHeight tip ≤ nHeight p
  · refine iff_of_true ?_ (.inr hle)
    rw [getElem?_eq_none, getD_none]
    rw [length_path]
    rw [nHeight] at hle
    omega
  refine iff_of_false ?_ (not_or.mpr ⟨ht, hle⟩)
  have hlt : nHeight p + 1 ≤ nHeight tip := by omega
  have hq := mem_of_getElem? (path_getElem? hlt ht)
  rw [path_getElem? hlt ht, getD_some]
  exact (mem_path.mp hq).1

end

-- The operations as those of the list of blocks from genesis to the tip, for one entry.
structure Refines (pskip : List α → List α) (tip p : List α) : Prop where
  get : ∀ n, get pskip tip n = some (if n < 0 then [] else ((path tip)[n.toNat]?).getD [])
  contains : contains pskip tip p = some (decide (p ∈ path tip))
  next : next pskip tip p = some (successor (path tip) p)
  findFork : findFork pskip tip p = some (lastAncestor (path tip) p)

theorem refines_iff (h : SkipTree T pskip) (hp : p ∈ T) :
    Refines pskip tip p ↔ p ∈ path tip ∨ tip = [] ∨ nHeight tip ≤ nHeight p := by
  have hv := h.valid
  have hnext : next pskip tip p = some (successor (path tip) p) ↔
      p ∈ path tip ∨ tip = [] ∨ nHeight tip ≤ nHeight p := by
    by_cases hm : p ∈ path tip
    · exact iff_of_true (next_of_mem hv hm) (.inl hm)
    rw [next_of_notMem hv (hv.ne_nil p hp) hm]
    exact ⟨.inr, fun hc => hc.resolve_left hm⟩
  rw [← hnext]
  exact ⟨Refines.next, fun hn => ⟨get_eq hv tip, contains_eq hv tip p, hn, findFork_eq hv tip p⟩⟩

def sideTree : Set (List Nat) :=
  insert [3, 1, 0] (insert [2, 0] (insert [1, 0] {[0]}))

lemma sideTree_skipTree : SkipTree sideTree fun _ => [] :=
  .add (.add (.add (.genesis 0) (.refl _)) (.inr (.refl _))) (.inr (.inl rfl))

theorem refines_iff_sideTree : Refines (fun _ => []) [3, 1, 0] [1, 0] :=
  (refines_iff sideTree_skipTree (.inr (.inr (.inl rfl)))).mpr (.inl (by decide))

theorem next_side_ne_null : SkipTree sideTree (fun _ => []) ∧ [2, 0] ∈ sideTree ∧
    [2, 0] ∉ path [3, 1, 0] ∧ next (fun _ => []) [3, 1, 0] [2, 0] = some [3, 1, 0] ∧
      ¬Refines (fun _ => []) [3, 1, 0] [2, 0] := by
  refine ⟨sideTree_skipTree, .inr (.inl rfl), by decide, by decide, fun hr => ?_⟩
  exact absurd hr.next (by decide)

section

variable {time : List α → Int} {nTime : Int}

-- The lowest block of the chain whose time is at least the given one.
def IsEarliest (tip : List α) (time : List α → Int) (nTime : Int) (r : List α) : Prop :=
  (r ∈ path tip ∧ nTime ≤ time r) ∧ ∀ q ∈ path tip, nTime ≤ time q → nHeight r ≤ nHeight q

def Finds (pskip : List α → List α) (tip : List α) (time : List α → Int) (nTime : Int) : Prop :=
  ∃ fuel r, findEarliestAtLeast pskip tip time nTime fuel = some r ∧
    (time (getAncestor tip 0) ≤ nTime → nTime ≤ time tip → IsEarliest tip time nTime r) ∧
      (time tip < nTime → r = [])

section

omit [DecidableEq α]

lemma get_height (h : SkipTree.Valid T pskip) (ht : tip ≠ []) (n : Nat) :
    get pskip tip n = some (getAncestor tip n) := by
  rw [get, if_neg ht]
  exact findAncestor_eq (h.skipsTo tip) ht n

-- The lower bound stays below the time and the upper one does not, so that they never meet.
lemma earliestLoop_none (h : SkipTree.Valid T pskip) (ht : tip ≠ []) (hle : lo ≤ hi)
    (hlo : time (getAncestor tip lo) < nTime) (hhi : nTime ≤ time (getAncestor tip hi)) :
    earliestLoop pskip tip time nTime fuel lo hi = none := by
  have hlt {lo hi : Nat} (hle : lo ≤ hi) (hlo : time (getAncestor tip lo) < nTime)
      (hhi : nTime ≤ time (getAncestor tip hi)) : lo < hi := by
    refine Nat.lt_of_le_of_ne hle fun he => ?_
    rw [he] at hlo
    omega
  induction fuel generalizing lo hi
  case zero => rw [earliestLoop, if_pos (hlt hle hlo hhi)]
  case succ fuel ih =>
  have hl := hlt hle hlo hhi
  rw [earliestLoop, if_pos hl]
  dsimp only
  rw [get_height h ht, bind_eq_bind, bind_some]
  split
  case isTrue hm => exact ih (by omega) hm hhi
  case isFalse hm => exact ih (by omega) hlo (Int.not_lt.mp hm)

lemma earliestLoop_zero (h : SkipTree.Valid T pskip) (ht : tip ≠ []) (hf : hi ≤ fuel)
    (hall : ∀ n ≤ hi, nTime ≤ time (getAncestor tip n)) :
    earliestLoop pskip tip time nTime fuel 0 hi = some 0 := by
  induction fuel generalizing hi
  case zero => rw [earliestLoop, if_neg (by omega), Nat.le_zero.mp hf]
  case succ fuel ih =>
  rw [earliestLoop]
  split
  case isTrue hl =>
    have hm := hall ((0 + hi) / 2) (by omega)
    dsimp only
    rw [get_height h ht, bind_eq_bind, bind_some, if_neg (by omega)]
    exact ih (by omega) fun n hn => hall n (by omega)
  case isFalse hl => rw [Nat.eq_zero_of_not_pos hl]

lemma genesis_eq (h : SkipTree.Valid T pskip) (ht : tip ≠ []) :
    genesis pskip tip = some (getAncestor tip 0) :=
  get_height h ht 0

lemma getAncestor_mem_path (hn : n ≤ nHeight tip) (ht : tip ≠ []) : getAncestor tip n ∈ path tip :=
  mem_of_getElem? (path_getElem? hn ht)

-- For a time between that of genesis and that of the tip, the search does not end.
lemma findEarliestAtLeast_none (h : SkipTree.Valid T pskip) (ht : tip ≠ []) (fuel)
    (hlo : time (getAncestor tip 0) < nTime) (hhi : nTime ≤ time tip) :
    findEarliestAtLeast pskip tip time nTime fuel = none := by
  have hg := (mem_path.mp (getAncestor_mem_path (Nat.zero_le _) ht)).1
  have hloop : earliestLoop pskip tip time nTime fuel 0 (nHeight tip) = none :=
    earliestLoop_none h ht (Nat.zero_le _) hlo (by rw [getAncestor_self]; exact hhi)
  rw [findEarliestAtLeast, genesis_eq h ht, bind_eq_bind, bind_some,
    if_neg (by simp [hg]; omega), if_neg (by omega), hloop]
  rfl

lemma finds_of_late (h : SkipTree.Valid T pskip) (ht : tip ≠ []) (hlt : time tip < nTime) :
    Finds pskip tip time nTime := by
  refine ⟨0, [], ?_, fun _ hle => absurd hle (by omega), fun _ => rfl⟩
  rw [findEarliestAtLeast, genesis_eq h ht, bind_eq_bind, bind_some, if_pos hlt, ite_self]

lemma finds_of_early (h : SkipTree.Valid T pskip) (ht : tip ≠ [])
    (hmono : ∀ i j, i ≤ j → j ≤ nHeight tip → time (getAncestor tip i) ≤ time (getAncestor tip j))
    (hle : nTime ≤ time (getAncestor tip 0)) : Finds pskip tip time nTime := by
  have hall n (hn : n ≤ nHeight tip) := hle.trans (hmono 0 n (Nat.zero_le n) hn)
  have htip : nTime ≤ time tip := by
    have := hall (nHeight tip) (Nat.le_refl _)
    rwa [getAncestor_self] at this
  have hmem := getAncestor_mem_path (Nat.zero_le (nHeight tip)) ht
  have hg := (mem_path.mp hmem).1
  by_cases he : nTime < time (getAncestor tip 0)
  case pos =>
    -- Below the time of genesis the contract is silent, and null is returned.
    refine ⟨0, [], ?_, fun hge => absurd hge (by omega), fun hlt => absurd hlt (by omega)⟩
    rw [findEarliestAtLeast, genesis_eq h ht, bind_eq_bind, bind_some, if_pos (by simp [he])]
  refine ⟨nHeight tip, getAncestor tip 0, ?_, fun _ _ => ⟨⟨hmem, hle⟩, fun q _ _ => ?_⟩,
    fun hlt => absurd hlt (by omega)⟩
  · rw [findEarliestAtLeast, genesis_eq h ht, bind_eq_bind, bind_some,
      if_neg (by simp [hg]; omega), if_neg (by omega), earliestLoop_zero h ht (Nat.le_refl _) hall]
    exact get_height h ht 0
  rw [nHeight_getAncestor (Nat.zero_le _) ht]
  exact Nat.zero_le _

end

theorem finds_iff (h : SkipTree T pskip) (ht : tip ∈ T)
    (hmono : ∀ i j, i ≤ j → j ≤ nHeight tip → time (getAncestor tip i) ≤ time (getAncestor tip j)) :
    Finds pskip tip time nTime ↔ nTime ≤ time (getAncestor tip 0) ∨ time tip < nTime := by
  have hv := h.valid
  have hn := hv.ne_nil tip ht
  constructor
  · intro ⟨fuel, r, hr, _⟩
    by_contra hc
    have ⟨hlo, hhi⟩ := not_or.mp hc
    rw [findEarliestAtLeast_none hv hn fuel (Int.not_le.mp hlo) (Int.not_lt.mp hhi)] at hr
    exact absurd hr nofun
  rintro (hle | hlt)
  · exact finds_of_early hv hn hmono hle
  · exact finds_of_late hv hn hlt

def pairTree : Set (List Nat) :=
  insert [1, 0] {[0]}

def headTime (p : List Nat) : Int :=
  p.headD 0

lemma pairTree_skipTree : SkipTree pairTree fun _ => [] :=
  .add (.genesis 0) (.refl _)

lemma headTime_mono : ∀ i j, i ≤ j → j ≤ nHeight [1, 0] →
    headTime (getAncestor [1, 0] i) ≤ headTime (getAncestor [1, 0] j) := by
  intro i j hij hj
  have hj : j ≤ 1 := hj
  interval_cases j <;> interval_cases i <;> decide

theorem finds_iff_pairTree : Finds (fun _ => []) [1, 0] headTime 2 :=
  (finds_iff pairTree_skipTree (.inl rfl) headTime_mono).mpr (.inr (by decide))

-- Asked for the time of the tip, the search never ends.
theorem pairTree_not_finds : SkipTree pairTree (fun _ => []) ∧ [1, 0] ∈ pairTree ∧
    (∀ i j, i ≤ j → j ≤ nHeight [1, 0] →
      headTime (getAncestor [1, 0] i) ≤ headTime (getAncestor [1, 0] j)) ∧
    (∀ fuel, findEarliestAtLeast (fun _ => []) [1, 0] headTime 1 fuel = none) ∧
      ¬Finds (fun _ => []) [1, 0] headTime 1 := by
  have hnone fuel : findEarliestAtLeast (fun _ => []) [1, 0] headTime 1 fuel = none :=
    findEarliestAtLeast_none pairTree_skipTree.valid (cons_ne_nil 1 [0]) fuel (by decide)
      (by decide)
  refine ⟨pairTree_skipTree, .inl rfl, headTime_mono, hnone, fun ⟨fuel, r, hr, _⟩ => ?_⟩
  rw [hnone fuel] at hr
  exact absurd hr nofun

end

end CChain

end Taler
