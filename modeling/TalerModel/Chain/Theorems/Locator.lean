import Mathlib.Data.Nat.Log
import TalerModel.Chain.Theorems.CChain

namespace Taler

open List Nat

namespace CChain

variable {α H : Type} {T : Set (List α)} {pskip : List α → List α} {tip p pa pb : List α} {i j n : Nat}

section

-- How far below its start a locator has its entries, and the step from one entry to the next.
def offset (i : Nat) : Nat :=
  if i ≤ 11 then i else 9 + 2 ^ (i - 10)

def stepAt (i : Nat) : Nat :=
  if i ≤ 10 then 1 else 2 ^ (i - 10)

lemma stepAt_succ (i) : stepAt (i + 1) = if i + 1 > 10 then stepAt i * 2 else stepAt i := by
  simp only [stepAt]
  by_cases h : i ≤ 9
  · rw [if_pos (by omega), if_neg (by omega), if_pos (by omega)]
  rw [if_neg (by omega), if_pos (by omega)]
  by_cases he : i = 10
  · rw [he]; rfl
  have hi : i + 1 - 10 = i - 10 + 1 := by omega
  rw [if_neg (by omega), hi, pow_succ]

lemma offset_succ (i) : offset (i + 1) = offset i + stepAt i := by
  simp only [offset, stepAt]
  by_cases h : i ≤ 10
  · rw [if_pos (by omega), if_pos (by omega), if_pos h]
  have hi : i + 1 - 10 = i - 10 + 1 := by omega
  rw [if_neg (by omega), if_neg h, hi, pow_succ]
  by_cases he : i = 11
  · rw [he]; rfl
  rw [if_neg (by omega)]
  omega

lemma offset_succ_le (i) : offset (i + 1) ≤ 2 * offset i + 1 := by
  rw [offset_succ]
  simp only [offset, stepAt]
  by_cases h : i ≤ 10
  · rw [if_pos (by omega), if_pos h]
    omega
  rw [if_neg h]
  by_cases he : i = 11
  · rw [he]; decide
  rw [if_neg (by omega)]
  omega

lemma stepAt_pos (i) : 0 < stepAt i := by
  rw [stepAt]
  split
  · decide
  · exact Nat.two_pow_pos _

lemma succ_le_of_offset_lt (h : offset i < n) : i + 2 ≤ 12 + log2 (n + 1) := by
  by_cases hi : i ≤ 10
  · omega
  have hpow : 2 ^ (i - 10) ≤ n + 1 := by
    rw [offset] at h
    split at h
    · have he : i = 11 := by omega
      rw [he]
      omega
    · omega
  have hlog : i - 10 ≤ log2 (n + 1) := (le_log2 (succ_ne_zero n)).mpr hpow
  omega

end

section

def Locates (tip : List α) (i : Nat) (L : List (List α)) : Prop :=
  ∃ m, L = (range (m + 1)).map (fun j => getAncestor tip (nHeight tip - offset (i + j))) ∧
    nHeight tip ≤ offset (i + m) ∧ ∀ j < m, offset (i + j) < nHeight tip

lemma locatorLoop_eq (h : SkipTree.Valid T pskip) (ht : tip ≠ [])
    (hf : nHeight tip - offset i < fuel) :
    ∃ L, locatorLoop pskip fuel (getAncestor tip (nHeight tip - offset i)) (stepAt i) i = some L ∧
      Locates tip i L := by
  induction fuel generalizing i
  case zero => exact absurd hf (Nat.not_lt_zero _)
  case succ fuel hi =>
  have hle : nHeight tip - offset i ≤ nHeight tip := Nat.sub_le _ _
  have hh := nHeight_getAncestor hle ht
  have hn : getAncestor tip (nHeight tip - offset i) ≠ [] :=
    (mem_path.mp (getAncestor_mem_path hle ht)).1
  rw [locatorLoop, if_neg hn, hh]
  split
  case isTrue hz => exact ⟨_, rfl, 0, by simp, by simpa using Nat.sub_eq_zero_iff_le.mp hz, nofun⟩
  have hs := offset_succ i
  have hp := stepAt_pos i
  have ⟨L, hL, m, he, hm, hlt⟩ := hi (i := i + 1) (by omega)
  have hnext : max ((nHeight tip - offset i : Nat) - stepAt i : Int) 0 =
      (nHeight tip - offset (i + 1) : Nat) := by omega
  rw [hnext, findAncestor_eq (h.skipsTo _) hn, getAncestor_getAncestor (by omega) hle ht,
    ← stepAt_succ, Option.bind_eq_bind, Option.bind_some, hL]
  refine ⟨_, rfl, m + 1, ?_, ?_, fun j hj => ?_⟩
  · rw [range_succ_eq_map, map_cons, map_map, he]
    congr 1
    refine map_congr_left fun j _ => ?_
    congr 3
    omega
  · have : i + (m + 1) = i + 1 + m := by omega
    rw [this]
    exact hm
  cases j
  case zero => simp only [Nat.add_zero]; omega
  case succ j =>
  have : i + (j + 1) = i + 1 + j := by omega
  rw [this]
  exact hlt j (by omega)

variable {L : List (List α)}

lemma Locates.length_le (h : Locates tip 0 L) : L.length ≤ 12 + log2 (nHeight tip + 1) := by
  have ⟨m, he, hm, hlt⟩ := h
  rw [he, length_map, length_range]
  cases m
  case zero => omega
  case succ m =>
  have := hlt m (lt_succ_self m)
  rw [zero_add] at this
  exact succ_le_of_offset_lt this

lemma Locates.getLast? (h : Locates tip i L) : L.getLast? = some (getAncestor tip 0) := by
  have ⟨m, he, hm, _⟩ := h
  rw [he, range_succ, map_append, map_singleton, getLast?_concat, Nat.sub_eq_zero_of_le hm]

lemma Locates.eq_cons (h : Locates tip 0 L) : ∃ L', L = tip :: L' := by
  have ⟨m, he, _⟩ := h
  have hstart : getAncestor tip (nHeight tip - offset (0 + 0)) = tip := getAncestor_self tip
  rw [range_succ_eq_map, map_cons, hstart] at he
  exact ⟨_, he⟩

lemma Locates.mem_path (h : Locates tip i L) (ht : tip ≠ []) (hp : p ∈ L) : p ∈ path tip := by
  have ⟨m, he, _⟩ := h
  rw [he] at hp
  have ⟨j, _, hj⟩ := mem_map.mp hp
  exact hj ▸ getAncestor_mem_path (sub_le _ _) ht

end

section

variable [DecidableEq α] {hash : List α → H} {lookupBlockIndex : H → List α} {L : List (List α)}

lemma findForkLocator_eq (h : SkipTree.Valid T pskip) (hb : pb ≠ [])
    (hL : ∀ p ∈ L, p ≠ [] ∧ lookupBlockIndex (hash p) = p) (hn : ∀ p ∈ L, ¬pb <:+ p)
    (hf : L.find? (fun p => decide (p ∈ path pb)) = some p) :
    findForkLocator pskip lookupBlockIndex pb (L.map hash) = some p := by
  induction L
  case nil => exact absurd hf nofun
  case cons q L hi =>
  have ⟨hq, hl⟩ := hL q mem_cons_self
  rw [map_cons, findForkLocator, hl, if_neg hq, contains_eq h, Option.bind_eq_bind, Option.bind_some]
  rw [find?_cons] at hf
  by_cases hm : q ∈ path pb
  · simp only [hm, decide_true] at hf ⊢
    simpa using hf
  simp only [hm, decide_false] at hf ⊢
  have hne : getAncestor q (nHeight pb) ≠ pb := fun he =>
    hn q mem_cons_self (he ▸ getAncestor_isSuffix q _)
  rw [height, if_neg hb, findAncestor_eq (h.skipsTo q) hq]
  simp only [Bool.false_eq_true, if_false, Option.bind_eq_bind, Option.bind_some, if_neg hne]
  exact hi (fun p hp => hL p (mem_cons_of_mem q hp))
    (fun p hp => hn p (mem_cons_of_mem q hp)) hf

lemma findForkLocator_below (h : SkipTree.Valid T pskip) (hb : pb ≠ []) (hs : pb <:+ pa)
    (ha : pa ≠ []) (hl : lookupBlockIndex (hash pa) = pa) :
    findForkLocator pskip lookupBlockIndex pb ((pa :: L).map hash) = some pb := by
  rw [map_cons, findForkLocator, hl, if_neg ha, contains_eq h, Option.bind_eq_bind, Option.bind_some]
  by_cases hm : pa ∈ path pb
  · have he : pa = pb := (mem_path.mp hm).2.eq_of_length
      (le_antisymm (mem_path.mp hm).2.length_le hs.length_le)
    rw [decide_eq_true hm, if_pos rfl, he]
  have he := (getAncestor_nHeight_eq_iff hb).mpr hs
  rw [decide_eq_false hm, height, if_neg hb, findAncestor_eq (h.skipsTo pa) ha]
  simp [he]

variable (hc : IsFork pb pa p)
include hc

omit [DecidableEq α] in
lemma IsFork.getAncestor_mem_path_iff (ha : pa ≠ []) (hp : p ≠ []) (hn : n ≤ nHeight pa) :
    getAncestor pa n ∈ path pb ↔ n ≤ nHeight p := by
  have hs := getAncestor_isSuffix pa n
  have hh := nHeight_getAncestor hn ha
  have hne := (CChain.mem_path.mp (getAncestor_mem_path hn ha)).1
  rw [CChain.mem_path]
  constructor
  · intro ⟨_, hb⟩
    rw [← hh]
    exact Nat.sub_le_sub_right (hc.last _ hb hs).length_le 1
  intro hle
  refine ⟨hne, List.IsSuffix.trans ?_ hc.1⟩
  refine suffix_of_suffix_length_le hs hc.2 ?_
  have := length_pos_of_ne_nil hp
  simp only [nHeight] at hh hle
  omega

lemma IsFork.find?_locator (ha : pa ≠ []) (hp : p ≠ []) (hL : Locates pa 0 L) :
    ∃ j, L.find? (fun q => decide (q ∈ path pb)) = some (getAncestor pa (nHeight pa - offset j)) ∧
      nHeight pa - nHeight p ≤ offset j ∧ ∀ k < j, offset k < nHeight pa - nHeight p := by
  have ⟨m, he, hm, _⟩ := hL
  rw [Nat.zero_add] at hm
  have hex : ∃ j, nHeight pa - nHeight p ≤ offset j := ⟨m, (Nat.sub_le _ _).trans hm⟩
  have hin k : getAncestor pa (nHeight pa - offset k) ∈ path pb ↔
      nHeight pa - nHeight p ≤ offset k := by
    rw [hc.getAncestor_mem_path_iff ha hp (Nat.sub_le _ _)]
    omega
  have hj := Nat.find_min' hex ((Nat.sub_le _ _).trans hm)
  refine ⟨Nat.find hex, ?_, Nat.find_spec hex, fun k hk => Nat.not_le.mp (Nat.find_min hex hk)⟩
  rw [find?_eq_some_iff_getElem]
  refine ⟨decide_eq_true ((hin _).mpr (Nat.find_spec hex)), Nat.find hex, ?_, ?_, fun k hk => ?_⟩
  · rw [he, length_map, length_range]
    omega
  · simp [he]
  have hlt := Nat.find_min hex hk
  simp only [he, getElem_map, getElem_range, Nat.zero_add, hin, hlt, decide_false, Bool.not_false]

omit [DecidableEq α] hc in
lemma offset_le_of_first (hlt : ∀ k < j, offset k < d) : offset j ≤ 2 * d := by
  cases j
  case zero => exact zero_le _
  case succ j =>
  have h1 := hlt j (lt_succ_self j)
  have h2 := offset_succ_le j
  omega

omit [DecidableEq α] hc in
lemma offset_eq_of_first (hd : d ≤ 11) (hle : d ≤ offset j) (hlt : ∀ k < j, offset k < d) :
    offset j = d := by
  have ho : offset d = d := if_pos hd
  have hj : j ≤ d := by
    refine Nat.le_of_not_lt fun hdj => ?_
    have := hlt d hdj
    omega
  rw [offset, if_pos (by omega)] at hle ⊢
  omega

end

variable [DecidableEq α]

lemma isFork_lastCommonAncestor (ha : pa ≠ []) (hb : pb ≠ []) :
    IsFork pb pa (lastCommonAncestor pa pb) :=
  have ⟨hsa, hsb, hall⟩ := lastCommonAncestor_suffix ha hb
  ⟨hsb, hsa, fun c hcb hca => hall c hca hcb⟩

lemma findForkLocator_near (h : SkipTree.Valid T pskip) {hash : List α → H} (ha : pa ∈ T)
    (hb : pb ∈ T) (hknown : ∀ q ∈ path pa, lookupBlockIndex (hash q) = q) (hL : Locates pa 0 L) :
    ∃ r, findForkLocator pskip lookupBlockIndex pb (L.map hash) = some r ∧
      r ∈ path pa ∧ r ∈ path pb ∧
      nHeight pa ≤ nHeight r + 2 * (nHeight pa - nHeight (lastCommonAncestor pa pb)) ∧
      (nHeight pa - nHeight (lastCommonAncestor pa pb) ≤ 11 → r = lastCommonAncestor pa pb) := by
  have hna := h.ne_nil pa ha
  have hnb := h.ne_nil pb hb
  have hfork := isFork_lastCommonAncestor hna hnb
  have hnp := h.ne_nil _ (h.lastCommonAncestor_mem ha hb)
  by_cases hs : pb <:+ pa
  · have he : pb = lastCommonAncestor pa pb :=
      (hfork.last pb suffix_rfl hs).eq_of_length
        (Nat.le_antisymm (hfork.last pb suffix_rfl hs).length_le hfork.1.length_le)
    have ⟨L', hL'⟩ := hL.eq_cons
    have hpa := mem_path.mpr ⟨hna, suffix_rfl⟩
    refine ⟨pb, ?_, mem_path.mpr ⟨hnb, hs⟩, mem_path.mpr ⟨hnb, suffix_rfl⟩, ?_, fun _ => he⟩
    · rw [hL']
      exact findForkLocator_below h hnb hs hna (hknown pa hpa)
    rw [← he]
    omega
  have ⟨j, hfind, hle, hlt⟩ := hfork.find?_locator hna hnp hL
  have hmem := find?_some hfind
  have hh := nHeight_getAncestor (Nat.sub_le (nHeight pa) (offset j)) hna
  have hlow : nHeight (lastCommonAncestor pa pb) ≤ nHeight pa :=
    Nat.sub_le_sub_right hfork.2.length_le 1
  refine ⟨_, findForkLocator_eq h hnb ?_ ?_ hfind, getAncestor_mem_path (Nat.sub_le _ _) hna,
    of_decide_eq_true hmem, ?_, fun hd => ?_⟩
  · exact fun q hq =>
      have hq := hL.mem_path hna hq
      ⟨(mem_path.mp hq).1, hknown q hq⟩
  · exact fun q hq hbq => hs (hbq.trans (mem_path.mp (hL.mem_path hna hq)).2)
  · have := offset_le_of_first hlt
    omega
  rw [offset_eq_of_first hd hle hlt, Nat.sub_sub_self hlow]
  exact (getAncestor_nHeight_eq_iff hnp).mpr hfork.2

-- A locator of any block finds a common block with any other chain that is near enough.
theorem getLocator_near (h : SkipTree T pskip) {hash : List α → H} {lookupBlockIndex : H → List α}
    (ha : pa ∈ T) (hb : pb ∈ T) (hknown : ∀ q ∈ path pa, lookupBlockIndex (hash q) = q) :
    ∃ vHave, (∀ best, getLocator pskip hash best pa = some vHave) ∧
      getLocator pskip hash pa [] = some vHave ∧
      (∃ r, findForkLocator pskip lookupBlockIndex pb vHave = some r ∧ r ∈ path pa ∧ r ∈ path pb ∧
        nHeight pa ≤ nHeight r + 2 * (nHeight pa - nHeight (lastCommonAncestor pa pb)) ∧
        (nHeight pa - nHeight (lastCommonAncestor pa pb) ≤ 11 → r = lastCommonAncestor pa pb)) ∧
      vHave.length ≤ 12 + log2 (nHeight pa + 1) ∧
      vHave.getLast? = some (hash (getAncestor pa 0)) := by
  have hv := h.valid
  have hn := hv.ne_nil pa ha
  have ⟨L, hloop, hL⟩ := locatorLoop_eq hv hn
    (lt_succ_of_le (sub_le (nHeight pa) (offset 0)))
  have hstart : getAncestor pa (nHeight pa - offset 0) = pa := getAncestor_self pa
  rw [hstart] at hloop
  have hloop : locatorLoop pskip (nHeight pa + 1) pa 1 0 = some L := hloop
  refine ⟨L.map hash, fun best => ?_, ?_, findForkLocator_near hv ha hb hknown hL, ?_, ?_⟩
  · simp only [getLocator, if_neg hn, hloop, Option.map_some]
  · simp only [getLocator, if_true, hloop, Option.map_some]
  · rw [length_map]
    exact hL.length_le
  · rw [getLast?_map, hL.getLast?, Option.map_some]

theorem getLocator_near_sideTree : ∃ vHave,
    (∀ best, getLocator (fun _ => []) id best [3, 1, 0] = some vHave) ∧
      getLocator (fun _ => []) id [3, 1, 0] [] = some vHave ∧
      (∃ r, findForkLocator (fun _ => []) id [2, 0] vHave = some r ∧ r ∈ path [3, 1, 0] ∧
        r ∈ path [2, 0] ∧
        nHeight [3, 1, 0] ≤ nHeight r + 2 *
          (nHeight [3, 1, 0] - nHeight (lastCommonAncestor [3, 1, 0] [2, 0])) ∧
        (nHeight [3, 1, 0] - nHeight (lastCommonAncestor [3, 1, 0] [2, 0]) ≤ 11 →
          r = lastCommonAncestor [3, 1, 0] [2, 0])) ∧
      vHave.length ≤ 12 + log2 (nHeight [3, 1, 0] + 1) ∧
      vHave.getLast? = some (id (getAncestor [3, 1, 0] 0)) :=
  getLocator_near sideTree_skipTree (.inl rfl) (.inr (.inl rfl)) fun _ _ => rfl

end CChain

end Taler
