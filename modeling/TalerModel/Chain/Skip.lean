import TalerModel.Chain.Theorems.Ancestor

namespace Taler

variable {α : Type}

-- Turns the lowest one of a number into a zero.
def invertLowestOne (n : Nat) : Nat :=
  n &&& (n - 1)

def getSkipHeight (height : Nat) : Nat :=
  if height < 2 then 0
  else if height % 2 = 1 then invertLowestOne (invertLowestOne (height - 1)) + 1
  else invertLowestOne height

-- The loop of `GetAncestor`. `pskip` is the skip pointer of an entry, which may be null.
def skipWalk (pskip : List α → List α) (height : Nat) : Nat → List α → Nat → List α
  | 0, pindexWalk, _ => pindexWalk
  | fuel + 1, pindexWalk, heightWalk =>
    if heightWalk ≤ height then pindexWalk else
    let heightSkip := getSkipHeight heightWalk
    let heightSkipPrev := getSkipHeight (heightWalk - 1)
    if pskip pindexWalk ≠ [] && (heightSkip = height || heightSkip > height &&
        !(heightSkipPrev + 2 < heightSkip && heightSkipPrev ≥ height)) then
      skipWalk pskip height fuel (pskip pindexWalk) heightSkip
    else skipWalk pskip height fuel pindexWalk.tail (heightWalk - 1)

-- The same loop with its assertion. No result if that fails or the loop has not ended.
def ancestorLoop (pskip : List α → List α) (height : Nat) : Nat → List α → Nat → Option (List α)
  | 0, pindexWalk, heightWalk => if heightWalk ≤ height then some pindexWalk else none
  | fuel + 1, pindexWalk, heightWalk =>
    if heightWalk ≤ height then some pindexWalk else
    let heightSkip := getSkipHeight heightWalk
    let heightSkipPrev := getSkipHeight (heightWalk - 1)
    if pskip pindexWalk ≠ [] && (heightSkip = height || heightSkip > height &&
        !(heightSkipPrev + 2 < heightSkip && heightSkipPrev ≥ height)) then
      ancestorLoop pskip height fuel (pskip pindexWalk) heightSkip
    else if pindexWalk.tail = [] then none
    else ancestorLoop pskip height fuel pindexWalk.tail (heightWalk - 1)

def getAncestorBy (pskip : List α → List α) (pindex : List α) (height : Nat) : List α :=
  if height > nHeight pindex then [] else
  skipWalk pskip height (nHeight pindex) pindex (nHeight pindex)

def buildSkip (pskip : List α → List α) (pindex : List α) : List α :=
  if pindex.tail = [] then pskip pindex
  else getAncestorBy pskip pindex.tail (getSkipHeight (nHeight pindex))

section

variable {pskip : List α → List α} {p q : List α} {height n fuel : Nat}

lemma invertLowestOne_le (n) : invertLowestOne n ≤ n - 1 :=
  Nat.and_le_right

lemma getSkipHeight_lt (h : 0 < n) : getSkipHeight n < n := by
  rw [getSkipHeight]
  split
  · exact h
  split
  · have h1 := invertLowestOne_le (n - 1)
    have h2 := invertLowestOne_le (invertLowestOne (n - 1))
    omega
  have := invertLowestOne_le n
  omega

-- A skip pointer that is not null points to the ancestor at its height.
def SkipsTo (pskip : List α → List α) (p : List α) : Prop :=
  ∀ q, q <:+ p → pskip q = [] ∨ pskip q = getAncestor q (getSkipHeight (nHeight q))

lemma SkipsTo.suffix (h : SkipsTo pskip p) (hq : q <:+ p) : SkipsTo pskip q :=
  fun r hr => h r (hr.trans hq)

-- The loop ends at the ancestor at the height, whatever shortcuts it takes. Its assertion does not fail.
lemma ancestorLoop_eq (h : SkipsTo pskip p) (hn : p ≠ []) (hh : height ≤ nHeight p)
    (hf : nHeight p ≤ fuel) :
    ancestorLoop pskip height fuel p (nHeight p) = some (getAncestor p height) := by
  induction fuel generalizing p
  case zero =>
    have : height = nHeight p := by omega
    rw [ancestorLoop, if_pos (by omega), this, getAncestor_self]
  case succ fuel hi =>
  rw [ancestorLoop]
  split
  case isTrue hle =>
    have : height = nHeight p := by omega
    rw [this, getAncestor_self]
  have hpos : 0 < nHeight p := by omega
  have hskip := getSkipHeight_lt hpos
  dsimp only
  split
  case isTrue hc =>
    simp only [Bool.and_eq_true, decide_eq_true_eq, Bool.or_eq_true] at hc
    have hle : height ≤ getSkipHeight (nHeight p) := by
      rcases hc.2 with he | he
      · omega
      · omega
    have he : pskip p = getAncestor p (getSkipHeight (nHeight p)) :=
      (h p List.suffix_rfl).resolve_left hc.1
    have hs : pskip p <:+ p := he ▸ getAncestor_isSuffix p _
    have hw : nHeight (pskip p) = getSkipHeight (nHeight p) := by
      rw [he, nHeight_getAncestor (Nat.le_of_lt hskip) hn]
    rw [← hw, hi (h.suffix hs) hc.1 (hw ▸ hle) (by omega), he,
      getAncestor_getAncestor hle (Nat.le_of_lt hskip) hn]
  have hl : nHeight p.tail = nHeight p - 1 := by
    rw [nHeight, nHeight, List.length_tail]
  have ht : p.tail ≠ [] := by
    refine List.ne_nil_of_length_pos ?_
    rw [List.length_tail]
    exact hpos
  rw [if_neg ht, ← hl, hi (h.suffix (List.tail_suffix p)) ht (by omega) (by omega),
    getAncestor_tail (by omega)]

lemma skipWalk_of_ancestorLoop (h : ancestorLoop pskip height fuel p heightWalk = some q) :
    skipWalk pskip height fuel p heightWalk = q := by
  induction fuel generalizing p heightWalk
  case zero =>
    rw [ancestorLoop, Option.ite_none_right_eq_some] at h
    exact Option.some.inj h.2
  case succ fuel hi =>
  rw [ancestorLoop] at h
  rw [skipWalk]
  split at h
  case isTrue hle => exact (if_pos hle).trans (Option.some.inj h)
  rename_i hlt
  rw [if_neg hlt]
  dsimp only at h ⊢
  split at h
  case isTrue hc => exact (if_pos hc).trans (hi h)
  rename_i hc
  rw [if_neg hc]
  split at h
  · exact absurd h nofun
  · exact hi h

lemma getAncestorBy_eq (h : SkipsTo pskip p) (hn : p ≠ []) (height) :
    getAncestorBy pskip p height = getAncestor p height := by
  rw [getAncestorBy]
  split
  case isTrue hc => rw [getAncestor, if_pos hc]
  case isFalse hc => exact skipWalk_of_ancestorLoop (ancestorLoop_eq h hn (by omega) (Nat.le_refl _))

lemma buildSkip_eq (h : SkipsTo pskip p.tail)
    (hp : pskip p = [] ∨ pskip p = getAncestor p (getSkipHeight (nHeight p))) :
    buildSkip pskip p = [] ∨ buildSkip pskip p = getAncestor p (getSkipHeight (nHeight p)) := by
  rw [buildSkip]
  split
  · exact hp
  rename_i ht
  have hpos : 0 < nHeight p := by
    have := List.length_pos_of_ne_nil ht
    rw [List.length_tail] at this
    exact this
  rw [getAncestorBy_eq h ht, getAncestor_tail (getSkipHeight_lt hpos)]
  exact .inr rfl

lemma SkipsTo.buildSkip [DecidableEq α] (h : SkipsTo pskip p.tail) (hz : pskip p = []) (hn : p ≠ []) :
    SkipsTo (Function.update pskip p (Taler.buildSkip pskip p)) p := by
  intro q hq
  by_cases he : q = p
  · rw [he, Function.update_self]
    exact buildSkip_eq h (.inl hz)
  rw [Function.update_of_ne he]
  cases p
  case nil => exact absurd rfl hn
  case cons b p =>
  have hq : q <:+ p := (List.suffix_cons_iff.mp hq).resolve_left he
  exact h q hq

end

end Taler
