import Mathlib.Data.List.FinRange
import Mathlib.Logic.Function.Basic

namespace Taler

open Function

-- A cache of `Element`s. Its vectors are functions, which are only used below `size`.
structure CuckooCache (Element : Type) where
  table : Nat → Element
  size : Nat
  collectionFlags : Nat → Bool
  epochFlags : Nat → Bool
  epochHeuristicCounter : Nat
  epochSize : Nat
  depthLimit : Nat

namespace CuckooCache

variable {Element : Type} (hash : Fin 8 → Element → BitVec 32)

-- The limit is the logarithm of the size, in floating-point numbers: here it is arbitrary.
def setup [Inhabited Element] (newSize : BitVec 32) (depthLimit : Nat) : CuckooCache Element :=
  let size := max 2 newSize.toNat
  let epochSize := max 1 (45 * size % 0x100000000 / 100)
  { table := fun _ => default
    size := size
    collectionFlags := fun _ => true
    epochFlags := fun _ => false
    epochHeuristicCounter := epochSize
    epochSize := epochSize
    depthLimit := depthLimit }

def invalid : Nat := 0xffffffff

variable (c : CuckooCache Element) (e : Element)

def computeHashes : List Nat :=
  (List.finRange 8).map fun i => ((hash i e).toNat * c.size) / 0x100000000

def epochCheck : CuckooCache Element :=
  if c.epochHeuristicCounter ≠ 0 then
    { c with epochHeuristicCounter := c.epochHeuristicCounter - 1 }
  else
    let epochUnusedCount :=
      (List.range c.size).countP fun i => c.epochFlags i && !c.collectionFlags i
    if epochUnusedCount ≥ c.epochSize then
      { c with
        epochFlags := fun _ => false
        collectionFlags := fun i => c.collectionFlags i || !c.epochFlags i
        epochHeuristicCounter := c.epochSize }
    else
      let growth := max (c.epochSize / 16) (c.epochSize - epochUnusedCount)
      { c with epochHeuristicCounter := max 1 growth }

def pleaseKeep (loc : Nat) (epoch : Bool) : CuckooCache Element :=
  { c with
    collectionFlags := update c.collectionFlags loc false
    epochFlags := update c.epochFlags loc epoch }

-- The element in hand goes where it may, or takes the place of another one that is then in hand.
def place (c : CuckooCache Element) (e : Element) (lastLoc : Nat) (lastEpoch : Bool) :
    Nat → CuckooCache Element
  | 0 => c
  | depth + 1 =>
    let locs := c.computeHashes hash e
    match locs.find? c.collectionFlags with
    | some loc => { c with table := update c.table loc e }.pleaseKeep loc lastEpoch
    | none =>
      let loc := locs.getD ((1 + locs.idxOf lastLoc) % 8) 0
      place
        { c with table := update c.table loc e, epochFlags := update c.epochFlags loc lastEpoch }
        (c.table loc) loc (c.epochFlags loc) depth

variable [DecidableEq Element]

def insert : CuckooCache Element :=
  let c := c.epochCheck
  match (c.computeHashes hash e).find? (c.table · = e) with
  | some loc => c.pleaseKeep loc true
  | none => c.place hash e invalid true c.depthLimit

def contains (erase : Bool) : Bool × CuckooCache Element :=
  match (c.computeHashes hash e).find? (c.table · = e) with
  | some loc =>
    (true, if erase then { c with collectionFlags := update c.collectionFlags loc true } else c)
  | none => (false, c)

inductive Op (Element : Type)
  | insert (e : Element)
  | contains (e : Element) (erase : Bool)

def perform (c : CuckooCache Element) : Op Element → CuckooCache Element
  | .insert e => c.insert hash e
  | .contains e erase => (c.contains hash e erase).2

section

omit [DecidableEq Element]

-- The element is at one of its places.
def Holds (x : Element) : Prop :=
  ∃ loc ∈ c.computeHashes hash x, c.table loc = x

-- An element comes into the table, and of what is there with it at most one element is lost.
structure Takes (c : CuckooCache Element) (e : Element) (c' : CuckooCache Element) : Prop where
  loses : ∃ y, ∀ x, c.Holds hash x ∨ x = e → x = y ∨ c'.Holds hash x
  table : ∀ loc, c'.table loc = e ∨ ∃ l, c'.table loc = c.table l

variable {hash} {c} {c' : CuckooCache Element} {e} {x : Element}

-- Which elements are there depends on the table alone.
lemma Holds.congr (h : c'.table = c.table ∧ c'.size = c.size) :
    c'.Holds hash x ↔ c.Holds hash x := by
  rw [Holds, Holds, computeHashes, computeHashes, h.1, h.2]

lemma epochCheck_same (c : CuckooCache Element) :
    c.epochCheck.table = c.table ∧ c.epochCheck.size = c.size := by
  rw [epochCheck]
  split
  · exact ⟨rfl, rfl⟩
  dsimp only
  split <;> exact ⟨rfl, rfl⟩

-- An element is put where it belongs, and the one that was there is lost.
lemma Holds.update {loc : Nat} (hl : loc ∈ c.computeHashes hash e)
    (ht : c'.table = update c.table loc e) (hs : c'.size = c.size)
    (hx : c.Holds hash x ∨ x = e) : x = c.table loc ∨ c'.Holds hash x := by
  rw [Holds, computeHashes, hs, ht]
  rcases hx with ⟨l, hm, he⟩ | rfl
  · by_cases h : l = loc
    · exact .inl (h ▸ he.symm)
    · exact .inr ⟨l, hm, by rw [update_of_ne h, he]⟩
  · exact .inr ⟨loc, hl, update_self ..⟩

variable (hash)

lemma place_takes (c : CuckooCache Element) (e : Element) (lastLoc : Nat) (lastEpoch : Bool)
    (depth) : c.Takes hash e (c.place hash e lastLoc lastEpoch depth) := by
  fun_induction c.place hash e lastLoc lastEpoch depth
  case case1 c e _ _ => exact ⟨⟨e, fun x hx => hx.symm⟩, fun loc => .inr ⟨loc, rfl⟩⟩
  case case2 c e _ _ _ locs loc hf =>
    refine ⟨⟨c.table loc, fun x => Holds.update (List.mem_of_find?_eq_some hf) rfl rfl⟩, fun l => ?_⟩
    by_cases h : l = loc
    · exact .inl (h ▸ update_self ..)
    · exact .inr ⟨l, update_of_ne h ..⟩
  case case3 c e lastLoc _ _ locs hf loc hi =>
  have hlt : (1 + locs.idxOf lastLoc) % 8 < locs.length := by
    have : locs.length = 8 := by simp [locs, computeHashes]
    omega
  have hl : loc ∈ c.computeHashes hash e := by
    rw [show loc = locs[(1 + locs.idxOf lastLoc) % 8] by simp [loc, hlt]]
    exact List.getElem_mem hlt
  have ⟨y, hy⟩ := hi.loses
  refine ⟨⟨y, fun x hx => hy x ?_⟩, fun l => ?_⟩
  · exact Or.symm (Holds.update hl rfl rfl hx)
  rcases hi.table l with he | ⟨k, he⟩
  · exact .inr ⟨loc, he⟩
  by_cases h : k = loc
  · exact .inl (he.trans (h ▸ update_self ..))
  · exact .inr ⟨k, he.trans (update_of_ne h ..)⟩

end

variable {c} {x : Element}

lemma contains_iff : (c.contains hash x erase).1 ↔ c.Holds hash x := by
  rw [contains, Holds]
  cases h : (c.computeHashes hash x).find? (c.table · = x)
  case none => simpa using h
  case some loc =>
  simp only [true_iff]
  exact ⟨loc, List.mem_of_find?_eq_some h, by simpa using List.find?_some h⟩

lemma contains_same (c : CuckooCache Element) (x : Element) (erase) :
    (c.contains hash x erase).2.table = c.table ∧ (c.contains hash x erase).2.size = c.size := by
  rw [contains]
  split
  · cases erase <;> exact ⟨rfl, rfl⟩
  · exact ⟨rfl, rfl⟩

lemma insert_takes (c : CuckooCache Element) (e) : c.Takes hash e (c.insert hash e) := by
  have hc := epochCheck_same c
  rw [insert]
  split
  case h_1 => exact ⟨⟨e, fun x hx => hx.symm.imp_right (Holds.congr (c := c) hc).mpr⟩,
    fun loc => .inr ⟨loc, congrFun hc.1 loc⟩⟩
  case h_2 =>
  have h := place_takes hash c.epochCheck e invalid true c.epochCheck.depthLimit
  have ⟨y, hy⟩ := h.loses
  exact ⟨⟨y, fun x hx => hy x (hx.imp_left (Holds.congr hc).mpr)⟩, hc.1 ▸ h.table⟩

lemma foldl_table (ops : List (Op Element)) (loc) :
    (∃ l, (ops.foldl (perform hash) c).table loc = c.table l) ∨
      .insert ((ops.foldl (perform hash) c).table loc) ∈ ops := by
  induction ops generalizing c
  case nil => exact .inl ⟨loc, rfl⟩
  case cons op ops hi =>
  rcases @hi (c.perform hash op) with ⟨l, he⟩ | h
  case inr => exact .inr (List.mem_cons_of_mem _ h)
  rw [List.foldl_cons, he]
  cases op
  case insert e =>
    refine (insert_takes hash c e).table l |>.symm.imp_right fun h => ?_
    rw [perform, h]
    exact List.mem_cons_self
  case contains e erase => exact .inl ⟨l, congrFun (contains_same hash c e erase).1 l⟩

-- Nothing is invented, an insertion loses one element at most, and marking one does not remove it.
theorem cuckooCache_sound [Inhabited Element] (newSize : BitVec 32) (depthLimit : Nat)
    (ops : List (Op Element)) :
    let c := ops.foldl (perform hash) (setup newSize depthLimit)
    (∀ x erase, (c.contains hash x erase).1 → x ≠ default → .insert x ∈ ops) ∧
    (∀ e, ∃ y, ∀ x, (c.contains hash x false).1 ∨ x = e → x ≠ y →
      ((c.insert hash e).contains hash x false).1) ∧
    ∀ x, (c.contains hash x true).1 → ((c.contains hash x true).2.contains hash x false).1 := by
  intro c
  simp only [contains_iff]
  refine ⟨?_, fun e => ?_, fun x => ?_⟩
  · rintro x - ⟨loc, -, he⟩ hd
    rcases foldl_table hash (c := setup newSize depthLimit) ops loc with ⟨_, ht⟩ | h
    · exact absurd (he.symm.trans ht) hd
    · exact he ▸ h
  · have ⟨y, hy⟩ := (insert_takes hash c e).loses
    exact ⟨y, fun x hx => (hy x hx).resolve_left⟩
  · exact (Holds.congr (contains_same hash c x true)).mpr

end CuckooCache

end Taler
