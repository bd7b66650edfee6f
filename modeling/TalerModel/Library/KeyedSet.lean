import Mathlib.Data.List.Basic
import Mathlib.Order.Basic

-- A `KeyedSet key` is an ordered set whose comparator only looks at `key`: two elements with the
-- same key are equivalent for it, even if they differ. This is what a container ordered by a strict
-- weak order does when that order is not total.
structure KeyedSet {α : Type u} (key : α → Nat) where
  elems : List α
  sorted : elems.Pairwise (key · < key ·)

namespace KeyedSet

open List

variable {α : Type u} {key : α → Nat} {s : KeyedSet key}

instance : Membership α (KeyedSet key) where
  mem s a := a ∈ s.elems

lemma mem_def : a ∈ s ↔ a ∈ s.elems :=
  .rfl

instance [DecidableEq α] (a : α) (s : KeyedSet key) : Decidable (a ∈ s) :=
  inferInstanceAs (Decidable (a ∈ s.elems))

def empty : KeyedSet key where
  elems := []
  sorted := .nil

def size (s : KeyedSet key) : Nat :=
  s.elems.length

@[simp]
lemma not_mem_empty (a) : a ∉ (empty : KeyedSet key) :=
  not_mem_nil

lemma key_inj (ha : a ∈ s) (hb : b ∈ s) (h : key a = key b) : a = b := by
  have hs := s.sorted
  rw [mem_def] at ha hb
  generalize s.elems = l at ha hb hs
  induction l
  case nil => simp at ha
  case cons c l hi =>
  rw [pairwise_cons] at hs
  rcases mem_cons.mp ha with rfl | ha' <;> rcases mem_cons.mp hb with rfl | hb'
  · rfl
  · exact absurd h (Nat.ne_of_lt <| hs.1 _ hb')
  · exact absurd h (Nat.ne_of_gt <| hs.1 _ ha')
  · exact hi ha' hb' hs.2

-- Inserting an element that is equivalent to one already present changes nothing.
def insert (s : KeyedSet key) (a : α) : KeyedSet key :=
  if h : ∃ b ∈ s.elems, key b = key a then s else
  { elems := s.elems.filter (key · < key a) ++ a :: s.elems.filter (key a < key ·)
    sorted := by
      refine pairwise_append.mpr ⟨s.sorted.filter _, ?_, ?_⟩
      · refine pairwise_cons.mpr ⟨?_, s.sorted.filter _⟩
        simp
      simp only [mem_filter, mem_cons, decide_eq_true_eq]
      rintro b ⟨-, hb⟩ c (rfl | ⟨-, hc⟩)
      · exact hb
      · exact Nat.lt_trans hb hc }

lemma mem_insert : b ∈ s.insert a ↔ b ∈ s ∨ (b = a ∧ ∀ c ∈ s, key c ≠ key a) := by
  by_cases h : ∃ c ∈ s.elems, key c = key a
  · have ⟨c, hc, he⟩ := h
    simp only [insert, h, dif_pos]
    refine ⟨.inl, Or.rec id ?_⟩
    exact fun ⟨_, hn⟩ => absurd he (hn c hc)
  simp only [insert, h, dif_neg, not_false_eq_true]
  simp only [mem_def, mem_append, mem_filter, mem_cons, decide_eq_true_eq]
  push Not at h
  constructor
  · rintro (⟨hb, -⟩ | rfl | ⟨hb, -⟩)
    · exact .inl hb
    · exact .inr ⟨rfl, h⟩
    · exact .inl hb
  rintro (hb | ⟨rfl, -⟩)
  · rcases Nat.lt_trichotomy (key b) (key a) with hl | he | hg
    · exact .inl ⟨hb, hl⟩
    · exact absurd he (h b hb)
    · exact .inr <| .inr ⟨hb, hg⟩
  · exact .inr <| .inl rfl

lemma mem_insert_of_mem (h : b ∈ s) : b ∈ s.insert a :=
  mem_insert.mpr <| .inl h

lemma mem_insert_self (h : ∀ b ∈ s, key b = key a → b = a) : a ∈ s.insert a := by
  by_cases ha : a ∈ s
  · exact mem_insert_of_mem ha
  · exact mem_insert.mpr <| .inr ⟨rfl, fun b hb he => ha <| h b hb he ▸ hb⟩

lemma exists_mem_insert (s : KeyedSet key) (a) : ∃ b ∈ s.insert a, key b = key a := by
  by_cases h : ∃ b ∈ s, key b = key a
  · have ⟨b, hb, he⟩ := h
    exact ⟨b, mem_insert_of_mem hb, he⟩
  · exact ⟨a, mem_insert_self fun b hb he => absurd ⟨b, hb, he⟩ h, rfl⟩

lemma eq_or_mem_of_mem_insert (h : b ∈ s.insert a) : b = a ∨ b ∈ s :=
  mem_insert.mp h |>.symm.imp_left And.left

def erase (s : KeyedSet key) (a : α) : KeyedSet key where
  elems := s.elems.filter (key · ≠ key a)
  sorted := s.sorted.filter _

lemma mem_erase : b ∈ s.erase a ↔ b ∈ s ∧ key b ≠ key a := by
  simp [erase, mem_def]

def pruneBelow (s : KeyedSet key) (k : Nat) : KeyedSet key where
  elems := s.elems.filter (k ≤ key ·)
  sorted := s.sorted.filter _

lemma mem_pruneBelow : b ∈ s.pruneBelow k ↔ b ∈ s ∧ k ≤ key b := by
  simp [pruneBelow, mem_def]

def max? (s : KeyedSet key) : Option α :=
  s.elems.getLast?

lemma max?_eq_none (h : s.max? = none) : a ∉ s := by
  rw [max?, getLast?_eq_none_iff] at h
  simp [mem_def, h]

lemma max?_mem (h : s.max? = some a) : a ∈ s :=
  mem_of_getLast? h

lemma key_le_max? (h : s.max? = some a) (hb : b ∈ s) : key b ≤ key a := by
  have hs := s.sorted
  have ⟨l, hl⟩ := getLast?_eq_some_iff.mp h
  rw [mem_def, hl, mem_append, mem_singleton] at hb
  rw [hl, pairwise_append] at hs
  rcases hb with hb | rfl
  · exact Nat.le_of_lt <| hs.2.2 b hb a (mem_singleton_self a)
  · exact Nat.le_refl _

end KeyedSet
