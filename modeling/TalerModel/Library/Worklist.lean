import TalerModel.Library.Effect
import TalerModel.Library.OrderedMap

-- Work lists: a visit of a key may put further keys on the list, and no key is visited twice.
namespace Worklist

open Std.TreeSet

variable {κ ε σ : Type} {cmp : κ → κ → Ordering}

-- Visits the least key first until none or no fuel is left. Returns the rest of the list.
def run (visit : κ → EStateM ε σ (List κ)) :
    Nat → Std.TreeSet κ cmp → Std.TreeSet κ cmp → EStateM ε σ (Std.TreeSet κ cmp)
  | 0, todo, _ => pure todo
  | fuel + 1, todo, done =>
    match todo.min? with
    | none => pure todo
    | some now => do
      let next ← visit now
      let done := done.insert now
      run visit fuel ((todo.erase now).insertMany (next.filter (!done.contains ·))) done

variable {visit : κ → EStateM ε σ (List κ)} {todo done left : Std.TreeSet κ cmp}

lemma run_leads (hr : ∀ s, R s s) (ht : ∀ {s1 s2 s3}, R s1 s2 → R s2 s3 → R s1 s3)
    (h : ∀ k, EStateM.Leads R (visit k)) (fuel) (todo done : Std.TreeSet κ cmp) :
    EStateM.Leads R (run visit fuel todo done) := by
  induction fuel generalizing todo done
  case zero => exact .pure hr todo
  case succ fuel hi =>
  rw [run]
  cases todo.min?
  case none => exact .pure hr todo
  case some now => exact .bind ht (h now) fun next => hi _ _

variable [Std.TransCmp cmp]

variable [Std.LawfulEqCmp cmp] [DecidableEq κ]

lemma run_singleton (k fuel) : run visit (fuel + 1) (ofList [k] cmp) done = (visit k >>= fun next =>
      run visit fuel (((ofList [k] cmp).erase k).insertMany
        (next.filter (!(done.insert k).contains ·))) (done.insert k)) := by
  have hmem {a : κ} : a ∈ ofList [k] cmp ↔ a = k := by
    rw [mem_ofList, List.contains_iff_mem, List.mem_singleton]
  have hmin : (ofList [k] cmp).min? = some k := by
    cases h : (ofList [k] cmp).min?
    case none =>
      have he := min?_eq_none_iff.mp h
      exact absurd (hmem.mpr rfl) (isEmpty_iff_forall_not_mem.mp he k)
    case some a =>
    have ha := mem_iff_contains.mpr (contains_min? h)
    rw [hmem.mp ha]
  rw [run, hmin]

lemma mem_next {next : List κ} : k ∈ (todo.erase now).insertMany
      (next.filter (!(done.insert now).contains ·)) ↔
    (k ≠ now ∧ k ∈ todo) ∨ (k ∈ next ∧ k ≠ now ∧ k ∉ done) := by
  have hc : (!(done.insert now).contains k) = true ↔ k ≠ now ∧ k ∉ done := by
    rw [Bool.not_eq_true', Bool.eq_false_iff, ne_eq, ← mem_iff_contains,
      mem_insert, Std.LawfulEqCmp.compare_eq_iff_eq, not_or, ne_comm]
  rw [mem_insertMany_list, mem_erase, List.contains_iff_mem, List.mem_filter,
    hc, ne_eq, Std.LawfulEqCmp.compare_eq_iff_eq, ← ne_eq, ne_comm]

lemma run_yields {Q : κ → Prop}
    (h : ∀ {k s}, Q k → P s → EStateM.Yields (visit k) s fun next s' => P s' ∧ ∀ a ∈ next, Q a)
    (htodo : ∀ k ∈ todo, Q k) (hp : P s) :
    EStateM.Yields (run visit fuel todo done) s fun _ => P := by
  induction fuel generalizing todo done s
  case zero => exact .pure hp
  case succ fuel hi =>
  rw [run]
  cases hm : todo.min?
  case none => exact .pure hp
  rename_i now
  have hnow := htodo now (mem_iff_contains.mpr (contains_min? hm))
  refine EStateM.Yields.bind (h hnow hp) fun next s1 ⟨hp1, hnext⟩ => ?_
  refine hi (fun k hk => ?_) hp1
  cases mem_next.mp hk
  case inl hk => exact htodo k hk.2
  case inr hk => exact hnext k hk.1

lemma run_preserves {P : σ → Prop} {Q : κ → Prop} (h : ∀ {k s next s'}, Q k → P s →
      visit k s = .ok next s' → P s' ∧ ∀ a ∈ next, Q a)
    (htodo : ∀ k ∈ todo, Q k) (hp : P s) (hrun : run visit fuel todo done s = .ok left s') :
    P s' := by
  induction fuel generalizing todo done s
  case zero =>
    have ⟨_, he⟩ := EStateM.pure_eq_ok.mp hrun
    exact he ▸ hp
  case succ fuel hi =>
  rw [run] at hrun
  cases hm : todo.min?
  case none =>
    simp only [hm] at hrun
    have ⟨_, he⟩ := EStateM.pure_eq_ok.mp hrun
    exact he ▸ hp
  rename_i now
  simp only [hm] at hrun
  have ⟨next, s1, hv, hrest⟩ := EStateM.bind_eq_ok.mp hrun
  have hnow := htodo now (mem_iff_contains.mpr (contains_min? hm))
  have ⟨hp1, hnext⟩ := h hnow hp hv
  refine hi (fun k hk => ?_) hp1 hrest
  cases mem_next.mp hk
  case inl hk => exact htodo k hk.2
  case inr hk => exact hnext k hk.1

end Worklist
