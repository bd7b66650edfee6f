import Mathlib
import TalerModel.Net.Theorems.AddrCheck
import TalerModel.Net.Theorems.AddrReload

namespace Taler

namespace AddrMan

structure History where
  man : CAddrMan
  queuedFor : Int → Option CService

namespace History

-- What `Check_` tests, and no queued id has come to denote another entry.
structure Consistent [AddrOps] (h : History) : Prop where
  check : h.man.check = 0
  queued {n : Int} {info : CAddrInfo} : n ∈ h.man.m_tried_collisions →
    h.man.mapInfo[n]? = some info → h.queuedFor n = some info.toCService

def start (nKey : Uint256) : History where
  man := CAddrMan.start nKey
  queuedFor := fun _ => none

variable [AddrOps]

def perform (h : History) (op : Op) : Option History := do
  let man ← AddrMan.perform h.man op
  return {
    man
    queuedFor := fun n =>
      if n ∈ h.man.m_tried_collisions then h.queuedFor n
      else if n ∈ man.m_tried_collisions then man.mapInfo[n]?.map (·.toCService)
      else none }

def run (h : History) (ops : List Op) : Option History :=
  ops.foldlM perform h

end History

-- The tables are emptied only when nothing waits for a place, and times are not before the epoch.
def Op.Fits (s : CAddrMan) : Op → Prop
  | .good _ _ nTime _ => 0 < nTime
  | .attempt _ _ nTime => 0 ≤ nTime
  | .resolveCollisions nNow _ => ∀ n k, 0 < nNow n k
  | .clear nKey => nKey ≠ 0 ∧ s.m_tried_collisions.isEmpty
  | .reload _ => s.m_tried_collisions.isEmpty
  | _ => True

section

variable [AddrOps]

def Heeded : History → List Op → Prop
  | _, [] => True
  | h, op :: ops => op.Fits h.man ∧ ∀ h', h.perform op = some h' → Heeded h' ops

section

open CAddrMan

variable {s s' : CAddrMan}

lemma Sound.of_isEmpty (h : Inv s 0 fun _ => False) (hk : s.nKey ≠ 0)
    (he : s.m_tried_collisions.isEmpty) : Sound s where
  toInv := h
  nKey := hk
  waits := fun hn => absurd hn (Std.TreeSet.not_mem_of_isEmpty he)

lemma perform_sound (h : Sound s) (hf : op.Fits s) :
    ∃ s', AddrMan.perform s op = some s' ∧ Sound s' ∧
      (s.Follows s' ∨ s'.m_tried_collisions.isEmpty) := by
  have hkeeps {o : Option CAddrMan} (hk : Keeps s o) :
      ∃ s', o = some s' ∧ Sound s' ∧ (s.Follows s' ∨ s'.m_tried_collisions.isEmpty) := by
    have ⟨s', he, hi, hf⟩ := hk
    exact ⟨s', he, hf.sound h hi, .inl hf⟩
  cases op
  case add => exact hkeeps (h.toInv.add ..)
  case good => exact hkeeps (h.toInv.good _ _ hf _)
  case attempt addr fCountFailure nTime =>
    refine hkeeps (h.toInv.update addr (fun info => ?_) (fun info => ?_) fun info _ => ?_)
    all_goals dsimp only; split
    all_goals first | exact ⟨rfl, rfl⟩ | exact ⟨hf, rfl⟩
  case connected addr nTime =>
    refine hkeeps (h.toInv.update addr (fun info => ?_) (fun info => ?_) fun info ht => ?_)
    all_goals split
    all_goals first | exact ⟨rfl, rfl⟩ | exact ⟨ht, rfl⟩
  case setServices addr nServices =>
    exact hkeeps (h.toInv.update addr (fun _ => ⟨rfl, rfl⟩) (fun _ => ⟨rfl, rfl⟩) fun _ ht => ⟨ht, rfl⟩)
  case resolveCollisions => exact hkeeps (h.resolveCollisions hf _)
  case selectTriedCollision => exact hkeeps (h.selectTriedCollision _)
  case select => exact hkeeps (h.toInv.select ..)
  case getAddr => exact hkeeps (h.toInv.getAddr ..)
  case clear nKey =>
    have ⟨hk, he⟩ := hf
    exact ⟨_, rfl, Sound.of_isEmpty (.clear s nKey) hk he, .inr he⟩
  case reload nRnd =>
    have ⟨s', he, hi, hl⟩ := h.toInv.loadFrom s nRnd
    have he' : s'.m_tried_collisions.isEmpty := hl.collisions ▸ hf
    exact ⟨s', he, Sound.of_isEmpty hi (hl.nKey ▸ h.nKey) he', .inr he'⟩
  case reopen nRnd =>
  have ⟨s', he, hi, hl⟩ := h.toInv.loadFrom (CAddrMan.start nRnd) nRnd
  have he' : s'.m_tried_collisions.isEmpty := by rw [hl.collisions]; rfl
  exact ⟨s', he, Sound.of_isEmpty hi (hl.nKey ▸ h.nKey) he', .inr he'⟩

structure Kept (h : History) : Prop where
  sound : Sound h.man
  queued {n : Int} {info : CAddrInfo} : n ∈ h.man.m_tried_collisions →
    h.man.mapInfo[n]? = some info → h.queuedFor n = some info.toCService

lemma Kept.perform (hk : Kept h) (hf : op.Fits h.man) :
    ∃ h', h.perform op = some h' ∧ Kept h' := by
  have ⟨s', he, hs, hq⟩ := perform_sound hk.sound hf
  refine ⟨_, by rw [History.perform, he]; rfl, hs, fun {n info'} hn hinfo => ?_⟩
  change (if n ∈ h.man.m_tried_collisions then h.queuedFor n
    else if n ∈ s'.m_tried_collisions then s'.mapInfo[n]?.map (·.toCService) else none) = _
  rcases hq with hfol | hempty
  case inr => exact absurd hn (Std.TreeSet.not_mem_of_isEmpty hempty)
  case inl =>
  by_cases hold : n ∈ h.man.m_tried_collisions
  · have ⟨info, hi, hsv⟩ := hfol.service hinfo (hk.sound.waits hold).bound
    rw [if_pos hold, hk.queued hold hi, hsv]
  · rw [if_neg hold, if_pos hn, hinfo, Option.map_some]

lemma Kept.run {h : History} (hk : Kept h) {ops : List Op} (hf : Heeded h ops) :
    ∃ h', h.run ops = some h' ∧ Kept h' := by
  induction ops generalizing h
  case nil => exact ⟨h, rfl, hk⟩
  case cons op ops hi =>
  have ⟨h1, he1, hk1⟩ := hk.perform hf.1
  have ⟨h', he', hk'⟩ := hi hk1 (hf.2 h1 he1)
  refine ⟨h', ?_, hk'⟩
  rw [History.run, List.foldlM_cons, he1]
  exact he'

lemma Kept.start {nKey : Uint256} (hk : nKey ≠ 0) : Kept (.start nKey) where
  sound := Sound.of_isEmpty (.start nKey) hk rfl
  queued := fun hn => absurd hn (Std.TreeSet.not_mem_of_isEmpty rfl)

end

end

section

def peer (n : Nat) : CAddress :=
  { ip := n, port := n, nTime := 1000 }

def collidingOps.queue : List Op :=
  [.add (peer 1) (peer 9).toCNetAddr 0 1000 0, .good (peer 1).toCService true 1000 0,
    .add (peer 2) (peer 9).toCNetAddr 0 1000 0, .good (peer 2).toCService true 1000 0]

end

end AddrMan

end Taler
