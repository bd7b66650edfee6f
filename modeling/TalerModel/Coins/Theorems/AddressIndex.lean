import TalerModel.Coins.AddressIndex
import TalerModel.Library.PartialMap

namespace Taler

def CAddressValue.live (value : CAddressValue) : Option CAddressValue :=
  if value.height > 0 then some value else none

lemma CAddressValue.live_eq_some {value : CAddressValue} (h : 0 < value.height) :
    value.live = some value :=
  if_pos h

lemma CAddressValue.live_tombstone : ({} : CAddressValue).live = none :=
  rfl

namespace CAddressIndexDB

-- All entries for an outpoint are filed under the same script.
structure Filed (file : COutPoint → CScript) (index : CAddressIndexDB) : Prop where
  cache : index.cache.lookup out = some (script, value) → script = file out
  db : index.db key = some value → key.script = file key.out

-- An index whose entries are filed that way is a partial map from outpoints.
def record (file : COutPoint → CScript) (index : CAddressIndexDB) (out : COutPoint) :
    Option CAddressValue :=
  index.read (file out) out

variable {index index' : CAddressIndexDB} {file : COutPoint → CScript} {key : CAddressKey}
  {value : CAddressValue} {script : CScript} {out : COutPoint}

lemma read_cached (h : index.cache.lookup out = some (script, value)) :
    index.read script out = value.live := by
  simp [read, h, CAddressValue.live]

lemma read_uncached (h : index.cache.lookup out = none) :
    index.read script out = index.db { script := script, out := out } := by
  simp [read, h]

section

variable (h : index.Filed file)
include h

lemma Filed.read (script out) :
    index.read script out = if script = file out then index.record file out else none := by
  split
  case isTrue hs => rw [hs, record]
  rename_i hs
  have hd : index.db { script := script, out := out } = none := by
    by_contra hn
    have ⟨value, hv⟩ := Option.ne_none_iff_exists'.mp hn
    exact hs (h.db hv)
  cases hl : index.cache.lookup out
  case none => rw [read_uncached hl, hd]
  case some entry =>
  have hne : entry.1 ≠ script := fun he => hs (he ▸ h.cache hl)
  simp [CAddressIndexDB.read, hl, hne, hd]

lemma Filed.read_congr (h' : index'.Filed file) (hr : index'.record file = index.record file) :
    index'.read = index.read := by
  funext script out
  rw [h.read, h'.read, hr]

lemma Filed.read_eq_iff (h' : index'.Filed file) :
    index'.read = index.read ↔ index'.record file = index.record file := by
  constructor
  · intro hr
    funext out
    rw [record, record, hr]
  · exact h.read_congr h'

lemma Filed.flush_cached (hl : index.cache.lookup out = some entry) :
    index.flush.db { script := file out, out := out } = entry.2.live := by
  have hs := h.cache hl
  simp only [flush, hl, hs, ne_eq, not_true_eq_false, if_false, CAddressValue.live]
  split <;> split <;> first | rfl | omega

lemma Filed.flush : index.flush.Filed file ∧ index.flush.record file = index.record file := by
  constructor
  case left =>
    constructor
    case cache => exact fun hl => by simp [CAddressIndexDB.flush] at hl
    case db =>
    intro key _ hd
    simp only [CAddressIndexDB.flush] at hd
    split at hd
    case h_1 => exact h.db hd
    rename_i hl
    split at hd
    · exact h.db hd
    case isFalse hs =>
    rw [← h.cache hl]
    exact (not_not.mp hs).symm
  case right =>
  funext out
  rw [record, read_uncached (by simp [CAddressIndexDB.flush])]
  cases hl : index.cache.lookup out
  case none =>
    rw [record, read_uncached hl]
    simp [CAddressIndexDB.flush, hl]
  case some entry =>
  rw [h.flush_cached hl, record, ← h.cache hl, read_cached hl]

lemma Filed.assign (hk : key.script = file key.out) (value) : (index.assign key value).Filed file ∧
    (index.assign key value).record file =
      Function.update (index.record file) key.out value.live := by
  have hs : ((index.cache.lookup key.out).map Prod.fst).getD key.script = file key.out := by
    cases hl : index.cache.lookup key.out
    case none => exact hk
    case some entry => exact h.cache hl
  have hl : (index.assign key value).cache.lookup key.out = some (file key.out, value) := by
    rw [CAddressIndexDB.assign, hs]
    exact Finmap.lookup_insert _
  have hn {out : COutPoint} (hne : out ≠ key.out) :
      (index.assign key value).cache.lookup out = index.cache.lookup out :=
    Finmap.lookup_insert_of_ne _ hne
  constructor
  case left =>
    constructor
    case cache =>
      intro out script value' hc
      by_cases ho : out = key.out
      · rw [ho, hl] at hc
        cases hc
        rw [ho]
      rw [hn ho] at hc
      exact h.cache hc
    case db => exact h.db
  case right =>
  funext out
  by_cases ho : out = key.out
  · rw [ho, Function.update_self, record, read_cached hl]
  rw [Function.update_of_ne ho]
  simp only [record, CAddressIndexDB.read, hn ho]
  rfl

lemma Filed.write (hk : key.script = file key.out) (value) : (index.write key value).Filed file ∧
    (index.write key value).record file =
      Function.update (index.record file) key.out value.live := by
  rw [CAddressIndexDB.write]
  split
  · have ⟨hf, hr⟩ := h.flush
    exact hr ▸ hf.assign hk value
  · exact h.assign hk value

end

def writeAll (index : CAddressIndexDB) (writes : List (CAddressKey × CAddressValue)) :
    CAddressIndexDB :=
  writes.foldl (fun index write => index.write write.1 write.2) index

def recorded (writes : List (CAddressKey × CAddressValue)) :
    List (COutPoint × Option CAddressValue) :=
  writes.map fun write => (write.1.out, write.2.live)

lemma Filed.writeAll (h : index.Filed file)
    (hk : ∀ write ∈ writes, write.1.script = file write.1.out) :
    (index.writeAll writes).Filed file ∧
    (index.writeAll writes).record file =
      PartialMap.updateAll (index.record file) (recorded writes) := by
  induction writes generalizing index
  case nil => exact ⟨h, rfl⟩
  case cons write writes hi =>
  have ⟨hw, hk⟩ := List.forall_mem_cons.mp hk
  have ⟨hf, hr⟩ := h.write hw write.2
  have ⟨hf', hr'⟩ := hi hf hk
  exact ⟨hf', by rw [hr] at hr'; exact hr'⟩

lemma Filed.writeAll_other (h : index.Filed file)
    (hk : ∀ write ∈ writes, write.1.script = file write.1.out)
    (ho : ∀ write ∈ writes, write.1.out ≠ out) :
    (index.writeAll writes).record file out = index.record file out := by
  rw [(h.writeAll hk).2]
  apply PartialMap.updateAll_not_mem
  simpa [recorded] using ho

inductive Call
  | write (script : CScript) (out : COutPoint) (value : CAddressValue)
  | flush

def empty : CAddressIndexDB where
  cache := ∅
  db _ := none

variable [Crypto] {cs : List Call}

def call (index : CAddressIndexDB) : Call → CAddressIndexDB
  | .write script out value => index.write (.ofScript script out) value
  | .flush => index.flush

-- The value of the last write for the outpoint under a script with the same normal form.
def lastWritten (script : CScript) (out : COutPoint) (last : Option CAddressValue) :
    Call → Option CAddressValue
  | .write script' out' value =>
    if out' = out ∧ addressScript script' = addressScript script then value.live else last
  | .flush => last

-- Every outpoint is written under scripts with one normal form.
def Call.Files (file : COutPoint → CScript) : Call → Prop
  | .write script out _ => addressScript script = file out
  | .flush => True

lemma Filed.call (h : index.Filed file) {call : Call} (hc : call.Files file) (script out) :
    (index.call call).Filed file ∧ ((index.call call).read (addressScript script) out =
      lastWritten script out (index.read (addressScript script) out) call) := by
  cases call
  case write script' out' value =>
    have hk : (CAddressKey.ofScript script' out').script = file out' := hc
    have ⟨hf, hr⟩ := h.write hk value
    refine ⟨hf, ?_⟩
    simp only [CAddressIndexDB.call, lastWritten, h.read, hf.read, hr]
    grind [Call.Files, CAddressKey.ofScript]
  case flush =>
  have ⟨hf, hr⟩ := h.flush
  exact ⟨hf, by rw [CAddressIndexDB.call, h.read_congr hf hr, lastWritten]⟩

lemma Filed.calls (h : index.Filed file) (hc : ∀ call ∈ cs, call.Files file) (script out) :
    (cs.foldl CAddressIndexDB.call index).Filed file ∧
    (cs.foldl CAddressIndexDB.call index).read (addressScript script) out =
      cs.foldl (lastWritten script out) (index.read (addressScript script) out) := by
  induction cs generalizing index
  case nil => exact ⟨h, rfl⟩
  case cons call cs hi =>
  have ⟨hh, ht⟩ := List.forall_mem_cons.mp hc
  have ⟨hf, hr⟩ := h.call hh script out
  rw [List.foldl_cons, List.foldl_cons, ← hr]
  exact hi hf ht

end CAddressIndexDB

section

open CAddressIndexDB

local instance instCryptoScripts : Crypto :=
  .additive

end

end Taler
