import Mathlib.Tactic.Ring

-- Byte codecs: readers that consume the front of a byte string, the little-endian integers, and
-- rules to compose what is known about readers.
namespace Codec

abbrev Bytes := List UInt8

abbrev Reader := StateT Bytes Option

variable {α γ : Type}

def Reads (r : Reader α) (bytes : Bytes) (a : α) : Prop :=
  ∀ rest, r (bytes ++ rest) = some (a, rest)

variable {r : Reader α} {f : α → Reader γ} {a a' : α} {c : γ} {b b' rest : Bytes} {k n : Nat}

lemma pure_apply (a b) : (pure a : Reader α) b = some (a, b) :=
  rfl

lemma bind_apply (r : Reader α) (f : α → Reader γ) (b) :
    (r >>= f) b = (r b).bind fun x => f x.1 x.2 := by
  simp [bind, StateT.bind]

lemma bind_eq_some :
    (r >>= f) b = some (c, rest) ↔ ∃ a b', r b = some (a, b') ∧ f a b' = some (c, rest) := by
  simp [bind_apply, Option.bind_eq_some_iff, Prod.exists]

namespace Reads

lemma pure (a : α) : Reads (Pure.pure a) [] a :=
  fun _ => rfl

lemma bind (h : Reads r b a) (hf : Reads (f a) b' c) : Reads (r >>= f) (b ++ b') c := by
  intro rest
  rw [List.append_assoc, bind_apply, h]
  exact hf rest

lemma unique (h : Reads r b a) (h' : Reads r b a') : a = a' := by
  have := (h []).symm.trans (h' [])
  exact congrArg Prod.fst (Option.some.inj this)

lemma eq_some (h : Reads r b a) : r b = some (a, []) := by
  have := h []
  rwa [List.append_nil] at this

end Reads

-- A reader accepts exactly what is written of the values in a set.
def Codes (r : Reader α) (w : α → Bytes) (ok : α → Prop) : Prop :=
  ∀ b a rest, r b = some (a, rest) ↔ ok a ∧ b = w a ++ rest

namespace Codes

variable {w : α → Bytes} {v : γ → Bytes} {ok : α → Prop} {E L : γ → Prop} {g : γ → α}

lemma reads (h : Codes r w ok) (ha : ok a) : Reads r (w a) a :=
  fun _ => (h ..).mpr ⟨ha, rfl⟩

lemma congr (h : Codes r w ok) (hw : ∀ a, ok a → w a = w' a) (ho : ∀ a, ok a ↔ ok' a) :
    Codes r w' ok' := by
  intro b a rest
  rw [h, ho]
  exact and_congr_right fun ha => by rw [hw a ((ho a).mpr ha)]

lemma bind_eq_some (h : Codes r w ok) : (r >>= f) b = some (c, rest) ↔
    ∃ a b', ok a ∧ b = w a ++ b' ∧ f a b' = some (c, rest) := by
  simp only [Codec.bind_eq_some, h _ _ _, and_assoc]

-- A field of a record, after the fields that `E` fixes and before those that are restricted by `L`.
lemma field (h : Codes r w ok) (hf : ∀ a, ok a → Codes (f a) v fun c => (E c ∧ g c = a) ∧ L c) :
    Codes (r >>= f) (fun c => w (g c) ++ v c) fun c => E c ∧ ok (g c) ∧ L c := by
  intro b c rest
  rw [h.bind_eq_some]
  constructor
  · rintro ⟨a, b', ho, rfl, hc⟩
    obtain ⟨⟨⟨he, rfl⟩, hl⟩, rfl⟩ := (hf a ho ..).mp hc
    exact ⟨⟨he, ho, hl⟩, (List.append_assoc ..).symm⟩
  rintro ⟨⟨he, ho, hl⟩, rfl⟩
  refine ⟨g c, v c ++ rest, ho, List.append_assoc .., ?_⟩
  exact (hf _ ho ..).mpr ⟨⟨⟨he, rfl⟩, hl⟩, rfl⟩

lemma pure (h : ∀ c', E c' ↔ c = c') : Codes (Pure.pure c) (fun _ => []) E := by
  intro b c' rest
  simp [pure_apply, h]

lemma last {m : α → γ} (h : Codes r w ok)
    (hm : ∀ a, ok a → ∀ c, (E c ∧ g c = a) ∧ L c ↔ m a = c) :
    Codes (r >>= fun a => Pure.pure (m a)) (fun c => w (g c)) fun c => E c ∧ ok (g c) ∧ L c :=
  (h.field fun a ha => pure (hm a ha)).congr (fun _ _ => List.append_nil _) fun _ => .rfl

lemma check {p : α → Prop} [DecidablePred p] (h : Codes r w ok) :
    Codes (r >>= fun a => if p a then failure else Pure.pure a) w fun a => ok a ∧ ¬p a := by
  intro b a rest
  rw [h.bind_eq_some]
  constructor
  · rintro ⟨a', b', ho, rfl, hp⟩
    split at hp
    · cases hp
    case isFalse hn =>
    cases hp
    exact ⟨⟨ho, hn⟩, rfl⟩
  rintro ⟨⟨ho, hn⟩, rfl⟩
  exact ⟨a, rest, ho, rfl, by rw [if_neg hn]; rfl⟩

lemma eq_of_prefix (h : Codes r w ok) (ha : ok a) (ha' : ok a') (hp : w a <+: w a') : a = a' := by
  obtain ⟨t, ht⟩ := hp
  have := h.reads ha t
  rw [ht, (h.reads ha').eq_some] at this
  exact (congrArg Prod.fst (Option.some.inj this)).symm

end Codes

def readByte : Reader UInt8
  | [] => none
  | b :: bytes => some (b, bytes)

lemma readByte_codes : Codes readByte (fun b => [b]) fun _ => True := by
  intro b a rest
  cases b <;> simp [readByte]

def writeLE : Nat → Nat → Bytes
  | 0, _ => []
  | k + 1, n => UInt8.ofNat n :: writeLE k (n / 256)

def readLE : Nat → Reader Nat
  | 0 => pure 0
  | k + 1 => do
    let b ← readByte
    let n ← readLE k
    pure (b.toNat + 256 * n)

@[simp]
lemma writeLE_length : (writeLE k n).length = k := by
  induction k generalizing n
  case zero => rfl
  case succ k hi => simp [writeLE, hi]

lemma readLE_codes : Codes (readLE k) (writeLE k) (· < 256 ^ k) := by
  induction k
  case zero => exact Codes.pure (by simp [eq_comm])
  case succ k hi =>
  rw [readLE]
  refine (readByte_codes.field (E := fun _ => True) (g := UInt8.ofNat) fun b _ =>
    hi.last (g := (· / 256)) (L := fun _ => True) fun n hn c => ?_).congr (fun _ _ => rfl) fun n => ?_
  · have := b.toNat_lt
    constructor
    · rintro ⟨⟨⟨-, rfl⟩, rfl⟩, -⟩
      rw [UInt8.toNat_ofNat']
      omega
    rintro rfl
    refine ⟨⟨⟨trivial, UInt8.toNat_inj.mp ?_⟩, by omega⟩, trivial⟩
    rw [UInt8.toNat_ofNat']
    omega
  · simp only [true_and, and_true]
    omega

lemma writeLE_injective (hn : n < 256 ^ k) (hm : m < 256 ^ k) (h : writeLE k n = writeLE k m) :
    n = m :=
  (readLE_codes.reads hn).unique (h ▸ readLE_codes.reads hm)

def readMany (r : Reader α) : Nat → Reader (List α)
  | 0 => pure []
  | n + 1 => do
    let a ← r
    let as ← readMany r n
    pure (a :: as)

end Codec
