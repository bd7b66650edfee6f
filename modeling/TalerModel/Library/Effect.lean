import Mathlib.Tactic.Ring

-- A value together with the exact results of the machine operations that led to it.
structure Traced (α : Type u) where
  val : α
  exact : List ℤ := []

namespace Traced

instance : Monad Traced where
  pure a := { val := a }
  bind x f := { val := (f x.val).val, exact := x.exact ++ (f x.val).exact }

def op (wrap : ℤ → ℤ) (n : ℤ) : Traced ℤ where
  val := wrap n
  exact := [n]

def Fits (p : ℤ → Prop) (x : Traced α) : Prop :=
  ∀ n ∈ x.exact, p n

instance [DecidablePred p] (x : Traced α) : Decidable (x.Fits p) :=
  inferInstanceAs (Decidable (∀ n ∈ x.exact, p n))

variable {p : ℤ → Prop} {α β : Type u} {x : Traced α} {f : α → Traced β}

@[simp]
lemma pure_val (a) : (pure a : Traced α).val = a :=
  rfl

@[simp]
lemma bind_val (x) (f : α → Traced β) : (x >>= f).val = (f x.val).val :=
  rfl

@[simp]
lemma op_val (wrap n) : (op wrap n).val = wrap n :=
  rfl

@[simp]
lemma pure_fits (a) : (pure a : Traced α).Fits p := by
  simp [Fits, pure]

@[simp]
lemma op_fits : (op wrap n).Fits p ↔ p n := by
  simp [Fits, op]

@[simp]
lemma bind_fits : (x >>= f).Fits p ↔ x.Fits p ∧ (f x.val).Fits p := by
  simp [Fits, bind, or_imp, forall_and]

end Traced

namespace EStateM

variable {x : EStateM ε σ α} {f : α → EStateM ε σ β} {part : σ → γ}

lemma bind_eq_ok : (x >>= f) s = .ok b s' ↔ ∃ a s1, x s = .ok a s1 ∧ f a s1 = .ok b s' := by
  simp only [bind, EStateM.bind]
  cases x s
  case ok a s1 => exact ⟨fun h => ⟨a, s1, rfl, h⟩, fun ⟨_, _, he, h⟩ => by cases he; exact h⟩
  case error => simp

lemma bind_of_ok (h : x s = .ok a s1) : (x >>= f) s = f a s1 := by
  simp [bind, EStateM.bind, h]

lemma bind_of_error (h : x s = .error e s1) : (x >>= f) s = .error e s1 := by
  simp [bind, EStateM.bind, h]

lemma bind_get {f : σ → EStateM ε σ β} : (get >>= f) s = f s s :=
  rfl

lemma pure_eq_ok : (pure a : EStateM ε σ α) s = .ok b s' ↔ a = b ∧ s = s' := by
  simp [pure, EStateM.pure]

-- A computation returns a value, in a state with a property.
def Reaches (x : EStateM ε σ α) (s : σ) (a : α) (post : σ → Prop) : Prop :=
  ∃ s', x s = .ok a s' ∧ post s'

lemma Reaches.bind (hx : Reaches x s a mid) (hf : ∀ s1, mid s1 → Reaches (f a) s1 b post) :
    Reaches (x >>= f) s b post := by
  have ⟨s1, hx, hm⟩ := hx
  have ⟨s', hf, hp⟩ := hf s1 hm
  exact ⟨s', (bind_of_ok hx).trans hf, hp⟩

-- A computation returns, with a value and in a state that have a property.
def Yields (x : EStateM ε σ α) (s : σ) (post : α → σ → Prop) : Prop :=
  ∃ a s', x s = .ok a s' ∧ post a s'

lemma Yields.pure (h : post a s) : Yields (Pure.pure a : EStateM ε σ α) s post :=
  ⟨a, s, rfl, h⟩

lemma Yields.bind (hx : Yields x s mid) (hf : ∀ a s1, mid a s1 → Yields (f a) s1 post) :
    Yields (x >>= f) s post := by
  have ⟨a, s1, hx, hm⟩ := hx
  have ⟨b, s', hf, hp⟩ := hf a s1 hm
  exact ⟨b, s', (bind_of_ok hx).trans hf, hp⟩

lemma Yields.get {f : σ → EStateM ε σ β} (h : Yields (f s) s post) :
    Yields (MonadState.get >>= f) s post :=
  h

lemma Yields.imp (h : Yields x s post) (hi : ∀ a s', post a s' → post' a s') : Yields x s post' :=
  have ⟨a, s', hx, hp⟩ := h
  ⟨a, s', hx, hi a s' hp⟩

-- Loops over a list: invariants of the state and what is accumulated, by the elements done.

lemma Yields.forM {l : List γ} (h : ∀ c ∈ l, ∀ s, P s → Yields (g c) s fun _ => P) (hp : P s) :
    Yields (l.forM g) s fun _ => P := by
  induction l generalizing s
  case nil => exact .pure hp
  case cons c l hi =>
  refine Yields.bind (h c List.mem_cons_self s hp) fun _ s1 hp1 => ?_
  exact hi (fun c hc => h c (List.mem_cons_of_mem _ hc)) hp1

lemma Yields.foldlM {P : List γ → β → σ → Prop}
    (h : ∀ c ∈ l, ∀ done b s, P done b s → Yields (g b c) s (P (done ++ [c]))) (hp : P done b s) :
    Yields (l.foldlM g b) s (P (done ++ l)) := by
  induction l generalizing s b done
  case nil =>
    rw [List.append_nil]
    exact .pure hp
  case cons c l hi =>
  rw [List.foldlM_cons, List.append_cons]
  refine (h c List.mem_cons_self done b s hp).bind fun _ s1 hp1 => ?_
  exact hi (fun c hc => h c (List.mem_cons_of_mem _ hc)) hp1

-- The outcome of a computation, whatever state it ends in.
def Result.value : Result ε σ α → Except ε α
  | .ok a _ => .ok a
  | .error e _ => .error e

def Result.final : Result ε σ α → σ
  | .ok _ s => s
  | .error _ s => s

-- A computation leaves a part of the state as it is.
def Keeps (part : σ → γ) (x : EStateM ε σ α) : Prop :=
  ∀ s, part (x s).final = part s

lemma Keeps.pure (a) : Keeps part (Pure.pure a : EStateM ε σ α) :=
  fun _ => rfl

lemma Keeps.map (h : Keeps part x) (g : γ → δ) : Keeps (fun s => g (part s)) x :=
  fun s => congrArg g (h s)

lemma Keeps.bind (hx : Keeps part x) (hf : ∀ a, Keeps part (f a)) : Keeps part (x >>= f) := by
  intro s
  have hs := hx s
  cases h : x s
  case ok a s1 =>
    rw [h] at hs
    rw [bind_of_ok h]
    exact (hf a s1).trans hs
  rw [h] at hs
  rw [bind_of_error h]
  exact hs

lemma final_bind (hf : ∀ a, Keeps part (f a)) : part ((x >>= f) s).final = part (x s).final := by
  cases h : x s
  case ok a s1 =>
    rw [bind_of_ok h]
    exact hf a s1
  case error =>
  rw [bind_of_error h]
  rfl

-- A computation that does not return leaves a part of the state as it is.
def KeepsOnError (part : σ → γ) (x : EStateM ε σ α) : Prop :=
  ∀ s e s', x s = .error e s' → part s' = part s

lemma Keeps.onError (h : Keeps part x) : KeepsOnError part x := by
  intro s e s' hx
  have hs := h s
  rwa [hx] at hs

lemma Keeps.bind_onError (hx : Keeps part x) (hf : ∀ a, KeepsOnError part (f a)) :
    KeepsOnError part (x >>= f) := by
  intro s e s' he
  have hs := hx s
  cases h : x s
  case ok a s1 =>
    rw [bind_of_ok h] at he
    rw [h] at hs
    exact (hf a s1 e s' he).trans hs
  rw [bind_of_error h] at he
  cases he
  rwa [h] at hs

-- A computation does not return, and ends in a state with a property.
def Fails (x : EStateM ε σ α) (s : σ) (post : σ → Prop) : Prop :=
  ∃ e s', x s = .error e s' ∧ post s'

lemma Keeps.bind_fails (hx : Keeps part x)
    (hf : ∀ a s1, part s1 = part s → Fails (f a) s1 (part · = part s1)) :
    Fails (x >>= f) s (part · = part s) := by
  have hs := hx s
  cases h : x s
  case ok a s1 =>
    rw [h] at hs
    have ⟨e, s', he, hp⟩ := hf a s1 hs
    exact ⟨e, s', (bind_of_ok h).trans he, hp.trans hs⟩
  case error e s1 =>
  rw [h] at hs
  exact ⟨e, s1, bind_of_error h, hs⟩

lemma bind_eq_error : (x >>= f) s = .error e s' ↔
    x s = .error e s' ∨ ∃ a s1, x s = .ok a s1 ∧ f a s1 = .error e s' := by
  cases h : x s
  case ok a s1 =>
    rw [bind_of_ok h]
    refine ⟨fun hf => .inr ⟨a, s1, rfl, hf⟩, fun hf => ?_⟩
    have ⟨_, _, he, hf⟩ := hf.resolve_left nofun
    cases he
    exact hf
  case error =>
  rw [bind_of_error h]
  simp

-- Every error of a computation from a state on is of a kind.
def Throws (kind : ε → Prop) (x : EStateM ε σ α) (s : σ) : Prop :=
  ∀ e s', x s = .error e s' → kind e

lemma Throws.pure (a s) : Throws kind (Pure.pure a : EStateM ε σ α) s :=
  nofun

lemma Throws.bind (hx : Throws kind x s) (hf : ∀ a s1, x s = .ok a s1 → Throws kind (f a) s1) :
    Throws kind (x >>= f) s := by
  intro e s' h
  cases bind_eq_error.mp h
  case inl h => exact hx e s' h
  case inr h =>
  have ⟨a, s1, hok, h⟩ := h
  exact hf a s1 hok e s' h

-- A computation leaves a property of the state true, whatever its outcome.
def Preserves (P : σ → Prop) (x : EStateM ε σ α) : Prop :=
  ∀ s, P s → P (x s).final

lemma Keeps.preserves (h : Keeps part x) (P : γ → Prop) : Preserves (fun s => P (part s)) x := by
  intro s hp
  rwa [h s]

lemma Preserves.bind (hx : Preserves P x) (hf : ∀ a, Preserves P (f a)) :
    Preserves P (x >>= f) := by
  intro s hp
  have hs := hx s hp
  cases h : x s
  case ok a s1 =>
    rw [h] at hs
    rw [bind_of_ok h]
    exact hf a s1 hs
  rw [h] at hs
  rw [bind_of_error h]
  exact hs

-- A computation that returns does so in a state that is related to the one it started in.
def Leads (R : σ → σ → Prop) (x : EStateM ε σ α) : Prop :=
  ∀ s a s', x s = .ok a s' → R s s'

namespace Leads

variable {R : σ → σ → Prop}

lemma pure (hr : ∀ s, R s s) (a) : Leads R (Pure.pure a : EStateM ε σ α) := by
  intro s b s' h
  have ⟨_, he⟩ := pure_eq_ok.mp h
  exact he ▸ hr s

lemma get_bind {f : σ → EStateM ε σ β} (hf : ∀ s, Leads R (f s)) :
    Leads R (MonadState.get >>= f) :=
  fun s b s' h => hf s s b s' h

lemma bind (ht : ∀ {s1 s2 s3}, R s1 s2 → R s2 s3 → R s1 s3) (hx : Leads R x)
    (hf : ∀ a, Leads R (f a)) : Leads R (x >>= f) := by
  intro s b s' h
  have ⟨a, s1, hx', hf'⟩ := bind_eq_ok.mp h
  exact ht (hx s a s1 hx') (hf a s1 b s' hf')

section

variable (hr : ∀ s, R s s) (ht : ∀ {s1 s2 s3}, R s1 s2 → R s2 s3 → R s1 s3)
include hr ht

lemma forM {l : List γ} (hg : ∀ c ∈ l, Leads R (g c)) : Leads R (l.forM g) := by
  induction l
  case nil => exact pure hr _
  case cons c l hi =>
  refine bind ht (hg c List.mem_cons_self) fun _ => ?_
  exact hi fun c hc => hg c (List.mem_cons_of_mem _ hc)

lemma foldlM {l : List γ} (hg : ∀ c ∈ l, ∀ b, Leads R (g b c)) (b : β) :
    Leads R (l.foldlM g b) := by
  induction l generalizing b
  case nil => exact pure hr b
  case cons c l hi =>
  refine bind ht (hg c List.mem_cons_self b) fun b' => ?_
  exact hi (fun c hc => hg c (List.mem_cons_of_mem _ hc)) b'

end

variable {P Q : σ → Prop} {l : List γ}

lemma forM_preserves (hg : ∀ c ∈ l, Leads (fun s s' => P s → P s') (g c)) :
    Leads (fun s s' => P s → P s') (l.forM g) :=
  forM (fun _ h => h) (fun h1 h2 h => h2 (h1 h)) hg

lemma foldlM_preserves (hg : ∀ c ∈ l, ∀ b, Leads (fun s s' => P s → P s') (g b c)) (b : β) :
    Leads (fun s s' => P s → P s') (l.foldlM g b) :=
  foldlM (fun _ h => h) (fun h1 h2 h => h2 (h1 h)) hg b

lemma forM_passes {g : γ → EStateM ε σ PUnit}
    (hp : ∀ c ∈ l, Leads (fun s s' => P s → P s') (g c))
    (hq : ∀ c ∈ l, Leads (fun s s' => Q s → Q s') (g c)) (hc : c ∈ l)
    (hpq : Leads (fun s s' => P s → Q s') (g c)) : Leads (fun s s' => P s → Q s') (l.forM g) := by
  induction l
  case nil => nomatch hc
  case cons b l hi =>
  intro s a s' h hs
  have ⟨_, s1, h1, h2⟩ := bind_eq_ok.mp h
  have hp' c (hc : c ∈ l) := hp c (List.mem_cons_of_mem _ hc)
  have hq' c (hc : c ∈ l) := hq c (List.mem_cons_of_mem _ hc)
  cases List.mem_cons.mp hc
  case inl he =>
    subst he
    exact forM_preserves hq' _ _ _ h2 (hpq _ _ _ h1 hs)
  case inr hc => exact hi hp' hq' hc _ _ _ h2 (hp b List.mem_cons_self _ _ _ h1 hs)

end Leads

-- Whether a computation returned, with a value and in a state that pass a test.
def returns (p : α → σ → Bool) : Result ε σ α → Bool
  | .ok a s => p a s
  | .error .. => false

lemma exists_of_returns (h : returns p r) : ∃ a s, r = .ok a s ∧ p a s := by
  cases r
  case ok a s => exact ⟨a, s, rfl, h⟩
  case error => nomatch h

end EStateM

namespace StateT

variable {σ τ ε : Type}

lemma bind_of_ok {x : StateT σ (Except ε) α} {f : α → StateT σ (Except ε) β} {a : α}
    (h : x s = .ok (a, s1)) : (x >>= f) s = f a s1 := by
  simp [bind, StateT.bind, h, Except.bind]

-- The rule for a counted loop: an invariant, and what is left of the state before each round.
lemma foldlM_range {f : τ → Nat → StateT σ (Except ε) τ} {n : Nat} (P : Nat → τ → Prop)
    (left : Nat → σ) (step : ∀ i t, i < n → P i t →
      ∃ t', f t i (left i) = .ok (t', left (i + 1)) ∧ P (i + 1) t') {t : τ} (h : P 0 t) :
    ∃ t', (List.range n).foldlM f t (left 0) = .ok (t', left n) ∧ P n t' := by
  induction n
  case zero => exact ⟨t, rfl, h⟩
  case succ n hi =>
  have ⟨t1, he1, h1⟩ := hi fun i t hlt => step i t (Nat.lt_succ_of_lt hlt)
  have ⟨t2, he2, h2⟩ := step n t1 (Nat.lt_succ_self n) h1
  refine ⟨t2, ?_, h2⟩
  rw [List.range_succ, List.foldlM_append, bind_of_ok he1, List.foldlM_cons, bind_of_ok he2]
  rfl

end StateT

-- Whether a computation has a result with some property is found out by running it.

instance EStateM.decidableExistsOk [DecidableEq α] {r : Result ε σ α} {a : α} :
    Decidable (∃ s, r = .ok a s) :=
  match r with
  | .error .. => isFalse fun ⟨_, h⟩ => nomatch h
  | .ok b s => decidable_of_iff (b = a) ⟨fun h => ⟨s, h ▸ rfl⟩, fun ⟨_, h⟩ => (Result.ok.inj h).1⟩

instance EStateM.decidableExistsOkAnd [DecidableEq α] {r : Result ε σ α} {a : α} {p : σ → Prop}
    [DecidablePred p] : Decidable (∃ s, r = .ok a s ∧ p s) :=
  match r with
  | .error .. => isFalse fun ⟨_, h, _⟩ => nomatch h
  | .ok b s => decidable_of_iff (b = a ∧ p s)
    ⟨fun ⟨h, hp⟩ => ⟨s, h ▸ rfl, hp⟩, fun ⟨_, h, hp⟩ =>
      ⟨(Result.ok.inj h).1, (Result.ok.inj h).2 ▸ hp⟩⟩

instance Option.decidableExistsSome {o : Option α} {p : α → Prop} [DecidablePred p] :
    Decidable (∃ a, o = some a ∧ p a) :=
  match o with
  | none => isFalse fun ⟨_, h, _⟩ => nomatch h
  | some a => decidable_of_iff (p a) ⟨fun h => ⟨a, rfl, h⟩, fun ⟨_, h, hp⟩ => Option.some.inj h ▸ hp⟩

instance Option.decidableExistsSomePair [DecidableEq α] {o : Option (α × β)} {a : α} {p : β → Prop}
    [DecidablePred p] : Decidable (∃ b, o = some (a, b) ∧ p b) :=
  decidable_of_iff (∃ r, o = some r ∧ r.1 = a ∧ p r.2)
    ⟨fun ⟨r, h, ha, hp⟩ => ⟨r.2, ha ▸ h, hp⟩, fun ⟨b, h, hp⟩ => ⟨(a, b), h, rfl, hp⟩⟩
