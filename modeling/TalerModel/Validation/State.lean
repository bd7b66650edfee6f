import TalerModel.Consensus.Params

namespace Taler

-- An element access out of range, a failed assertion or an unexpected exception.
inductive Fault
  | outOfRange
  | assertion
  | exception
  deriving DecidableEq, Repr

inductive CValidationState.Mode
  | valid
  | invalid
  | error
  deriving DecidableEq, Repr

-- What a check leaves in the caller's `CValidationState`. The debug message is left out.
structure CValidationState where
  mode : CValidationState.Mode := .valid
  nDoS : Nat := 0
  chRejectCode : Nat := 0
  strRejectReason    : String := ""
  corruptionPossible : Bool := false
  deriving DecidableEq, Repr

def REJECT_INVALID : Nat := 0x10
def REJECT_OBSOLETE : Nat := 0x11
def REJECT_DUPLICATE : Nat := 0x12
def REJECT_CHECKPOINT : Nat := 0x43

-- A check either passes, returns `false` with a state, or does not return at all.
inductive Failure
  | returned (state : CValidationState)
  | fault (f : Fault)
  deriving DecidableEq, Repr

abbrev Check := Except Failure

namespace Check

-- `return state.DoS(level, false, code, reason, corruption)` on a fresh state.
def dos (level : Nat) (code : Nat) (reason : String) (corruption : Bool := false) : Check α :=
  .error <| .returned
    { mode := .invalid, nDoS := level, chRejectCode := code, strRejectReason := reason,
      corruptionPossible := corruption }

-- `return state.Error(reason)` on a fresh state.
def stateError (reason : String) : Check α :=
  .error <| .returned { mode := .error, strRejectReason := reason }

-- `return error(...)`: the state is left as it was.
def plainError : Check α :=
  .error <| .returned {}

def fault (f : Fault) : Check α :=
  .error <| .fault f

def rejectIf (b : Bool) (r : Check Unit) : Check Unit :=
  if b then r else .ok ()

def Returns (c : Check α) : Prop :=
  ∀ f, c ≠ .error (.fault f)

lemma bind_eq_ok {c : Check α} {k : α → Check β} :
    (c >>= k) = .ok b ↔ ∃ a, c = .ok a ∧ k a = .ok b := by
  cases c <;> simp [bind, Except.bind]

lemma seq_eq_ok {c : Check Unit} {k : Check β} :
    (c >>= fun _ => k) = .ok b ↔ c = .ok () ∧ k = .ok b := by
  cases c <;> simp [bind, Except.bind]

@[simp]
lemma rejectIf_dos_eq_ok : rejectIf b (dos l c r k) = .ok () ↔ b = false := by
  cases b <;> simp [rejectIf, dos]

@[simp]
lemma rejectIf_fault_eq_ok : rejectIf b (fault f) = .ok () ↔ b = false := by
  cases b <;> simp [rejectIf, fault]

lemma bind_returns {c : Check α} {k : α → Check β} :
    (c >>= k).Returns ↔ c.Returns ∧ ∀ a, c = .ok a → (k a).Returns := by
  cases c <;> simp [bind, Except.bind, Returns]

@[simp]
lemma ok_returns (a : α) : Check.Returns (.ok a) := by
  simp [Returns]

@[simp]
lemma dos_returns : (dos l c r k : Check α).Returns := by
  simp [Returns, dos]

@[simp]
lemma rejectIf_returns : (rejectIf b (dos l c r k)).Returns := by
  cases b <;> simp [rejectIf, dos, Returns]

end Check

end Taler
