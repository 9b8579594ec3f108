/-! Sizes and addresses are natural numbers below `2 ^ 64`.  An arithmetic step that
would leave that range is a cause of its own: a computation that meets one is abandoned. -/

namespace TypeAtlas

inductive Overflow
  | add | multiply | subtract
  deriving DecidableEq, Repr

def Overflow.message : Overflow → String
  | .add => "attempt to add with overflow"
  | .multiply => "attempt to multiply with overflow"
  | .subtract => "attempt to subtract with overflow"

namespace Overflow

variable {α β : Type} {a b : α} {c : β} {x : Except Overflow α} {f : α → Except Overflow β}

theorem bind_eq_ok : x >>= f = .ok c ↔ ∃ a, x = .ok a ∧ f a = .ok c := by
  cases x with
  | error o => simp [bind, Except.bind]
  | ok a => simp [bind, Except.bind]

theorem pure_eq_ok : (pure a : Except Overflow α) = .ok b ↔ a = b := by
  simp [pure, Except.pure]

end Overflow

/-- A computation is refused for a reason of its domain, or abandoned on an overflow. -/
inductive Failure (ε : Type)
  | refused : ε → Failure ε
  | abandoned : Overflow → Failure ε
  deriving DecidableEq, Repr

abbrev Outcome (ε α : Type) := Except (Failure ε) α

def Outcome.ofWord {ε α : Type} : Except Overflow α → Outcome ε α
  | .ok a => .ok a
  | .error o => .error (.abandoned o)

namespace Word

def bound : Nat := 1 <<< 64

def top : Nat := bound - 1

def add (a b : Nat) : Except Overflow Nat :=
  if a + b < bound then .ok (a + b) else .error .add

def mul (a b : Nat) : Except Overflow Nat :=
  if a * b < bound then .ok (a * b) else .error .multiply

def sub (a b : Nat) : Except Overflow Nat :=
  if b ≤ a then .ok (a - b) else .error .subtract

def add? (a b : Nat) : Option Nat :=
  if a + b < bound then some (a + b) else none

def mul? (a b : Nat) : Option Nat :=
  if a * b < bound then some (a * b) else none

def addCapped (a b : Nat) : Nat := min (a + b) top

def addWrapped (a b : Nat) : Nat := (a + b) % bound

theorem add_eq_ok_iff {a b c : Nat} : add a b = .ok c ↔ a + b < bound ∧ a + b = c := by
  unfold add
  split
  · simp_all
  · simp only [reduceCtorEq, false_iff]; omega

theorem mul_eq_ok_iff {a b c : Nat} : mul a b = .ok c ↔ a * b < bound ∧ a * b = c := by
  unfold mul
  split
  · simp_all
  · simp only [reduceCtorEq, false_iff]; omega

theorem sub_eq_ok_iff {a b c : Nat} : sub a b = .ok c ↔ b ≤ a ∧ a - b = c := by
  unfold sub
  split
  · simp_all
  · simp only [reduceCtorEq, false_iff]; omega

theorem add?_eq_some_iff {a b c : Nat} : add? a b = some c ↔ a + b < bound ∧ a + b = c := by
  unfold add?
  split
  · simp_all
  · simp only [reduceCtorEq, false_iff]; omega

end Word

end TypeAtlas
