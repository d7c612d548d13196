import Mathlib.Algebra.Group.Nat.Defs

/-! # Checked arithmetic

Arithmetic on unsigned machine integers as a program with overflow checks does it: an operation whose
result does not fit, or that divides by zero, is a panic, `none`. `Build` says whether a program has these
checks; without them arithmetic wraps around. -/

namespace OmniPaxosBench.Lib.Checked

variable {bits a b c : ℕ}

def add (bits a b : ℕ) : Option ℕ := if a + b < 2 ^ bits then some (a + b) else none

def mul (bits a b : ℕ) : Option ℕ := if a * b < 2 ^ bits then some (a * b) else none

def div (a b : ℕ) : Option ℕ := if b = 0 then none else some (a / b)

def rem (a b : ℕ) : Option ℕ := if b = 0 then none else some (a % b)

theorem add_eq (h : a + b < 2 ^ bits) : add bits a b = some (a + b) := if_pos h

theorem eq_of_add (h : add bits a b = some c) : c = a + b := by
  unfold add at h
  split at h
  · exact (Option.some.inj h).symm
  · cases h

theorem mul_eq (h : a * b < 2 ^ bits) : mul bits a b = some (a * b) := if_pos h

theorem div_eq (h : 0 < b) : div a b = some (a / b) := if_neg (Nat.pos_iff_ne_zero.mp h)

theorem rem_eq (h : 0 < b) : rem a b = some (a % b) := if_neg (Nat.pos_iff_ne_zero.mp h)

end OmniPaxosBench.Lib.Checked

namespace OmniPaxosBench.Lib

/-- How a program is built: with overflow checks, or without. -/
inductive Build
  | debug
  | release
  deriving DecidableEq, Repr

namespace Build

variable {build : Build} {bits a b : ℕ}

/-- Subtraction of two numbers of `bits` bits. -/
def sub (build : Build) (bits a b : ℕ) : Except String ℕ :=
  if b ≤ a then .ok (a - b)
  else match build with
    | .debug => .error "attempt to subtract with overflow"
    | .release => .ok (a + 2 ^ bits - b)

theorem sub_eq (h : b ≤ a) : build.sub bits a b = .ok (a - b) := if_pos h

/-- A subtraction that goes below zero is a panic, or its result is larger than what it started from. -/
theorem sub_of_lt (build : Build) (bits : ℕ) (h : a < b) (hb : b < 2 ^ bits) :
    (build = .debug ∧ build.sub bits a b = .error "attempt to subtract with overflow") ∨
      (build = .release ∧ ∃ n, build.sub bits a b = .ok n ∧ a < n) := by
  unfold sub
  rw [if_neg (Nat.not_le.mpr h)]
  cases build with
  | debug => exact Or.inl ⟨rfl, rfl⟩
  | release => exact Or.inr ⟨rfl, _, rfl, by omega⟩

end Build

end OmniPaxosBench.Lib
