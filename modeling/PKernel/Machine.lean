import Mathlib.Data.Nat.Basic
import Mathlib.Algebra.GroupWithZero.Nat
import Mathlib.Algebra.Ring.Int.Defs

/-! # Machine arithmetic and ways to stop

Values of type `uint64_t` and pointers are natural numbers below `2 ^ 64`;
`u64` is the truncation that every unsigned operation ends with. `intptr` is
the signed reading of a 64-bit pattern. A kernel function that does not return
stops with a `Fault`.
-/

namespace PKernel

/-- Unsigned 64-bit truncation. -/
def u64 (value : Nat) : Nat := value % 2 ^ 64

/-- Signed 64-bit reading of an integer, as after a conversion to `intptr_t`. -/
def intptr (value : Int) : Int := (value + 2 ^ 63) % 2 ^ 64 - 2 ^ 63

/-- `PAGE_SIZE`, and `VALLOC_PAGE_SIZE`, which has the same value. -/
def pageSize : Nat := 0x1000

/-- `DIV_UP(a, b)` on 64-bit operands: the sum in the numerator wraps. -/
def divUp (a b : Nat) : Nat := u64 (a + b + 2 ^ 64 - 1) / b

/-- How a kernel function ends without returning. -/
inductive Fault where
  /-- `panic0`, `panic1` and `panic3`: the message and the labelled values. -/
  | panic (message : String) (values : List (String × Nat))
  /-- `kernel_entry_error(code)`. -/
  | entryError (code : Nat)
  /-- A loop of the source went on past the bound the model gives it. -/
  | nontermination
  /-- An access through a null or dangling pointer. -/
  | badPointer
  /-- A callee outside the modelled part had no resource to hand out. -/
  | exhausted
  /-- `hlt()` with interrupts off. -/
  | halt
deriving DecidableEq, Repr

/-! ## Calls that return and calls that stop

The equations are proved by `simp` and not by `rfl`, so that rewriting with
them leaves no definitional unfolding of the arithmetic around them.
-/

section Calls

variable {ε α β : Type}

@[simp]
theorem ok_bind (value : α) (next : α → Except ε β) :
    (Except.ok value >>= next) = next value := by
  simp only [bind, Except.bind]

@[simp]
theorem error_bind (fault : ε) (next : α → Except ε β) :
    ((Except.error fault : Except ε α) >>= next) = .error fault := by
  simp only [bind, Except.bind]

@[simp]
theorem pure_eq_ok (value : α) : (pure value : Except ε α) = .ok value := by
  simp only [pure, Except.pure]

@[simp]
theorem throw_eq_error (fault : ε) : (throw fault : Except ε α) = .error fault := by
  simp only [throw, throwThe, MonadExceptOf.throw]

/-- A sequence of calls returns only through its first call. -/
theorem bind_eq_ok {call : Except ε α} {next : α → Except ε β} {result : β} :
    (call >>= next) = .ok result ↔ ∃ value, call = .ok value ∧ next value = .ok result := by
  cases call with
  | error fault => simp
  | ok value => simp

theorem toOption_eq_some {call : Except ε α} {result : α} :
    call.toOption = some result ↔ call = .ok result := by
  cases call <;> simp [Except.toOption]

/-- Renaming the ways to stop changes nothing about the calls that return. -/
theorem mapError_eq_ok {ε' : Type} {call : Except ε α} {wrap : ε → ε'} {value : α} :
    call.mapError wrap = .ok value ↔ call = .ok value := by
  cases call <;> simp [Except.mapError]

end Calls

/-! ## Arithmetic -/

theorem u64_eq_self {value : Nat} (hvalue : value < 2 ^ 64) : u64 value = value :=
  Nat.mod_eq_of_lt hvalue

theorem u64_lt (value : Nat) : u64 value < 2 ^ 64 := Nat.mod_lt _ (by decide)

theorem intptr_eq_self {value : Int} (hlower : -2 ^ 63 ≤ value) (hupper : value < 2 ^ 63) :
    intptr value = value := by
  unfold intptr
  omega

theorem divUp_eq {a b : Nat} (hpos : 0 < b) (hsum : a + b ≤ 2 ^ 64) :
    divUp a b = (a + b - 1) / b := by
  unfold divUp u64
  rw [show a + b + 2 ^ 64 - 1 = a + b - 1 + 2 ^ 64 by omega, Nat.add_mod_right,
    Nat.mod_eq_of_lt (by omega)]

/-- Rounding up to pages covers the size and no more than it needs. -/
theorem divUp_pageSize_spec {size : Nat} (hsize : size + pageSize ≤ 2 ^ 64) :
    size ≤ divUp size pageSize * pageSize ∧ divUp size pageSize * pageSize < size + pageSize := by
  rw [divUp_eq (by decide) hsize]
  unfold pageSize at *
  omega

end PKernel
