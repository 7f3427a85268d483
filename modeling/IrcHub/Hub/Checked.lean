import Mathlib.Algebra.GroupWithZero.Nat

/-!
# `IrcHub.Hub.Checked`: arithmetic that stops the hub

The release build checks its arithmetic: a sum, product or difference that leaves its type's range
stops the hub. Where a function of the source could do that, its model returns `Except Fault`, and
a theorem about the function says on which inputs it returns a value.

* `Fault`: what stops the hub
* `addUsize`, `subUsize`: the checked sum and difference
* `addUsize_ok`, `subUsize_ok`: when they succeed, and with what
* `checked_bind`: how a step that succeeds is followed by the next one

Only operations that can leave the range on some input are written this way. The others are plain
numbers, with the bound in the type or in an invariant.
-/

set_option autoImplicit false

namespace IrcHub.Hub

/-- What stops the hub. -/
inductive Fault
  | overflow
  deriving Repr, DecidableEq

/-! ### 64-bit numbers -/

def subU64 (x y : UInt64) : Except Fault UInt64 := if y ≤ x then .ok (x - y) else .error .overflow

def mulU64 (x y : UInt64) : Except Fault UInt64 :=
  if x.toNat * y.toNat < 2 ^ 64 then .ok (x * y) else .error .overflow

def addU64 (x y : UInt64) : Except Fault UInt64 :=
  if x.toNat + y.toNat < 2 ^ 64 then .ok (x + y) else .error .overflow

/-! ### Sizes -/

def addUsize (x y : Nat) : Except Fault Nat := if x + y < 2 ^ 64 then .ok (x + y)
    else .error .overflow

def subUsize (x y : Nat) : Except Fault Nat := if y ≤ x then .ok (x - y) else .error .overflow

/-- A sum that fits is computed. -/
theorem addUsize_ok {x y : Nat} (h : x + y < 2 ^ 64) : addUsize x y = .ok (x + y) := if_pos h

/-- A difference that is not negative is computed. -/
theorem subUsize_ok {x y : Nat} (h : y ≤ x) : subUsize x y = .ok (x - y) := if_pos h

/-- What follows a value. -/
@[simp] theorem checked_bind {α β : Type} (x : α) (f : α → Except Fault β) :
    (Except.ok x >>= f) = f x := rfl

end IrcHub.Hub
