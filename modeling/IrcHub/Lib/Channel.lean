import Mathlib.Data.List.Basic
import Mathlib.Data.Nat.ModEq

/-!
# `IrcHub.Lib.Channel`: numbered messages over a network nobody trusts

A sender numbers its messages from 0, and a receiver takes a message only if its number is the
count of those it took. Between the two is a network that may lose, repeat, reorder and hold back
what it carries. What the receiver took is then a prefix of what was sent, whatever the network
does (`prefix_concat_next`): a lost message stops the receiver, and a repeated one is refused.

The network may not make messages up. Where messages are sealed, that is the part of the cipher,
and the fact used here is only that a message which opens under a number is the one sealed under
that number.

Numbers travel as a fixed count of bytes, the most significant first (`beBytes`). Below `256 ^ k`
no two numbers have the same bytes (`beBytes_inj`), so a number that goes into the bytes of a
message is told by them, up to that bound.

* `beBytes`, `ofBeBytes`: a number as bytes, and the number of some bytes
* `prefix_concat_next`: the step that keeps "a prefix was taken"
-/

set_option autoImplicit false

namespace Channel

/-- The message whose number is the count of those taken makes the prefix one longer. This is the
whole step of a receiver that counts, and the invariant of a run of it. -/
theorem prefix_concat_next {α : Type} {recv sent : List α} {a : α} (h : recv <+: sent)
    (hnext : sent[recv.length]? = some a) : recv ++ [a] <+: sent := by
  obtain ⟨rest, rfl⟩ := h
  rw [List.getElem?_append_right (Nat.le_refl _), Nat.sub_self] at hnext
  cases rest with
  | nil => cases hnext
  | cons b rest =>
    obtain rfl : b = a := Option.some.inj hnext
    exact ⟨rest, by rw [List.append_assoc, List.singleton_append]⟩

/-! ### Numbers as bytes -/

/-- The `k` least significant bytes of a number, the most significant of them first. -/
def beBytes : Nat → Nat → List Nat
  | 0, _ => []
  | k + 1, n => n / 256 ^ k % 256 :: beBytes k n

/-- The number of some bytes. -/
def ofBeBytes (l : List Nat) : Nat := l.foldl (fun n b => n * 256 + b) 0

/-- Reading goes on from the number read so far. -/
private theorem foldl_beBytes (k n m : Nat) :
    (beBytes k n).foldl (fun n b => n * 256 + b) m = m * 256 ^ k + n % 256 ^ k := by
  induction k generalizing m with
  | zero => simp [beBytes, Nat.mod_one]
  | succ k ih =>
    have hsplit : n % 256 ^ (k + 1) = 256 ^ k * (n / 256 ^ k % 256) + n % 256 ^ k := by
      rw [Nat.pow_succ, Nat.mod_mul]
      omega
    rw [beBytes, List.foldl_cons, ih, hsplit, Nat.pow_succ, Nat.add_mul]
    have hcomm : m * 256 * 256 ^ k = m * (256 ^ k * 256) := by
      rw [Nat.mul_assoc, Nat.mul_comm 256]
    rw [hcomm, Nat.mul_comm (256 ^ k) (n / 256 ^ k % 256)]
    omega

/-- A number written in `k` bytes is read back, as far as `k` bytes hold it. -/
theorem ofBeBytes_beBytes (k n : Nat) : ofBeBytes (beBytes k n) = n % 256 ^ k := by
  rw [ofBeBytes, foldl_beBytes]
  omega

/-- Two numbers of one width with the same bytes are equal. The bound says that neither is cut
off. -/
theorem beBytes_inj {k n m : Nat} (hn : n < 256 ^ k) (hm : m < 256 ^ k)
    (h : beBytes k n = beBytes k m) : n = m := by
  have hof := congrArg ofBeBytes h
  rwa [ofBeBytes_beBytes, ofBeBytes_beBytes, Nat.mod_eq_of_lt hn, Nat.mod_eq_of_lt hm] at hof

end Channel
