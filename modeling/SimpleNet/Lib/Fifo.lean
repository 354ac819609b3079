import Mathlib.Tactic.Common

/-!
# First-in first-out queues

The interface of a growing buffer that is written at one end and read at the other,
given by what its readable content is after each operation.
-/

/-- A queue of elements of `α`: `append` writes at the end, `retrieve n` drops the
first `n`, `peek` is the content not yet retrieved. -/
class Fifo (β : Type*) (α : outParam Type*) where
  empty : β
  append : β → List α → β
  peek : β → List α
  readable : β → Nat
  retrieve : β → Nat → β
  readable_eq : ∀ b, readable b = (peek b).length
  peek_empty : peek empty = []
  peek_append : ∀ b l, peek (append b l) = peek b ++ l
  peek_retrieve : ∀ b n, n ≤ readable b → peek (retrieve b n) = (peek b).drop n

namespace Fifo

attribute [simp] peek_empty peek_append

variable {α β : Type*} [Fifo β α]

theorem readable_eq_zero {b : β} : readable b = 0 ↔ peek b = [] := by
  rw [readable_eq, List.length_eq_zero_iff]

theorem readable_retrieve {b : β} {n : Nat} (h : n ≤ readable b) :
    readable (retrieve b n) = readable b - n := by
  rw [readable_eq, peek_retrieve b n h, List.length_drop, ← readable_eq]

/-- A list is a queue of its elements. -/
instance : Fifo (List α) α where
  empty := []
  append b l := b ++ l
  peek b := b
  readable b := b.length
  retrieve b n := b.drop n
  readable_eq _ := rfl
  peek_empty := rfl
  peek_append _ _ := rfl
  peek_retrieve _ _ _ := rfl

end Fifo
