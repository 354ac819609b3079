import Mathlib.Tactic.Common

/-!
# Queues that are emptied in batches

A queue whose consumer takes all that is pending at once and works through this batch while
the producers go on appending.  `queue` is what waits, in the order in which it will be taken;
it changes only at its two ends, and the swap does not change it.
-/

/-- The rest of the batch and what has been appended since. -/
structure Batched (α : Type*) where
  rest : List α
  pending : List α
  deriving DecidableEq, Repr

namespace Batched

variable {α : Type*} {q : Batched α} {a b : α} {l : List α}

def empty : Batched α := ⟨[], []⟩

/-- What waits, first to be taken first. -/
def queue (q : Batched α) : List α := q.rest ++ q.pending

def push (q : Batched α) (a : α) : Batched α := ⟨q.rest, q.pending ++ [a]⟩

/-- All that is pending becomes the batch. -/
def swap (q : Batched α) : Batched α := ⟨q.pending, []⟩

/-- The rest of the batch after its first element. -/
def tail (q : Batched α) : Batched α := ⟨q.rest.tail, q.pending⟩

@[simp] theorem queue_empty : (empty : Batched α).queue = [] := rfl

@[simp] theorem push_rest : (q.push a).rest = q.rest := rfl

@[simp] theorem push_pending : (q.push a).pending = q.pending ++ [a] := rfl

@[simp] theorem swap_rest : q.swap.rest = q.pending := rfl

@[simp] theorem swap_pending : q.swap.pending = [] := rfl

@[simp] theorem tail_pending : q.tail.pending = q.pending := rfl

@[simp] theorem queue_push : (q.push a).queue = q.queue ++ [a] :=
  (List.append_assoc _ _ _).symm

theorem mem_queue_push (h : a ∈ q.queue) : a ∈ (q.push b).queue := by
  rw [queue_push]
  exact List.mem_append_left _ h

theorem queue_swap (h : q.rest = []) : q.swap.queue = q.queue := by
  simp [queue, h]

theorem queue_of_rest (h : q.rest = a :: l) : q.queue = a :: q.tail.queue := by
  simp [queue, tail, h]

theorem mem_queue_of_rest (h : q.rest = a :: l) : a ∈ q.queue := by
  rw [queue_of_rest h]
  exact List.mem_cons_self

theorem mem_queue_of_tail (h : a ∈ q.tail.queue) : a ∈ q.queue := by
  rcases List.mem_append.mp h with h | h
  · exact List.mem_append_left _ (List.mem_of_mem_tail h)
  · exact List.mem_append_right _ h

theorem count_push [DecidableEq α] (q : Batched α) (a b : α) :
    (q.push a).queue.count b = q.queue.count b + if a = b then 1 else 0 := by
  rw [queue_push, List.count_append, List.count_singleton]
  simp

theorem count_of_rest [DecidableEq α] (h : q.rest = a :: l) (b : α) :
    q.queue.count b = q.tail.queue.count b + if a = b then 1 else 0 := by
  rw [queue_of_rest h, List.count_cons]
  simp

end Batched
