import Mathlib.Data.List.Basic
import Mathlib.Logic.Function.Basic

/-!
# Tables of slots

A table with `limit` slots that hands out the lowest free one, as the descriptor table of a
process does.
-/

open Function (update)

structure Slots (α : Type*) where
  limit : Nat
  get : Nat → Option α

namespace Slots

variable {α : Type*} {s : Slots α} {i j : Nat} {a : α}

/-- The lowest free slot. -/
def lowest (s : Slots α) : Option Nat := (List.range s.limit).find? fun i => (s.get i).isNone

def set (s : Slots α) (i : Nat) (a : α) : Slots α := { s with get := update s.get i (some a) }

def free (s : Slots α) (i : Nat) : Slots α := { s with get := update s.get i none }

@[simp] theorem get_set_self : (s.set i a).get i = some a := Function.update_self _ _ _

theorem get_set_of_ne (h : j ≠ i) : (s.set i a).get j = s.get j := Function.update_of_ne h _ _

@[simp] theorem get_free_self : (s.free i).get i = none := Function.update_self _ _ _

theorem get_free_of_ne (h : j ≠ i) : (s.free i).get j = s.get j := Function.update_of_ne h _ _

theorem lowest_lt (h : s.lowest = some i) : i < s.limit ∧ s.get i = none := by
  refine ⟨List.mem_range.mp (List.mem_of_find?_eq_some h), ?_⟩
  exact Option.isNone_iff_eq_none.mp (List.find?_some (p := fun i => (s.get i).isNone) h)

theorem exists_lowest : (∃ i, s.lowest = some i) ↔ ∃ i < s.limit, s.get i = none := by
  constructor
  · rintro ⟨i, hi⟩
    exact ⟨i, lowest_lt hi⟩
  · rintro ⟨i, hi, hn⟩
    refine Option.isSome_iff_exists.mp (List.find?_isSome.mpr ⟨i, List.mem_range.mpr hi, ?_⟩)
    rw [hn]
    rfl

/-- A slot that is given back can be handed out. -/
theorem exists_lowest_free (h : i < s.limit) : ∃ j, (s.free i).lowest = some j :=
  exists_lowest.mpr ⟨i, h, get_free_self⟩

theorem exists_lowest_of_free (h : ∃ j, s.lowest = some j) (i : Nat) :
    ∃ j, (s.free i).lowest = some j := by
  obtain ⟨j, hj, hn⟩ := exists_lowest.mp h
  refine exists_lowest.mpr ⟨j, hj, ?_⟩
  by_cases hji : j = i
  · rw [hji, get_free_self]
  · rw [get_free_of_ne hji, hn]

end Slots
