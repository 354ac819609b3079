import Mathlib.Data.List.Sort

/-!
# Ordered sets

A set as a strictly increasing list.  `insert` and `erase` also return what the containers of
the standard libraries return: whether the element was inserted, and how many were removed.
`below a` are the elements in front of the lower bound of `a`, `upper a` is the rest.
-/

structure SortedSet (α : Type*) [LinearOrder α] where
  elems : List α
  sorted : elems.SortedLT

namespace SortedSet

variable {α : Type*} [LinearOrder α] {s : SortedSet α} {a b : α}

instance : Membership α (SortedSet α) := ⟨fun s a => a ∈ s.elems⟩

instance : Decidable (a ∈ s) := inferInstanceAs (Decidable (a ∈ s.elems))

theorem mem_def : a ∈ s ↔ a ∈ s.elems := Iff.rfl

def empty : SortedSet α := ⟨[], List.Pairwise.nil.sortedLT⟩

def size (s : SortedSet α) : Nat := s.elems.length

/-- The least element. -/
def first (s : SortedSet α) : Option α := s.elems.head?

/-- The set with `a`, and whether `a` was new. -/
def insert (s : SortedSet α) (a : α) : SortedSet α × Bool :=
  if h : a ∈ s then (s, false)
  else (⟨s.elems.orderedInsert (· ≤ ·) a, by
    have hp := List.perm_orderedInsert (· ≤ ·) a s.elems
    have hle : (s.elems.orderedInsert (· ≤ ·) a).SortedLE :=
      (s.sorted.sortedLE.pairwise.orderedInsert a s.elems).sortedLE
    have hnd : (s.elems.orderedInsert (· ≤ ·) a).Nodup :=
      hp.nodup_iff.mpr (List.nodup_cons.mpr ⟨h, s.sorted.nodup⟩)
    exact hle.sortedLT_of_nodup hnd⟩, true)

/-- The set without `a`, and the number of elements removed. -/
def erase (s : SortedSet α) (a : α) : SortedSet α × Nat :=
  (⟨s.elems.filter (· ≠ a), (s.sorted.pairwise.filter _).sortedLT⟩, if a ∈ s then 1 else 0)

/-- The elements in front of the lower bound of `a`. -/
def below (s : SortedSet α) (a : α) : List α := s.elems.filter (· < a)

/-- The elements from the lower bound of `a` on. -/
def upper (s : SortedSet α) (a : α) : SortedSet α :=
  ⟨s.elems.filter (a ≤ ·), (s.sorted.pairwise.filter _).sortedLT⟩

@[simp] theorem not_mem_empty : a ∉ (empty : SortedSet α) := List.not_mem_nil

/-! ### Members -/

@[simp] theorem mem_insert : b ∈ (s.insert a).1 ↔ b = a ∨ b ∈ s := by
  unfold insert
  split
  · next h =>
    constructor
    · exact Or.inr
    · rintro (rfl | hb)
      · exact h
      · exact hb
  · exact List.mem_orderedInsert _

theorem insert_snd : (s.insert a).2 = true ↔ a ∉ s := by
  unfold insert
  split
  · next h => simp [h]
  · next h => simp [h]

@[simp] theorem mem_erase : b ∈ (s.erase a).1 ↔ b ≠ a ∧ b ∈ s := by
  simp only [erase, mem_def, List.mem_filter, decide_eq_true_eq]
  exact and_comm

theorem erase_snd : (s.erase a).2 = 1 ↔ a ∈ s := by
  simp [erase]

theorem mem_below : b ∈ s.below a ↔ b ∈ s ∧ b < a := by
  simp [below, mem_def]

@[simp] theorem mem_upper : b ∈ s.upper a ↔ b ∈ s ∧ a ≤ b := by
  simp [upper, mem_def]

theorem nodup_below : (s.below a).Nodup := s.sorted.nodup.filter _

/-! ### Sizes -/

theorem size_insert (h : a ∉ s) : (s.insert a).1.size = s.size + 1 := by
  rw [insert, dif_neg h]
  exact List.orderedInsert_length _ _ _

theorem size_erase (h : a ∈ s) : (s.erase a).1.size + 1 = s.size := by
  have hp : s.elems.Perm (a :: s.elems.erase a) := List.perm_cons_erase h
  have he : (s.erase a).1.elems = s.elems.erase a := by
    rw [s.sorted.nodup.erase_eq_filter a]
    exact List.filter_congr fun b _ => by by_cases hb : b = a <;> simp [hb]
  rw [size, he, size, hp.length_eq, List.length_cons]

theorem size_upper : (s.below a).length + (s.upper a).size = s.size := by
  have h : ∀ b, decide (a ≤ b) = !decide (b < a) := fun b => by
    rw [← decide_not, decide_eq_decide, not_lt]
  have hu : (s.upper a).elems = s.elems.filter fun b => !decide (b < a) :=
    List.filter_congr fun b _ => h b
  rw [below, size, hu, size]
  exact (List.length_eq_length_filter_add _).symm

/-! ### The least element -/

theorem first_eq_none : s.first = none ↔ ∀ a, a ∉ s := by
  rw [first, List.head?_eq_none_iff]
  exact List.eq_nil_iff_forall_not_mem

theorem first_eq_some : s.first = some a ↔ a ∈ s ∧ ∀ b ∈ s, a ≤ b := by
  rw [first]
  constructor
  · intro h
    obtain ⟨l, hl⟩ := List.head?_eq_some_iff.mp h
    have hs := s.sorted.sortedLE.pairwise
    rw [hl] at hs
    refine ⟨by simp [mem_def, hl], ?_⟩
    intro b hb
    rw [mem_def, hl] at hb
    rcases List.mem_cons.mp hb with rfl | hb
    · exact le_rfl
    · exact List.rel_of_pairwise_cons hs hb
  · rintro ⟨ha, hmin⟩
    obtain ⟨b, hb⟩ := Option.ne_none_iff_exists'.mp fun h : s.elems.head? = none =>
      List.ne_nil_of_mem ha (List.head?_eq_none_iff.mp h)
    obtain ⟨l, hl⟩ := List.head?_eq_some_iff.mp hb
    have hs := s.sorted.sortedLE.pairwise
    rw [hl] at hs
    have hba : b ≤ a := by
      rw [mem_def, hl] at ha
      rcases List.mem_cons.mp ha with rfl | ha
      · exact le_rfl
      · exact List.rel_of_pairwise_cons hs ha
    rw [hb, le_antisymm hba (hmin b (by simp [mem_def, hl]))]

theorem exists_first (h : a ∈ s) : ∃ b, s.first = some b := by
  apply Option.ne_none_iff_exists'.mp
  intro hn
  exact first_eq_none.mp hn a h

end SortedSet
