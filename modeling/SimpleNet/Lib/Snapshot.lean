import Mathlib.Data.List.Nodup

/-!
# Walks over a snapshot

A list of things is taken, and then they are visited one after the other.  While one is
visited things may go away, and the list is not looked at again.  `Sound` says that nothing in
the rest of the walk has gone away; what keeps it is that a thing goes away only where it is
the one being visited or is not in the list at all.
-/

/-- The list that was taken, the thing being visited and those still to be visited. -/
structure Snapshot (α : Type*) where
  items : List α
  current : Option α
  todo : List α

namespace Snapshot

variable {α : Type*} {w : Snapshot α} {live live' : α → Prop} {a : α} {l : List α}

/-- The walk does not meet `a` again. -/
def Removable (w : Snapshot α) (a : α) : Prop := w.current = some a ∨ a ∉ w.items

/-- The walk is in order, and what is still to be visited has not gone away. -/
structure Sound (live : α → Prop) (w : Snapshot α) : Prop where
  listed : ∀ a ∈ w.todo, a ∈ w.items
  current : ∀ a, w.current = some a → a ∈ w.items ∧ a ∉ w.todo
  nodup : w.todo.Nodup
  live : ∀ a ∈ w.todo, live a

/-- The walk over `l` before its first visit. -/
def take (l : List α) : Snapshot α := ⟨l, none, l⟩

/-- `a` is visited, and `l` is still to be visited. -/
def visit (w : Snapshot α) (a : α) (l : List α) : Snapshot α := ⟨w.items, some a, l⟩

theorem sound_take (hn : l.Nodup) (hl : ∀ a ∈ l, live a) : Sound live (take l) where
  listed _ ha := ha
  current _ ha := by cases ha
  nodup := hn
  live := hl

/-- **Each visit finds its thing.** -/
theorem Sound.visit (h : Sound live w) (ht : w.todo = a :: l) :
    live a ∧ Sound live (w.visit a l) := by
  have hn := h.nodup
  have hlisted := h.listed
  have hlive := h.live
  rw [ht] at hn hlisted hlive
  refine ⟨hlive a List.mem_cons_self, ?_, ?_, hn.of_cons, ?_⟩
  · intro b hb
    exact hlisted b (List.mem_cons_of_mem a hb)
  · intro b hb
    obtain rfl := Option.some.inj hb
    exact ⟨hlisted _ List.mem_cons_self, (List.nodup_cons.mp hn).1⟩
  · intro b hb
    exact hlive b (List.mem_cons_of_mem a hb)

theorem Sound.mono (h : Sound live w) (hl : ∀ b, live b → live' b) : Sound live' w :=
  ⟨h.listed, h.current, h.nodup, fun b hb => hl b (h.live b hb)⟩

/-- **The rule of removal.** -/
theorem Sound.remove (h : Sound live w) (ha : w.Removable a)
    (hl : ∀ b, b ≠ a → live b → live' b) : Sound live' w := by
  refine ⟨h.listed, h.current, h.nodup, ?_⟩
  intro b hb
  refine hl b ?_ (h.live b hb)
  rintro rfl
  rcases ha with hc | hn
  · exact (h.current b hc).2 hb
  · exact hn (h.listed b hb)

end Snapshot
