import Mathlib.Data.List.Basic
import Mathlib.Tactic.Common

/-!
# What comes before an element of a list

`l.before x` is the part of `l` in front of the first `x`, all of `l` when there is none.
It is not changed by what is appended after an `x`; on a queue it is what will have been
taken off when `x` comes to the front.

`take_append_cons_eq_iff` compares two lists behind a cut by what comes before their first `x`
and what comes after it.

`[x, y].Sublist l` says that a `y` comes after some `x`; `concat_sublist_concat` is how it
goes on when the list grows at its end.
-/

namespace List

variable {α : Type*} [DecidableEq α] {x a : α} {l l' : List α}

/-- The elements in front of the first `x`. -/
def before (l : List α) (x : α) : List α := l.takeWhile (· ≠ x)

@[simp] theorem before_nil : ([] : List α).before x = [] := rfl

@[simp] theorem before_cons_self : (x :: l).before x = [] := by
  simp [before]

theorem before_cons_of_ne (h : a ≠ x) : (a :: l).before x = a :: l.before x := by
  simp [before, h]

theorem before_subset : l.before x ⊆ l := takeWhile_subset _

theorem before_append_of_mem (h : x ∈ l) : (l ++ l').before x = l.before x := by
  induction l with
  | nil => cases h
  | cons a l ih =>
    by_cases ha : a = x
    · rw [ha, cons_append, before_cons_self, before_cons_self]
    · rw [cons_append, before_cons_of_ne ha, before_cons_of_ne ha,
        ih ((mem_cons.mp h).resolve_left fun he => ha he.symm)]

theorem before_append_of_not_mem (h : x ∉ l) : (l ++ l').before x = l ++ l'.before x := by
  induction l with
  | nil => rfl
  | cons a l ih =>
    obtain ⟨ha, hl⟩ := not_or.mp fun h' => h (mem_cons.mpr h')
    rw [cons_append, before_cons_of_ne (Ne.symm ha), ih hl, cons_append]

theorem before_of_not_mem (h : x ∉ l) : l.before x = l := by
  have := @before_append_of_not_mem α _ x l [] h
  rwa [append_nil, before_nil, append_nil] at this

theorem mem_before_append (h : a ∈ l.before x) : a ∈ (l ++ l').before x := by
  by_cases hx : x ∈ l
  · rwa [before_append_of_mem hx]
  · rw [before_append_of_not_mem hx]
    exact mem_append_left _ (before_subset h)

/-- An element before `x` was there already, or there was no `x` yet. -/
theorem mem_before_or (h : a ∈ (l ++ l').before x) :
    a ∈ l.before x ∨ x ∉ l ∧ a ∈ l'.before x := by
  by_cases hx : x ∈ l
  · rw [before_append_of_mem hx] at h
    exact Or.inl h
  · rw [before_append_of_not_mem hx] at h
    rcases mem_append.mp h with h | h
    · exact Or.inl (by rwa [before_of_not_mem hx])
    · exact Or.inr ⟨hx, h⟩

omit [DecidableEq α] in
/-- A prefix that ends in an `x` does not reach into what has no `x`. -/
theorem prefix_of_concat_prefix_append {p : List α} (h : p ++ [x] <+: l ++ l') (hx : x ∉ l') :
    p ++ [x] <+: l := by
  obtain ⟨q, hq⟩ := h
  rcases append_eq_append_iff.mp hq with ⟨r, hr, -⟩ | ⟨r, hr, hl⟩
  · exact ⟨r, hr.symm⟩
  · rcases eq_nil_or_concat r with rfl | ⟨r, y, rfl⟩
    · rw [append_nil] at hr
      exact hr ▸ prefix_rfl
    · rw [concat_eq_append, ← append_assoc] at hr
      obtain rfl := singleton_inj.mp (append_inj' hr rfl).2
      exact absurd (hl ▸ by simp) hx

omit [DecidableEq α] in
/-- The last element of a subsequence lies in front of the end of the list, or is its end. -/
theorem concat_sublist_concat : (l' ++ [a]).Sublist (l ++ [x]) ↔
    (l' ++ [a]).Sublist l ∨ l'.Sublist l ∧ a = x := by
  rw [← reverse_sublist, reverse_concat, reverse_concat, cons_sublist_cons', ← reverse_concat,
    reverse_sublist, reverse_sublist, and_comm]

omit [DecidableEq α] in
theorem pair_sublist_concat {b : α} :
    [a, b].Sublist (l ++ [x]) ↔ [a, b].Sublist l ∨ a ∈ l ∧ b = x := by
  rw [← singleton_sublist]
  exact @concat_sublist_concat α x b l [a]

omit [DecidableEq α] in
theorem triple_sublist_concat {b c : α} :
    [a, b, c].Sublist (l ++ [x]) ↔ [a, b, c].Sublist l ∨ [a, b].Sublist l ∧ c = x :=
  @concat_sublist_concat α x c l [a, b]

omit [DecidableEq α] in
/-- What ends in an `a` does not reach into a list without one. -/
theorem sublist_of_concat_sublist_append (l' : List α) : ∀ {r l : List α},
    (l' ++ [a]).Sublist (l ++ r) → a ∉ r → (l' ++ [a]).Sublist l := by
  intro r
  induction r with
  | nil =>
    intro l h _
    rwa [append_nil] at h
  | cons b r ih =>
    intro l h ha
    obtain ⟨hb, hr⟩ := not_or.mp fun h' => ha (mem_cons.mpr h')
    rw [append_cons l b r] at h
    exact (concat_sublist_concat.mp (ih h hr)).resolve_right fun h' => hb h'.2

omit [DecidableEq α] in
/-- The second of a pair is in the list already, or in what is appended. -/
theorem pair_sublist_append {b : α} {r : List α} (h : [a, b].Sublist (l ++ r)) :
    [a, b].Sublist l ∨ a ∈ l ++ r ∧ b ∈ r := by
  by_cases hb : b ∈ r
  · exact Or.inr ⟨h.subset mem_cons_self, hb⟩
  · exact Or.inl (sublist_of_concat_sublist_append [a] h hb)

omit [DecidableEq α] in
/-- Two lists that are cut at `k`, behind or in front of their first `x`. -/
theorem take_append_cons_eq_iff {p q d e : List α} {k : Nat} (hp : x ∉ p) (hq : x ∉ q) :
    (p ++ x :: d).take k = (q ++ x :: e).take k ↔
      p.take k = q.take k ∧ d.take (k - (p.length + 1)) = e.take (k - (p.length + 1)) := by
  induction p generalizing q k with
  | nil =>
    cases q with
    | nil => cases k <;> simp
    | cons b q =>
      have hxb : x ≠ b := fun h => hq (h ▸ mem_cons_self)
      cases k <;> simp [hxb]
  | cons a p ih =>
    have hax : a ≠ x := fun h => hp (h ▸ mem_cons_self)
    cases q with
    | nil => cases k <;> simp [hax]
    | cons b q =>
      cases k with
      | zero => simp
      | succ k =>
        rw [cons_append, cons_append, take_succ_cons, take_succ_cons, take_succ_cons,
          take_succ_cons, cons.injEq, cons.injEq, length_cons, Nat.add_sub_add_right, and_assoc]
        exact and_congr_right fun _ =>
          ih (fun h => hp (mem_cons_of_mem a h)) fun h => hq (mem_cons_of_mem b h)

end List
