import SimpleNet.Lib.Before
import SimpleNet.Timer.Basic

/-!
# Where the timers are

A timer in memory is in both sets, or away from them: its `addTimerInLoop` waits, or it is in
the batch of `handleRead`.  `Owned` says so of the two sets and a list of the timers that are
away; the operations of the queue move a timer from one to the other, or out of memory.
`Mortal` is about memory alone: a deleted timer stays deleted, as its sequence number does not
come again when its address does.
-/

namespace SimpleNet

open Function (update)

/-- The timer whose `addTimerInLoop` a functor is. -/
def TimerTask.added : TimerTask → Option Nat
  | .addTimerInLoop a => some a
  | .cancelInLoop _ => none

namespace TimerQueue

/-- The timers whose `addTimerInLoop` waits. -/
def queued (s : TimerQueue) : List Nat := s.functors.queue.filterMap TimerTask.added

/-- The timers in the batch of `handleRead`. -/
def batch (s : TimerQueue) : List Nat :=
  match s.handling with
  | some h => h.expired.map Entry.timer
  | none => []

/-! ### The sets -/

/-- The timers in memory are in both sets, or in the list `away`. -/
structure Owned (timers : SortedSet Entry) (active : SortedSet TimerId) (heap : Nat → Option Timer)
    (away : List Nat) : Prop where
  size : timers.size = active.size
  entry : ∀ e ∈ timers, ∃ t, heap e.timer = some t ∧ t.expiration = e.when ∧
    ⟨e.timer, t.sequence⟩ ∈ active
  listed : ∀ i ∈ active, ∃ t, heap i.timer = some t ∧ t.sequence = i.sequence ∧
    ⟨t.expiration, i.timer⟩ ∈ timers
  apart : ∀ a ∈ away, (heap a).isSome ∧ ∀ e ∈ timers, e.timer ≠ a
  nodup : away.Nodup
  home : ∀ a t, heap a = some t → (∃ e ∈ timers, e.timer = a) ∨ a ∈ away

section

variable {timers : SortedSet Entry} {active : SortedSet TimerId} {heap : Nat → Option Timer}
  {away away' : List Nat} {a : Nat} {t t' : Timer} {i : TimerId} {e : Entry}

theorem Owned.perm (h : Owned timers active heap away) (hp : away.Perm away') :
    Owned timers active heap away' where
  size := h.size
  entry := h.entry
  listed := h.listed
  apart a ha := h.apart a (hp.mem_iff.mpr ha)
  nodup := hp.nodup_iff.mp h.nodup
  home a t ha := (h.home a t ha).imp_right hp.mem_iff.mp

theorem Owned.not_active (h : Owned timers active heap away) (ha : a ∈ away) (hi : i ∈ active) :
    i.timer ≠ a := by
  obtain ⟨t, -, -, ht⟩ := h.listed i hi
  exact (h.apart a ha).2 _ ht

/-- A new timer is away from the sets. -/
theorem Owned.new (h : Owned timers active heap away) (ha : heap a = none) :
    Owned timers active (update heap a (some t)) (a :: away) := by
  have hne : ∀ {b u}, heap b = some u → update heap a (some t) b = some u := by
    intro b u hb
    rw [Function.update_of_ne _, hb]
    rintro rfl
    rw [ha] at hb
    cases hb
  refine ⟨h.size, ?_, ?_, ?_, ?_, ?_⟩
  · intro e he
    obtain ⟨u, hu, hr⟩ := h.entry e he
    exact ⟨u, hne hu, hr⟩
  · intro i hi
    obtain ⟨u, hu, hr⟩ := h.listed i hi
    exact ⟨u, hne hu, hr⟩
  · intro b hb
    rcases List.mem_cons.mp hb with rfl | hb
    · refine ⟨by rw [Function.update_self]; rfl, ?_⟩
      intro e he hea
      obtain ⟨u, hu, -⟩ := h.entry e he
      rw [hea, ha] at hu
      cases hu
    · obtain ⟨u, hu⟩ := Option.isSome_iff_exists.mp (h.apart b hb).1
      exact ⟨Option.isSome_iff_exists.mpr ⟨u, hne hu⟩, (h.apart b hb).2⟩
  · refine List.nodup_cons.mpr ⟨?_, h.nodup⟩
    intro hm
    have := (h.apart a hm).1
    rw [ha] at this
    cases this
  · intro b u hb
    by_cases hba : b = a
    · exact Or.inr (hba ▸ List.mem_cons_self)
    · rw [Function.update_of_ne hba] at hb
      exact (h.home b u hb).imp_right (List.mem_cons_of_mem a)

/-- A timer that is away is changed. -/
theorem Owned.set (h : Owned timers active heap (a :: away)) :
    Owned timers active (update heap a (some t)) (a :: away) := by
  have ha := h.apart a List.mem_cons_self
  refine ⟨h.size, ?_, ?_, ?_, h.nodup, ?_⟩
  · intro e he
    obtain ⟨u, hu, hr⟩ := h.entry e he
    exact ⟨u, by rw [Function.update_of_ne (ha.2 e he), hu], hr⟩
  · intro i hi
    obtain ⟨u, hu, hr⟩ := h.listed i hi
    exact ⟨u, by rw [Function.update_of_ne (h.not_active List.mem_cons_self hi), hu], hr⟩
  · intro b hb
    refine ⟨?_, (h.apart b hb).2⟩
    by_cases hba : b = a
    · rw [hba, Function.update_self]
      rfl
    · rw [Function.update_of_ne hba]
      exact (h.apart b hb).1
  · intro b u hb
    by_cases hba : b = a
    · exact Or.inr (hba ▸ List.mem_cons_self)
    · rw [Function.update_of_ne hba] at hb
      exact h.home b u hb

/-- A timer that is away is deleted. -/
theorem Owned.delete (h : Owned timers active heap (a :: away)) :
    Owned timers active (update heap a none) away := by
  have ha := h.apart a List.mem_cons_self
  obtain ⟨hna, hnd⟩ := List.nodup_cons.mp h.nodup
  refine ⟨h.size, ?_, ?_, ?_, hnd, ?_⟩
  · intro e he
    obtain ⟨u, hu, hr⟩ := h.entry e he
    exact ⟨u, by rw [Function.update_of_ne (ha.2 e he), hu], hr⟩
  · intro i hi
    obtain ⟨u, hu, hr⟩ := h.listed i hi
    exact ⟨u, by rw [Function.update_of_ne (h.not_active List.mem_cons_self hi), hu], hr⟩
  · intro b hb
    have hba : b ≠ a := fun he => hna (he ▸ hb)
    rw [Function.update_of_ne hba]
    exact h.apart b (List.mem_cons_of_mem a hb)
  · intro b u hb
    have hba : b ≠ a := by
      rintro rfl
      rw [Function.update_self] at hb
      cases hb
    rw [Function.update_of_ne hba] at hb
    exact (h.home b u hb).imp_right fun hm => (List.mem_cons.mp hm).resolve_left hba

/-- A timer that is away is not in the sets. -/
theorem Owned.fresh (h : Owned timers active heap (a :: away)) (when : Int) (n : Nat) :
    (⟨when, a⟩ : Entry) ∉ timers ∧ (⟨a, n⟩ : TimerId) ∉ active :=
  ⟨fun hm => (h.apart a List.mem_cons_self).2 _ hm rfl, fun hm =>
    h.not_active List.mem_cons_self hm rfl⟩

/-- A timer that is away is put into both sets. -/
theorem Owned.insert (h : Owned timers active heap (a :: away)) (ht : heap a = some t) :
    Owned (timers.insert ⟨t.expiration, a⟩).1 (active.insert ⟨a, t.sequence⟩).1 heap away := by
  obtain ⟨hna, hnd⟩ := List.nodup_cons.mp h.nodup
  obtain ⟨hf, hg⟩ := h.fresh t.expiration t.sequence
  refine ⟨?_, ?_, ?_, ?_, hnd, ?_⟩
  · rw [SortedSet.size_insert hf, SortedSet.size_insert hg, h.size]
  · intro e he
    rcases SortedSet.mem_insert.mp he with rfl | he
    · exact ⟨t, ht, rfl, SortedSet.mem_insert.mpr (Or.inl rfl)⟩
    · obtain ⟨u, hu, hw, hm⟩ := h.entry e he
      exact ⟨u, hu, hw, SortedSet.mem_insert.mpr (Or.inr hm)⟩
  · intro i hi
    rcases SortedSet.mem_insert.mp hi with rfl | hi
    · exact ⟨t, ht, rfl, SortedSet.mem_insert.mpr (Or.inl rfl)⟩
    · obtain ⟨u, hu, hw, hm⟩ := h.listed i hi
      exact ⟨u, hu, hw, SortedSet.mem_insert.mpr (Or.inr hm)⟩
  · intro b hb
    have hb' := h.apart b (List.mem_cons_of_mem a hb)
    refine ⟨hb'.1, ?_⟩
    intro e he
    rcases SortedSet.mem_insert.mp he with rfl | he
    · rintro rfl
      exact hna hb
    · exact hb'.2 e he
  · intro b u hb
    rcases h.home b u hb with ⟨e, he, hea⟩ | hm
    · exact Or.inl ⟨e, SortedSet.mem_insert.mpr (Or.inr he), hea⟩
    · rcases List.mem_cons.mp hm with rfl | hm
      · exact Or.inl ⟨_, SortedSet.mem_insert.mpr (Or.inl rfl), rfl⟩
      · exact Or.inr hm

/-- A timer is taken out of the sets; those that `p` selects, as `expired` lists them. -/
theorem Owned.take (h : Owned timers active heap away) {timers' : SortedSet Entry}
    {active' : SortedSet TimerId} {expired : List Entry} (hnd : expired.Nodup)
    (he : ∀ e ∈ expired, e ∈ timers) (ht : ∀ e, e ∈ timers' ↔ e ∈ timers ∧ e ∉ expired)
    (ha : ∀ i, i ∈ active' ↔ i ∈ active ∧ ∀ e ∈ expired, e.timer ≠ i.timer)
    (hsize : timers'.size = active'.size) :
    Owned timers' active' heap (expired.map Entry.timer ++ away) := by
  -- a timer has one entry
  have hone : ∀ {d e : Entry}, d ∈ timers → e ∈ timers → d.timer = e.timer → d = e := by
    intro d e hd he hde
    obtain ⟨t, ht, hdw, -⟩ := h.entry d hd
    obtain ⟨u, hu, hew, -⟩ := h.entry e he
    rw [hde, hu] at ht
    obtain rfl := Option.some.inj ht
    cases d
    cases e
    simp_all
  refine ⟨hsize, ?_, ?_, ?_, ?_, ?_⟩
  · intro e hm
    obtain ⟨hm, hne⟩ := (ht e).mp hm
    obtain ⟨u, hu, hw, hact⟩ := h.entry e hm
    refine ⟨u, hu, hw, (ha _).mpr ⟨hact, fun d hd hde => hne ?_⟩⟩
    rwa [← hone (he d hd) hm hde]
  · intro i hi
    obtain ⟨hi, hne⟩ := (ha i).mp hi
    obtain ⟨u, hu, hs, hm⟩ := h.listed i hi
    exact ⟨u, hu, hs, (ht _).mpr ⟨hm, fun hx => hne _ hx rfl⟩⟩
  · intro b hb
    rcases List.mem_append.mp hb with hb | hb
    · obtain ⟨d, hd, rfl⟩ := List.mem_map.mp hb
      obtain ⟨u, hu, -⟩ := h.entry d (he d hd)
      refine ⟨Option.isSome_iff_exists.mpr ⟨u, hu⟩, ?_⟩
      intro e hm hed
      obtain ⟨hm, hne⟩ := (ht e).mp hm
      exact hne (hone hm (he d hd) hed ▸ hd)
    · have hb' := h.apart b hb
      exact ⟨hb'.1, fun e hm => hb'.2 e ((ht e).mp hm).1⟩
  · refine List.nodup_append.mpr ⟨?_, h.nodup, ?_⟩
    · exact hnd.map_on fun d hd e hm hde => hone (he d hd) (he e hm) hde
    · rintro b hb c hc rfl
      obtain ⟨d, hd, rfl⟩ := List.mem_map.mp hb
      exact (h.apart _ hc).2 d (he d hd) rfl
  · intro b u hb
    rcases h.home b u hb with ⟨e, hm, rfl⟩ | hm
    · by_cases hx : e ∈ expired
      · exact Or.inr (List.mem_append_left _ (List.mem_map_of_mem hx))
      · exact Or.inl ⟨e, (ht e).mpr ⟨hm, hx⟩, rfl⟩
    · exact Or.inr (List.mem_append_right _ hm)

end

/-! ### Memory -/

/-- A deleted timer is not in memory, and was not run after its `delete`. -/
structure Mortal (heap : Nat → Option Timer) (numCreated : Nat) (trace : List TimerEvent) :
    Prop where
  live : ∀ a t, heap a = some t →
    a < UINTPTR_MAX ∧ t.sequence ≤ numCreated ∧ .delete ⟨a, t.sequence⟩ ∉ trace
  past : ∀ i, .delete i ∈ trace → i.sequence ≤ numCreated
  once : ∀ i, trace.count (.delete i) ≤ 1
  order : ∀ i, ¬ [.delete i, .run i].Sublist trace

section

variable {heap : Nat → Option Timer} {n : Nat} {trace : List TimerEvent} {a : Nat} {t t' : Timer}

/-- What neither deletes nor runs a timer is not in the way. -/
theorem Mortal.emit (h : Mortal heap n trace) {e : TimerEvent} (hd : ∀ i, e ≠ .delete i)
    (hr : ∀ i, e = .run i → .delete i ∉ trace) : Mortal heap n (trace ++ [e]) where
  live a t ha := by
    refine ⟨(h.live a t ha).1, (h.live a t ha).2.1, ?_⟩
    intro hm
    rcases List.mem_append.mp hm with hm | hm
    · exact (h.live a t ha).2.2 hm
    · exact hd _ (List.mem_singleton.mp hm).symm
  past i hi := by
    rcases List.mem_append.mp hi with hm | hm
    · exact h.past i hm
    · exact absurd (List.mem_singleton.mp hm).symm (hd i)
  once i := by
    rw [List.count_append, List.count_singleton, if_neg (by simpa using hd i)]
    exact h.once i
  order i hi := by
    rcases List.pair_sublist_concat.mp hi with hi | ⟨hi, he⟩
    · exact h.order i hi
    · exact hr i he.symm hi

theorem Mortal.new (h : Mortal heap n trace) (ha : a < UINTPTR_MAX) (ht : t.sequence = n + 1) :
    Mortal (update heap a (some t)) (n + 1) trace where
  live b u hb := by
    by_cases hba : b = a
    · subst hba
      rw [Function.update_self] at hb
      obtain rfl := Option.some.inj hb
      refine ⟨ha, ht.le, ?_⟩
      intro hm
      have := h.past _ hm
      rw [ht] at this
      exact absurd this (Nat.not_succ_le_self n)
    · rw [Function.update_of_ne hba] at hb
      obtain ⟨h1, h2, h3⟩ := h.live b u hb
      exact ⟨h1, by omega, h3⟩
  past i hi := (h.past i hi).trans (Nat.le_succ n)
  once := h.once
  order := h.order

theorem Mortal.set (h : Mortal heap n trace) (ht : heap a = some t)
    (hs : t'.sequence = t.sequence) : Mortal (update heap a (some t')) n trace where
  live b u hb := by
    by_cases hba : b = a
    · subst hba
      rw [Function.update_self] at hb
      obtain rfl := Option.some.inj hb
      rw [hs]
      exact h.live b t ht
    · rw [Function.update_of_ne hba] at hb
      exact h.live b u hb
  past := h.past
  once := h.once
  order := h.order

theorem Mortal.delete (h : Mortal heap n trace) (ht : heap a = some t) :
    Mortal (update heap a none) n (trace ++ [.delete ⟨a, t.sequence⟩]) where
  live b u hb := by
    have hba : b ≠ a := by
      rintro rfl
      rw [Function.update_self] at hb
      cases hb
    rw [Function.update_of_ne hba] at hb
    refine ⟨(h.live b u hb).1, (h.live b u hb).2.1, ?_⟩
    intro hm
    rcases List.mem_append.mp hm with hm | hm
    · exact (h.live b u hb).2.2 hm
    · have := List.mem_singleton.mp hm
      simp [hba] at this
  past i hi := by
    rcases List.mem_append.mp hi with hm | hm
    · exact h.past i hm
    · obtain rfl := TimerEvent.delete.inj (List.mem_singleton.mp hm)
      exact (h.live a t ht).2.1
  once i := by
    rw [List.count_append, List.count_singleton]
    split
    · next he =>
      rw [← eq_of_beq he, List.count_eq_zero.mpr (h.live a t ht).2.2]
    · exact h.once i
  order i hi := by
    rcases List.pair_sublist_concat.mp hi with hi | ⟨-, he⟩
    · exact h.order i hi
    · cases he

end

end TimerQueue

end SimpleNet
