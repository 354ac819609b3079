import SimpleNet.Timer.Owned

/-!
# The operations of a timer queue

What each operation does to a queue whose timers are `Owned`: its assertions hold, it uses no
deleted timer, and the lemma says which queue it leaves.
-/

namespace SimpleNet

open Function (update)

theorem Entry.le_iff {d e : Entry} :
    d ≤ e ↔ d.when < e.when ∨ d.when = e.when ∧ d.timer ≤ e.timer :=
  Prod.Lex.le_iff

namespace TimerQueue

/-- The timer `t` is put into the two sets. -/
def put (s : TimerQueue) (a : Nat) (t : Timer) : TimerQueue :=
  { s with
    timers := (s.timers.insert ⟨t.expiration, a⟩).1
    activeTimers := (s.activeTimers.insert ⟨a, t.sequence⟩).1 }

/-- The timer `t` is taken out of memory. -/
def drop (s : TimerQueue) (a : Nat) (t : Timer) : TimerQueue :=
  { s with
    trace := s.trace ++ [.delete ⟨a, t.sequence⟩]
    heap := update s.heap a none }

section

variable {s : TimerQueue} {a : Nat} {t : Timer} {away : List Nat} {id : TimerId}

@[simp] theorem new_heap_self {when : Int} {interval : Fin (2 ^ 63)} {repeat_ : Bool} :
    (s.new a when interval repeat_).heap a = some ⟨when, interval, repeat_, s.numCreated + 1⟩ :=
  Function.update_self _ _ _

theorem new_heap_of_ne {when : Int} {interval : Fin (2 ^ 63)} {repeat_ : Bool} {b : Nat}
    (h : b ≠ a) : (s.new a when interval repeat_).heap b = s.heap b :=
  Function.update_of_ne h _ _

@[simp] theorem drop_heap_self : (s.drop a t).heap a = none := Function.update_self _ _ _

theorem drop_heap_of_ne {b : Nat} (h : b ≠ a) : (s.drop a t).heap b = s.heap b :=
  Function.update_of_ne h _ _

theorem check_of {p : Prop} [Decidable p] (h : p) : s.check p = s := if_pos h

theorem deref_of {f : Timer → TimerQueue} (ht : s.heap a = some t) : s.deref a f = f t := by
  rw [deref, ht]

theorem delete_eq (ht : s.heap a = some t) : s.delete a = s.drop a t := deref_of ht

theorem insert_eq (h : Owned s.timers s.activeTimers s.heap (a :: away)) (ht : s.heap a = some t) :
    s.insert a = s.put a t := by
  obtain ⟨hf, hg⟩ := h.fresh t.expiration t.sequence
  have hsize : (s.put a t).Sizes := by
    show (SortedSet.insert _ _).1.size = (SortedSet.insert _ _).1.size
    rw [SortedSet.size_insert hf, SortedSet.size_insert hg, h.size]
  rw [insert, deref_of ht]
  simp only [check_of (show s.Sizes from h.size)]
  rw [check_of (SortedSet.insert_snd.mpr hf), check_of (SortedSet.insert_snd.mpr hg)]
  exact check_of hsize

theorem addTimerInLoop_eq (h : Owned s.timers s.activeTimers s.heap (a :: away))
    (ht : s.heap a = some t) (drift : Nat) : s.addTimerInLoop drift a =
      if s.earliestChanged a then (s.put a t).resetTimerfd drift t.expiration else s.put a t := by
  rw [addTimerInLoop, insert_eq h ht]
  exact if_congr Iff.rfl (deref_of ht) rfl

/-- The timer `t` is taken out of the two sets. -/
def take (s : TimerQueue) (id : TimerId) (t : Timer) : TimerQueue :=
  { s with
    timers := (s.timers.erase ⟨t.expiration, id.timer⟩).1
    activeTimers := (s.activeTimers.erase id).1 }

theorem owned_take (h : Owned s.timers s.activeTimers s.heap away) (hi : id ∈ s.activeTimers)
    (ht : s.heap id.timer = some t) :
    Owned (s.take id t).timers (s.take id t).activeTimers s.heap (id.timer :: away) := by
  obtain ⟨u, hu, hs, hm⟩ := h.listed id hi
  obtain rfl := Option.some.inj (ht.symm.trans hu)
  have hsize : (s.take id t).timers.size = (s.take id t).activeTimers.size := by
    have h1 := SortedSet.size_erase hm
    have h2 := SortedSet.size_erase hi
    have h3 := h.size
    show (SortedSet.erase _ _).1.size = (SortedSet.erase _ _).1.size
    omega
  refine h.take (List.nodup_singleton (⟨t.expiration, id.timer⟩ : Entry)) ?_ ?_ ?_ hsize
  · intro e he
    rwa [List.mem_singleton.mp he]
  · intro e
    rw [List.mem_singleton]
    exact SortedSet.mem_erase.trans and_comm
  · intro i
    refine SortedSet.mem_erase.trans (and_comm.trans (and_congr_right ?_))
    intro hia
    simp only [List.mem_singleton, forall_eq]
    constructor
    · rintro hne he
      obtain ⟨v, hv, hvs, -⟩ := h.listed i hia
      rw [← he, ht] at hv
      obtain rfl := Option.some.inj hv
      refine hne ?_
      cases i
      cases id
      simp_all
    · rintro hne rfl
      exact hne rfl

/-- `cancelInLoop` of a timer in the sets. -/
theorem cancelInLoop_active (h : Owned s.timers s.activeTimers s.heap away)
    (hi : id ∈ s.activeTimers) (ht : s.heap id.timer = some t) :
    s.cancelInLoop id = ((s.take id t).drop id.timer t).emit (.cancelInLoop id) := by
  obtain ⟨u, hu, -, hm⟩ := h.listed id hi
  obtain rfl := Option.some.inj (ht.symm.trans hu)
  have hsize : ((s.take id t).drop id.timer t).Sizes := (owned_take h hi ht).size
  rw [cancelInLoop]
  simp only [check_of (show s.Sizes from h.size)]
  rw [if_pos hi, deref_of ht, check_of (SortedSet.erase_snd.mpr hm), delete_eq (by exact ht)]
  exact congrArg (emit · _) (check_of hsize)

/-- `cancelInLoop` of any other timer. -/
theorem cancelInLoop_of_not_mem (hsize : s.Sizes) (hi : id ∉ s.activeTimers) :
    s.cancelInLoop id = { s with
      cancelingTimers := if s.callingExpiredTimers then (s.cancelingTimers.insert id).1
        else s.cancelingTimers }.emit (.cancelInLoop id) := by
  rw [cancelInLoop]
  simp only [check_of hsize]
  rw [if_neg hi]
  refine congrArg (emit · _) ?_
  split
  · exact check_of (by exact hsize)
  · exact check_of hsize

/-! ### `handleRead` -/

theorem eraseActive_eq {d : Entry} (ht : s.heap d.timer = some t)
    (hm : ⟨d.timer, t.sequence⟩ ∈ s.activeTimers) : s.eraseActive d =
      { s with activeTimers := (s.activeTimers.erase ⟨d.timer, t.sequence⟩).1 } := by
  rw [eraseActive, deref_of ht]
  exact check_of (SortedSet.erase_snd.mpr hm)

theorem foldl_eraseActive : ∀ {expired : List Entry} {s : TimerQueue}, expired.Nodup →
    (∀ d ∈ expired, ∀ e ∈ expired, d.timer = e.timer → d = e) →
    (∀ e ∈ expired, ∃ t, s.heap e.timer = some t ∧ ⟨e.timer, t.sequence⟩ ∈ s.activeTimers) →
    (∀ i ∈ s.activeTimers, ∃ t, s.heap i.timer = some t ∧ t.sequence = i.sequence) →
    ∃ active, expired.foldl eraseActive s = { s with activeTimers := active } ∧
      expired.length + active.size = s.activeTimers.size ∧
      ∀ i, i ∈ active ↔ i ∈ s.activeTimers ∧ ∀ e ∈ expired, e.timer ≠ i.timer := by
  intro expired
  induction expired with
  | nil =>
    intro s _ _ _ _
    exact ⟨s.activeTimers, rfl, Nat.zero_add _, fun i => by simp⟩
  | cons d expired ih =>
    intro s hnd hinj hmem hact
    obtain ⟨hd, hnd⟩ := List.nodup_cons.mp hnd
    obtain ⟨t, ht, htm⟩ := hmem d List.mem_cons_self
    have hne : ∀ e ∈ expired, e.timer ≠ d.timer := by
      intro e he hed
      exact hd (hinj e (List.mem_cons_of_mem d he) d List.mem_cons_self hed ▸ he)
    have heq := eraseActive_eq ht htm
    obtain ⟨active, hfold, hsize, hiff⟩ := ih (s := s.eraseActive d) hnd
      (fun a ha b hb => hinj a (List.mem_cons_of_mem d ha) b (List.mem_cons_of_mem d hb))
      (fun e he => by
        obtain ⟨u, hu, hum⟩ := hmem e (List.mem_cons_of_mem d he)
        rw [heq]
        refine ⟨u, hu, SortedSet.mem_erase.mpr ⟨fun h => hne e he ?_, hum⟩⟩
        exact congrArg TimerId.timer h)
      (fun i hi => by
        rw [heq] at hi ⊢
        exact hact i (SortedSet.mem_erase.mp hi).2)
    refine ⟨active, ?_, ?_, ?_⟩
    · rw [List.foldl_cons, hfold, heq]
    · have := SortedSet.size_erase htm
      rw [heq] at hsize
      change _ = (SortedSet.erase _ _).1.size at hsize
      rw [List.length_cons]
      omega
    · intro i
      rw [hiff, heq]
      show i ∈ (SortedSet.erase _ _).1 ∧ _ ↔ _
      rw [SortedSet.mem_erase]
      constructor
      · rintro ⟨⟨hid, hi⟩, he⟩
        refine ⟨hi, ?_⟩
        intro e hm
        rcases List.mem_cons.mp hm with rfl | hm
        · -- the timer has one sequence number
          intro hti
          obtain ⟨u, hu, hus⟩ := hact i hi
          rw [← hti, ht] at hu
          obtain rfl := Option.some.inj hu
          refine hid ?_
          cases i
          simp_all
        · exact he e hm
      · rintro ⟨hi, he⟩
        refine ⟨⟨?_, hi⟩, fun e hm => he e (List.mem_cons_of_mem d hm)⟩
        rintro rfl
        exact he d List.mem_cons_self rfl

theorem readTimerfd_eq : s.readTimerfd = { s with timerfd := s.readTimerfd.timerfd } := by
  unfold readTimerfd
  cases s.timerfd with
  | none => rfl
  | some x =>
    simp only
    split <;> rfl

/-- `getExpired` hands the expired timers from the sets to the batch. -/
theorem getExpired_eq (h : Owned s.timers s.activeTimers s.heap away)
    (hlive : ∀ a t, s.heap a = some t → a < UINTPTR_MAX) (now : Int) :
    ∃ active, s.getExpired now =
        ({ s with timers := s.timers.upper (sentry now), activeTimers := active },
          s.timers.below (sentry now)) ∧
      Owned (s.timers.upper (sentry now)) active s.heap
        ((s.timers.below (sentry now)).map Entry.timer ++ away) := by
  have hbelow : ∀ e ∈ s.timers.below (sentry now), e ∈ s.timers := fun e he =>
    (SortedSet.mem_below.mp he).1
  have hinj : ∀ d ∈ s.timers.below (sentry now), ∀ e ∈ s.timers.below (sentry now),
      d.timer = e.timer → d = e := by
    intro d hd e he hde
    obtain ⟨t, ht, hdw, -⟩ := h.entry d (hbelow d hd)
    obtain ⟨u, hu, hew, -⟩ := h.entry e (hbelow e he)
    rw [hde, hu] at ht
    obtain rfl := Option.some.inj ht
    cases d
    cases e
    simp_all
  have hfirst : ∀ e ∈ (s.timers.upper (sentry now)).first, now < e.when := by
    intro e he
    obtain ⟨hm, hle⟩ := SortedSet.mem_upper.mp (SortedSet.first_eq_some.mp he).1
    obtain ⟨t, ht, -⟩ := h.entry e hm
    have := hlive e.timer t ht
    rcases Entry.le_iff.mp hle with hlt | ⟨-, hle⟩
    · exact hlt
    · exact absurd hle (Nat.not_le.mpr this)
  obtain ⟨active, hfold, hsize, hiff⟩ := foldl_eraseActive
    (s := { s with timers := s.timers.upper (sentry now) }) SortedSet.nodup_below hinj
    (fun e he => by
      obtain ⟨t, ht, -, hm⟩ := h.entry e (hbelow e he)
      exact ⟨t, ht, hm⟩)
    (fun i hi => by
      obtain ⟨t, ht, hs, -⟩ := h.listed i hi
      exact ⟨t, ht, hs⟩)
  have hsizes : (s.timers.upper (sentry now)).size = active.size := by
    have h1 := SortedSet.size_upper (s := s.timers) (a := sentry now)
    have h2 := h.size
    change _ = s.activeTimers.size at hsize
    omega
  refine ⟨active, ?_, ?_⟩
  · rw [getExpired]
    simp only [check_of (show s.Sizes from h.size), check_of hfirst]
    rw [hfold, check_of (by exact hsizes)]
  · refine h.take SortedSet.nodup_below hbelow ?_ hiff hsizes
    intro e
    rw [SortedSet.mem_upper, SortedSet.mem_below, not_and, not_lt]
    exact and_congr_right fun he => ⟨fun hle _ => hle, fun hle => hle he⟩

theorem handleRead_eq (h : Owned s.timers s.activeTimers s.heap away)
    (hlive : ∀ a t, s.heap a = some t → a < UINTPTR_MAX) (delay : Nat) :
    ∃ active, s.handleRead delay = { s with
        clock := s.clock + delay
        timerfd := { s with clock := s.clock + delay }.readTimerfd.timerfd
        timers := s.timers.upper (sentry s.clock)
        activeTimers := active
        callingExpiredTimers := true
        cancelingTimers := .empty
        handling := some ⟨s.clock, s.timers.below (sentry s.clock), s.timers.below (sentry s.clock)⟩ } ∧
      Owned (s.timers.upper (sentry s.clock)) active s.heap
        ((s.timers.below (sentry s.clock)).map Entry.timer ++ away) := by
  have hread := readTimerfd_eq (s := { s with clock := s.clock + delay })
  obtain ⟨active, heq, ho⟩ := getExpired_eq (s := { s with
    clock := s.clock + delay
    timerfd := { s with clock := s.clock + delay }.readTimerfd.timerfd }) h hlive s.clock
  refine ⟨active, ?_, ho⟩
  rw [handleRead]
  simp only
  rw [hread, heq]

/-! ### `reset` -/

/-- What the loop of `reset` does with the timer `t`. -/
def settle (s : TimerQueue) (now : Int) (a : Nat) (t : Timer) : TimerQueue :=
  if t.repeat_ ∧ ⟨a, t.sequence⟩ ∉ s.cancelingTimers then
    { s with heap := update s.heap a (some (t.restart now)) }.put a (t.restart now)
  else s.drop a t

theorem settle_cancelingTimers (s : TimerQueue) (now : Int) (x : Timer) :
    (s.settle now a x).cancelingTimers = s.cancelingTimers := by
  unfold settle
  split <;> rfl

/-- A timer is in the batch of `reset` once. -/
theorem timer_ne_of_nodup {done expired : List Entry} {e : Entry}
    (hnd : ((done ++ e :: expired).map Entry.timer).Nodup) :
    ∀ d ∈ done ++ expired, d.timer ≠ e.timer := by
  have hmid : ((e :: (done ++ expired)).map Entry.timer).Nodup :=
    (List.perm_middle.map Entry.timer).nodup_iff.mp hnd
  rw [List.map_cons, List.nodup_cons] at hmid
  intro d hd hde
  exact hmid.1 (hde ▸ List.mem_map_of_mem hd)

theorem settle_heap_of_ne (s : TimerQueue) (now : Int) (x : Timer) {b : Nat} (hb : b ≠ a) :
    (s.settle now a x).heap b = s.heap b := by
  unfold settle
  split
  · exact Function.update_of_ne hb _ _
  · exact drop_heap_of_ne hb

theorem resetOne_eq {e : Entry} (h : Owned s.timers s.activeTimers s.heap (e.timer :: away))
    (ht : s.heap e.timer = some t) (now : Int) :
    resetOne now s e = s.settle now e.timer t := by
  rw [resetOne, deref_of ht]
  refine if_congr Iff.rfl ?_ (delete_eq ht)
  exact insert_eq (s := { s with heap := update s.heap e.timer (some (t.restart now)) }) h.set
    (Function.update_self _ _ _)

theorem owned_settle (h : Owned s.timers s.activeTimers s.heap (a :: away)) (now : Int) :
    Owned (s.settle now a t).timers (s.settle now a t).activeTimers (s.settle now a t).heap away := by
  unfold settle
  split
  · exact h.set.insert (Function.update_self _ _ _)
  · exact h.delete

/-- The loop of `reset`, with the timers that are still to come. -/
theorem foldl_resetOne (now : Int) {I : List Entry → TimerQueue → Prop}
    (hI : ∀ e expired s t, Owned s.timers s.activeTimers s.heap (e.timer :: (expired.map Entry.timer ++
      away)) → s.heap e.timer = some t → I (e :: expired) s → I expired (s.settle now e.timer t)) :
    ∀ {expired : List Entry} {s : TimerQueue},
      Owned s.timers s.activeTimers s.heap (expired.map Entry.timer ++ away) → I expired s →
      Owned (expired.foldl (resetOne now) s).timers (expired.foldl (resetOne now) s).activeTimers
        (expired.foldl (resetOne now) s).heap away ∧ I [] (expired.foldl (resetOne now) s) := by
  intro expired
  induction expired with
  | nil =>
    intro s h hs
    exact ⟨h, hs⟩
  | cons e expired ih =>
    intro s h hs
    obtain ⟨t, ht⟩ := Option.isSome_iff_exists.mp (h.apart e.timer List.mem_cons_self).1
    rw [List.foldl_cons, resetOne_eq h ht]
    exact ih (owned_settle h now) (hI e expired s t h ht hs)

/-- The end of `reset`. -/
theorem reset_eq {now : Int} {expired : List Entry} {u : TimerQueue}
    (hu : expired.foldl (resetOne now) s = u) (h : Owned u.timers u.activeTimers u.heap away)
    (drift : Nat) : s.reset drift expired now =
      match u.timers.first with
      | some e => if Timestamp.valid e.when then u.resetTimerfd drift e.when else u
      | none => u := by
  rw [reset, hu]
  cases hf : u.timers.first with
  | none => rfl
  | some e =>
    obtain ⟨t, ht, hw, -⟩ := h.entry e (SortedSet.first_eq_some.mp hf).1
    simp only [deref_of ht, hw]

/-- What follows the loop changes the clock and the timerfd only. -/
theorem reset_eq_or {now : Int} {expired : List Entry} {u : TimerQueue}
    (hu : expired.foldl (resetOne now) s = u) (h : Owned u.timers u.activeTimers u.heap away)
    (drift : Nat) : s.reset drift expired now = u ∨
      ∃ e : Entry, s.reset drift expired now = u.resetTimerfd drift e.when := by
  rw [reset_eq hu h drift]
  cases u.timers.first with
  | none => exact Or.inl rfl
  | some e =>
    simp only
    split
    · exact Or.inr ⟨e, rfl⟩
    · exact Or.inl rfl

/-! ### The steps -/

/-- What each step does, with what the loop's thread has found. -/
inductive Stepped (s : TimerQueue) : Act → TimerQueue → Prop
  | addTimer (a : Nat) (when : Int) (interval : Fin (2 ^ 63)) (repeat_ : Bool) (drift : Nat)
      (hfree : s.heap a = none) (hmax : a < UINTPTR_MAX) :
      Stepped s (.addTimer true a when interval repeat_ drift)
        ((s.new a when interval repeat_).addTimerInLoop drift a)
  | queueAdd (a : Nat) (when : Int) (interval : Fin (2 ^ 63)) (repeat_ : Bool) (drift : Nat)
      (hfree : s.heap a = none) (hmax : a < UINTPTR_MAX) :
      Stepped s (.addTimer false a when interval repeat_ drift)
        { s.new a when interval repeat_ with functors := s.functors.push (.addTimerInLoop a) }
  | cancel (id : TimerId) : Stepped s (.cancel true id) (s.cancelInLoop id)
  | queueCancel (id : TimerId) :
      Stepped s (.cancel false id) { s with functors := s.functors.push (.cancelInLoop id) }
  | doPendingFunctors (hr : s.functors.rest = []) :
      Stepped s .doPendingFunctors { s with functors := s.functors.swap }
  | runAdd (a : Nat) (fs : List TimerTask) (drift : Nat)
      (hr : s.functors.rest = .addTimerInLoop a :: fs) (hn : s.handling = none) :
      Stepped s (.runFunctor drift)
        ({ s with functors := s.functors.tail }.addTimerInLoop drift a)
  | runCancel (id : TimerId) (fs : List TimerTask) (drift : Nat)
      (hr : s.functors.rest = .cancelInLoop id :: fs) (hn : s.handling = none) :
      Stepped s (.runFunctor drift) ({ s with functors := s.functors.tail }.cancelInLoop id)
  | handleRead (delay : Nat) (hn : s.handling = none) :
      Stepped s (.handleRead delay) (s.handleRead delay)
  | runTimer (now : Int) (expired : List Entry) (e : Entry) (todo : List Entry)
      (hh : s.handling = some ⟨now, expired, e :: todo⟩) :
      Stepped s .runTimer (s.deref e.timer fun t =>
        { s.emit (.run ⟨e.timer, t.sequence⟩) with handling := some ⟨now, expired, todo⟩ })
  | reset (now : Int) (expired : List Entry) (drift : Nat)
      (hh : s.handling = some ⟨now, expired, []⟩) :
      Stepped s (.reset drift)
        { { s with callingExpiredTimers := false }.reset drift expired now with handling := none }
  | tick (n : Nat) : Stepped s (.tick n) { s with clock := s.clock + n }

theorem step_stepped {u : TimerQueue} {c : Act} (hst : step s c = some u) : Stepped s c u := by
  unfold step at hst
  split at hst
  · cases hst
  cases c with
  | addTimer inLoop a when interval repeat_ drift =>
    simp only [Option.ite_none_right_eq_some] at hst
    obtain ⟨⟨hfree, -, hmax⟩, hst⟩ := hst
    have hnone : s.heap a = none := Option.isNone_iff_eq_none.mp hfree
    cases inLoop with
    | true =>
      simp only [if_true, Option.ite_none_right_eq_some, Option.some.injEq] at hst
      obtain ⟨-, rfl⟩ := hst
      exact .addTimer a when interval repeat_ drift hnone hmax
    | false =>
      obtain rfl := Option.some.inj hst
      exact .queueAdd a when interval repeat_ drift hnone hmax
  | cancel inLoop id =>
    cases inLoop with
    | true =>
      simp only [if_true, Option.ite_none_right_eq_some, Option.some.injEq] at hst
      obtain ⟨-, rfl⟩ := hst
      exact .cancel id
    | false =>
      obtain rfl := Option.some.inj hst
      exact .queueCancel id
  | doPendingFunctors =>
    simp only [Option.ite_none_right_eq_some, Option.some.injEq] at hst
    obtain ⟨⟨-, hr⟩, rfl⟩ := hst
    exact .doPendingFunctors hr
  | runFunctor drift =>
    simp only at hst
    split at hst
    · next f fs hr =>
      simp only [Option.ite_none_right_eq_some, Option.some.injEq] at hst
      obtain ⟨hn, rfl⟩ := hst
      have hnone : s.handling = none := Option.isNone_iff_eq_none.mp hn
      cases f with
      | addTimerInLoop a => exact .runAdd a fs drift hr hnone
      | cancelInLoop id => exact .runCancel id fs drift hr hnone
    · cases hst
  | handleRead delay =>
    simp only [Option.ite_none_right_eq_some, Option.some.injEq] at hst
    obtain ⟨⟨hn, -⟩, rfl⟩ := hst
    exact .handleRead delay (Option.isNone_iff_eq_none.mp hn)
  | runTimer =>
    simp only at hst
    split at hst
    · next now expired e todo hh =>
      obtain rfl := Option.some.inj hst
      exact .runTimer now expired e todo hh
    · cases hst
  | reset drift =>
    simp only at hst
    split at hst
    · next now expired hh =>
      obtain rfl := Option.some.inj hst
      exact .reset now expired drift hh
    · cases hst
  | tick n =>
    obtain rfl := Option.some.inj hst
    exact .tick n

end

end TimerQueue

end SimpleNet
