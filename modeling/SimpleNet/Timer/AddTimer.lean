import SimpleNet.Timer.Frame

/-!
# `addTimer` on another thread

The three things that `addTimer` does on a thread other than the loop's are steps of their own:
`new Timer`, the functor, and `timer->sequence()`, which reads a timer that is already the
loop's.  The loop may have deleted it by then, and another one may be at its address.

`addTimer_own_id`: a call returns the id of the timer that it created as long as no step of the
loop deletes a timer whose call has still to read; and a call whose timer is deleted before that
does not return its id.
-/

namespace SimpleNet

open Function (update)

namespace TimerQueue

/-- `reset` deletes the timer, if it is in the batch. -/
def Doomed (s : TimerQueue) (i : TimerId) : Prop :=
  ∃ x ∈ s.heap i.timer, x.sequence = i.sequence ∧ ¬ (x.repeat_ = true ∧ i ∉ s.cancelingTimers)

/-- The timers that a step deletes. -/
def Deletes (s : TimerQueue) : Act → TimerId → Prop
  | .cancel true id, i => i = id ∧ i ∈ s.activeTimers
  | .runFunctor _, i => s.functors.rest.head? = some (.cancelInLoop i) ∧ i ∈ s.activeTimers
  | .reset _, i => i.timer ∈ s.batch ∧ s.Doomed i
  | _, _ => False

instance (s : TimerQueue) : (c : Act) → (i : TimerId) → Decidable (s.Deletes c i)
  | .cancel true id, i => inferInstanceAs (Decidable (i = id ∧ i ∈ s.activeTimers))
  | .runFunctor _, i => inferInstanceAs
      (Decidable (s.functors.rest.head? = some (.cancelInLoop i) ∧ i ∈ s.activeTimers))
  | .reset _, i => inferInstanceAs (Decidable (i.timer ∈ s.batch ∧ ∃ x ∈ s.heap i.timer, _))
  | .cancel false _, _ | .addTimer _ _ _ _ _ _, _ | .doPendingFunctors, _ | .handleRead _, _
  | .runTimer, _ | .tick _, _ => .isFalse id

/-- `addTimerInLoop` is queued for a timer of another thread. -/
def handOver (s : TimerQueue) (a : Nat) (x : Timer) : TimerQueue :=
  { s with
    heap := update s.heap a (some x)
    functors := s.functors.push (.addTimerInLoop a) }

/-- From `s` to `t` the timers in `D` are deleted, and those in `N` are created. -/
structure Effect (s : TimerQueue) (D N : TimerId → Prop) (t : TimerQueue) : Prop where
  numCreated : s.numCreated ≤ t.numCreated
  trace : ∃ es, t.trace = s.trace ++ es ∧ ∀ i, .delete i ∈ es ↔ s.Live i ∧ D i
  live : ∀ i, t.Live i ↔ s.Live i ∧ ¬ D i ∨ N i

section

variable {s t u : TimerQueue} {a : Nat} {id : TimerId} {D D' N : TimerId → Prop} {away : List Nat}

theorem Effect.refl (hh : t.heap = s.heap) (ht : t.trace = s.trace) (hn : t.numCreated = s.numCreated) :
    Effect s (fun _ => False) (fun _ => False) t := by
  refine ⟨hn.symm.le, ⟨[], by rw [ht, List.append_nil], by simp⟩, ?_⟩
  intro i
  simp [Live, hh]

theorem Effect.trans (h : Effect s D (fun _ => False) t) (g : Effect t D' N u) :
    Effect s (fun i => D i ∨ D' i) N u := by
  obtain ⟨ds, ht, hds⟩ := h.trace
  obtain ⟨es, hu, hes⟩ := g.trace
  refine ⟨h.numCreated.trans g.numCreated, ⟨ds ++ es, by rw [hu, ht, List.append_assoc], ?_⟩, ?_⟩
  · intro i
    rw [List.mem_append, hds, hes, h.live]
    tauto
  · intro i
    rw [g.live, h.live]
    tauto

theorem Effect.congr (h : Effect s D N t) (hD : ∀ i, s.Live i → (D i ↔ D' i)) : Effect s D' N t := by
  obtain ⟨es, ht, hes⟩ := h.trace
  refine ⟨h.numCreated, ⟨es, ht, ?_⟩, ?_⟩
  · intro i
    rw [hes]
    exact and_congr_right (hD i)
  · intro i
    rw [h.live]
    refine or_congr_left (and_congr_right ?_)
    intro hl
    rw [hD i hl]

theorem Live.eq_of_timer {i : TimerId} {x : Timer} (hx : s.heap a = some x) (hi : s.Live i)
    (hia : i.timer = a) : i = ⟨a, x.sequence⟩ := by
  obtain ⟨y, hy, hseq⟩ := hi
  rw [hia, hx] at hy
  obtain rfl := Option.some.inj hy
  cases i
  simp_all

theorem effect_new (hfree : s.heap a = none) (when : Int) (interval : Fin (2 ^ 63))
    (repeat_ : Bool) : Effect s (fun _ => False) (fun i => i = ⟨a, s.numCreated + 1⟩)
      (s.new a when interval repeat_) := by
  refine ⟨Nat.le_succ _, ⟨[.addTimer ⟨a, s.numCreated + 1⟩], rfl, by simp⟩, ?_⟩
  intro i
  constructor
  · intro hl
    by_cases hia : i.timer = a
    · exact Or.inr (hl.eq_of_timer new_heap_self hia)
    · obtain ⟨x, hx, hseq⟩ := hl
      rw [new_heap_of_ne hia] at hx
      exact Or.inl ⟨⟨x, hx, hseq⟩, id⟩
  · rintro (⟨⟨x, hx, hseq⟩, -⟩ | rfl)
    · refine ⟨x, (new_heap_of_ne ?_).trans hx, hseq⟩
      rintro rfl
      rw [hfree] at hx
      cases hx
    · exact ⟨_, new_heap_self, rfl⟩

theorem effect_cancelInLoop (hs : TimerInv s) (id : TimerId) :
    Effect s (fun i => i = id ∧ i ∈ s.activeTimers) (fun _ => False) (s.cancelInLoop id) := by
  have hspec := cancelInLoop_spec hs id
  refine ⟨hspec.numCreated.symm.le, ?_, ?_⟩
  · by_cases hi : id ∈ s.activeTimers
    · obtain ⟨x, hx, hseq, -⟩ := hs.owned.listed id hi
      rw [cancelInLoop_active hs.owned hi hx]
      refine ⟨[.delete ⟨id.timer, x.sequence⟩, .cancelInLoop id], List.append_assoc _ _ _, ?_⟩
      intro i
      rw [hseq]
      simp only [List.mem_cons, TimerEvent.delete.injEq, reduceCtorEq, List.not_mem_nil, or_false]
      constructor
      · rintro rfl
        exact ⟨⟨x, hx, hseq⟩, rfl, hi⟩
      · exact fun h => h.2.1
    · rw [cancelInLoop_of_not_mem hs.owned.size hi]
      refine ⟨[.cancelInLoop id], rfl, ?_⟩
      intro i
      simp only [List.mem_singleton, reduceCtorEq, false_iff]
      rintro ⟨-, rfl, hm⟩
      exact hi hm
  · intro i
    rw [or_false]
    constructor
    · rintro ⟨x, hx, hseq⟩
      obtain ⟨hx, hn⟩ := (hspec.heap _ x).mp hx
      refine ⟨⟨x, hx, hseq⟩, ?_⟩
      rintro ⟨rfl, hm⟩
      exact hn ⟨hm, rfl⟩
    · rintro ⟨⟨x, hx, hseq⟩, hn⟩
      refine ⟨x, (hspec.heap _ x).mpr ⟨hx, ?_⟩, hseq⟩
      rintro ⟨hid, hit⟩
      -- one timer at an address
      obtain ⟨y, hy, hys, -⟩ := hs.owned.listed id hid
      have hlive : s.Live id := ⟨y, hy, hys⟩
      have heq : id = i := by
        rw [hlive.eq_of_timer (hit ▸ hx) rfl, ← hit, hseq]
      exact hn ⟨heq.symm, heq ▸ hid⟩

theorem live_drop_iff {i : TimerId} {x : Timer} :
    (s.drop a x).Live i ↔ s.Live i ∧ i.timer ≠ a := by
  constructor
  · rintro ⟨y, hy, hseq⟩
    have hia : i.timer ≠ a := by
      rintro rfl
      exact absurd (drop_heap_self.symm.trans hy) (by simp)
    exact ⟨⟨y, (drop_heap_of_ne hia).symm.trans hy, hseq⟩, hia⟩
  · rintro ⟨⟨y, hy, hseq⟩, hia⟩
    exact ⟨y, (drop_heap_of_ne hia).trans hy, hseq⟩

/-- Other contents of the timer at an address. -/
theorem live_set_iff {i : TimerId} {x y : Timer} (hx : s.heap a = some x)
    (hseq : y.sequence = x.sequence) (hh : t.heap = update s.heap a (some y)) :
    t.Live i ↔ s.Live i := by
  unfold Live
  rw [hh]
  by_cases hia : i.timer = a
  · simp [hia, hx, hseq]
  · simp [hia]

theorem effect_settle {x : Timer} (hx : s.heap a = some x) (now : Int) :
    Effect s (fun i => i.timer = a ∧ s.Doomed i) (fun _ => False) (s.settle now a x) := by
  have hdoomed : ∀ i, s.Live i → i.timer = a → (s.Doomed i ↔
      ¬ (x.repeat_ = true ∧ ⟨a, x.sequence⟩ ∉ s.cancelingTimers)) := by
    intro i hl hia
    rw [hl.eq_of_timer hx hia]
    simp [Doomed, hx]
  unfold settle
  split
  · next hre =>
    refine ⟨le_rfl, ⟨[], (List.append_nil _).symm, ?_⟩, ?_⟩
    · intro i
      simp only [List.not_mem_nil, false_iff]
      rintro ⟨hl, hia, hd⟩
      exact (hdoomed i hl hia).mp hd hre
    · intro i
      rw [live_set_iff (y := x.restart now) hx (x.restart_sequence now) rfl, or_false]
      refine (and_iff_left_of_imp ?_).symm
      rintro hl ⟨hia, hd⟩
      exact (hdoomed i hl hia).mp hd hre
  · next hre =>
    refine ⟨le_rfl, ⟨[.delete ⟨a, x.sequence⟩], rfl, ?_⟩, ?_⟩
    · intro i
      simp only [List.mem_singleton, TimerEvent.delete.injEq]
      constructor
      · rintro rfl
        have hl : s.Live ⟨a, x.sequence⟩ := ⟨x, hx, rfl⟩
        exact ⟨hl, rfl, (hdoomed _ hl rfl).mpr hre⟩
      · exact fun h => h.1.eq_of_timer hx h.2.1
    · intro i
      rw [live_drop_iff, or_false]
      refine and_congr_right ?_
      intro hl
      exact ⟨fun hia h => hia h.1, fun h hia => h ⟨hia, (hdoomed i hl hia).mpr hre⟩⟩

/-- The batch after `done`, of which `expired` are left. -/
structure Resetting (s : TimerQueue) (done expired : List Entry) (u : TimerQueue) : Prop where
  canceling : u.cancelingTimers = s.cancelingTimers
  heap : ∀ e ∈ expired, u.heap e.timer = s.heap e.timer
  effect : Effect s (fun i => i.timer ∈ done.map Entry.timer ∧ s.Doomed i) (fun _ => False) u

theorem Resetting.settle {done expired : List Entry} {e : Entry} {x : Timer}
    (h : Resetting s done (e :: expired) u)
    (hnd : ((done ++ e :: expired).map Entry.timer).Nodup) (hx : u.heap e.timer = some x)
    (now : Int) : Resetting s (done ++ [e]) expired (u.settle now e.timer x) := by
  refine ⟨(settle_cancelingTimers u now x).trans h.canceling, ?_, ?_⟩
  · intro d hd
    have hne : d.timer ≠ e.timer := timer_ne_of_nodup hnd d (List.mem_append_right _ hd)
    exact (settle_heap_of_ne u now x hne).trans (h.heap d (List.mem_cons_of_mem e hd))
  · refine (h.effect.trans (effect_settle hx now)).congr ?_
    intro i _
    have hdoom : i.timer = e.timer → (u.Doomed i ↔ s.Doomed i) := by
      intro hie
      rw [Doomed, Doomed, hie, h.heap e List.mem_cons_self, h.canceling]
    rw [List.map_append, List.mem_append, List.map_cons, List.map_nil, List.mem_singleton]
    constructor
    · rintro (⟨hm, hd⟩ | ⟨hie, hd⟩)
      · exact ⟨Or.inl hm, hd⟩
      · exact ⟨Or.inr hie, (hdoom hie).mp hd⟩
    · rintro ⟨hm | hie, hd⟩
      · exact Or.inl ⟨hm, hd⟩
      · exact Or.inr ⟨hie, (hdoom hie).mpr hd⟩

theorem effect_reset {now : Int} {expired : List Entry} (h : TimerInv s)
    (hh : s.handling = some ⟨now, expired, []⟩) (drift : Nat) :
    Effect s (fun i => i.timer ∈ s.batch ∧ s.Doomed i) (fun _ => False)
      { { s with callingExpiredTimers := false }.reset drift expired now with handling := none } := by
  have ho := h.owned_batch hh
  have hnd : (expired.map Entry.timer).Nodup := (List.nodup_append.mp ho.nodup).1
  have hrefl : Effect s (fun _ => False) (fun _ => False) { s with callingExpiredTimers := false } :=
    Effect.refl rfl rfl rfl
  have hstart : Resetting s [] expired { s with callingExpiredTimers := false } :=
    ⟨rfl, fun e _ => rfl, hrefl.congr (by simp)⟩
  obtain ⟨hown, done, hdone, hr⟩ := foldl_resetOne now
    (I := fun rest u => ∃ done, done ++ rest = expired ∧ Resetting s done rest u)
    (fun e rest u x _ hx hu => by
      obtain ⟨done, hdone, hr⟩ := hu
      exact ⟨done ++ [e], by rw [List.append_assoc]; exact hdone, hr.settle (hdone ▸ hnd) hx now⟩)
    (s := { s with callingExpiredTimers := false }) ho
    ⟨[], rfl, hstart⟩
  rw [List.append_nil] at hdone
  rw [hdone] at hr
  have hb : s.batch = expired.map Entry.timer := by rw [batch, hh]
  obtain ⟨c, y, heq⟩ := reset_arm rfl hown drift
  rw [heq, hb]
  exact ⟨hr.effect.numCreated, hr.effect.trace, hr.effect.live⟩

/-- The timer that a step creates. -/
def Creates (s : TimerQueue) : Act → TimerId → Prop
  | .addTimer _ a _ _ _ _, i => i = ⟨a, s.numCreated + 1⟩
  | _, _ => False

theorem Deletes.live {c : Act} {i : TimerId} (hs : TimerInv s) (h : s.Deletes c i) : s.Live i := by
  have hactive : i ∈ s.activeTimers → s.Live i := by
    intro hi
    obtain ⟨x, hx, hseq, -⟩ := hs.owned.listed i hi
    exact ⟨x, hx, hseq⟩
  cases c with
  | cancel inLoop id =>
    cases inLoop with
    | true => exact hactive h.2
    | false => exact h.elim
  | runFunctor drift => exact hactive h.2
  | reset drift =>
    obtain ⟨-, x, hx, hseq, -⟩ := h
    exact ⟨x, hx, hseq⟩
  | addTimer inLoop a when interval repeat_ drift => exact h.elim
  | doPendingFunctors => exact h.elim
  | handleRead delay => exact h.elim
  | runTimer => exact h.elim
  | tick n => exact h.elim

theorem effect_addTimerInLoop {x : Timer} (ho : Owned s.timers s.activeTimers s.heap (a :: away))
    (hx : s.heap a = some x) (drift : Nat) :
    Effect s (fun _ => False) (fun _ => False) (s.addTimerInLoop drift a) := by
  obtain ⟨c, y, heq⟩ := addTimerInLoop_arm ho hx drift
  rw [heq]
  exact Effect.refl rfl rfl rfl

theorem effect_stepped {c : Act} (hs : TimerInv s) (hst : Stepped s c t) :
    Effect s (s.Deletes c) (s.Creates c) t := by
  cases hst with
  | addTimer a when interval repeat_ drift hfree hmax =>
    have hnew := effect_new hfree when interval repeat_
    obtain ⟨c, y, heq⟩ := addTimerInLoop_arm (hs.owned.new hfree) new_heap_self drift
    rw [heq]
    exact ⟨hnew.numCreated, hnew.trace, hnew.live⟩
  | queueAdd a when interval repeat_ drift hfree hmax =>
    have hnew := effect_new hfree when interval repeat_
    exact ⟨hnew.numCreated, hnew.trace, hnew.live⟩
  | cancel id => exact effect_cancelInLoop hs id
  | queueCancel id => exact Effect.refl rfl rfl rfl
  | doPendingFunctors hr => exact Effect.refl rfl rfl rfl
  | runAdd a fs drift hr hn =>
    obtain ⟨ho, x, hx⟩ := hs.owned_next hn hr
    have hadd := effect_addTimerInLoop (s := { s with functors := s.functors.tail }) ho hx drift
    refine Effect.congr (D := fun _ => False) ⟨hadd.numCreated, hadd.trace, hadd.live⟩ ?_
    intro i _
    simp [Deletes, hr]
  | runCancel id fs drift hr hn =>
    have hcan := effect_cancelInLoop (timerInv_tail hs hr rfl) id
    refine Effect.congr (D := fun i => i = id ∧ i ∈ s.activeTimers)
      ⟨hcan.numCreated, hcan.trace, hcan.live⟩ ?_
    intro i _
    simp [Deletes, hr, eq_comm]
  | handleRead delay hn =>
    obtain ⟨active, heq, -⟩ := handleRead_eq hs.owned (fun a x hx => (hs.mortal.live a x hx).1) delay
    rw [heq]
    exact Effect.refl rfl rfl rfl
  | runTimer now expired e todo hh =>
    obtain ⟨x, hx⟩ := hs.next_timer hh
    rw [deref_of hx]
    refine ⟨le_rfl, ⟨[.run ⟨e.timer, x.sequence⟩], rfl, by simp [Deletes]⟩, ?_⟩
    intro i
    simp [Deletes, Creates, Live, emit]
  | reset now expired drift hh => exact effect_reset hs hh drift
  | tick n => exact Effect.refl rfl rfl rfl

theorem timerInv_handOver {x : Timer} (h : TimerInv s) (hfree : s.heap a = none)
    (hmax : a < UINTPTR_MAX) (hle : x.sequence ≤ s.numCreated)
    (hdel : .delete ⟨a, x.sequence⟩ ∉ s.trace) : TimerInv (s.handOver a x) := by
  refine ⟨(h.owned.new hfree).perm ?_, ?_, h.calling, h.todo, h.aborted, h.dangling⟩
  · have hq : (s.handOver a x).queued = s.queued ++ [a] := by
      simp [handOver, queued, TimerTask.added]
    rw [hq, ← List.append_assoc]
    exact (List.perm_append_singleton _ _).symm
  · refine ⟨?_, h.mortal.past, h.mortal.once, h.mortal.order⟩
    intro b y hy
    change update s.heap a _ b = some y at hy
    by_cases hb : b = a
    · subst hb
      rw [Function.update_self] at hy
      obtain rfl := Option.some.inj hy
      exact ⟨hmax, hle, hdel⟩
    · rw [Function.update_of_ne hb] at hy
      exact h.mortal.live b y hy

end

end TimerQueue

/-! ### The calls -/

/-- A loop with the `addTimer` calls of other threads. -/
structure AddTimers where
  loop : TimerQueue
  /-- the timers of the calls that have not queued their functor, at addresses of their own -/
  made : Nat → Option Timer
  /-- the calls that have, and have still to read the sequence number, by the timer they made -/
  reading : List TimerId
  /-- the timer that a call made, and what it returned; `none` when it read a deleted timer -/
  returned : List (TimerId × Option TimerId)

namespace AddTimers

def init (clock : Int) : AddTimers where
  loop := .init clock
  made _ := none
  reading := []
  returned := []

inductive Act
  /-- `new Timer` -/
  | newTimer (a : Nat) (when : Int) (interval : Fin (2 ^ 63)) (repeat_ : Bool)
  /-- `runInLoop`, for the timer at an address -/
  | runInLoop (a : Nat)
  /-- `timer->sequence()` -/
  | sequence (id : TimerId)
  /-- the loop's thread, and other calls -/
  | loop (c : TimerQueue.Act)

/-- The `TimerId` that is built from the timer at an address. -/
def timerId (s : AddTimers) (a : Nat) : Option TimerId :=
  (s.loop.heap a).map fun x => ⟨a, x.sequence⟩

def step (s : AddTimers) : Act → Option AddTimers
  | .newTimer a when interval repeat_ =>
    let n := s.loop.numCreated + 1
    if (s.loop.heap a).isNone ∧ (s.made a).isNone ∧ 0 < a ∧ a < TimerQueue.UINTPTR_MAX then
      some { s with
        loop := { s.loop.emit (.addTimer ⟨a, n⟩) with numCreated := n }
        made := update s.made a (some ⟨when, interval, repeat_, n⟩) }
    else none
  | .runInLoop a =>
    match s.made a with
    | some x => some { s with
        loop := s.loop.handOver a x
        made := update s.made a none
        reading := s.reading ++ [⟨a, x.sequence⟩] }
    | none => none
  | .sequence id =>
    if id ∈ s.reading then
      some { s with
        reading := s.reading.erase id
        returned := s.returned ++ [(id, s.timerId id.timer)] }
    else none
  | .loop c =>
    match c with
    | .addTimer _ a _ _ _ _ =>
      if (s.made a).isNone then (s.loop.step c).map ({ s with loop := · }) else none
    | _ => (s.loop.step c).map ({ s with loop := · })

/-- The step deletes no timer whose call has still to read it. -/
def ReadFirst (s : AddTimers) : Act → Prop
  | .loop c => ∀ id ∈ s.reading, ¬ s.loop.Deletes c id
  | _ => True

instance (s : AddTimers) : (c : Act) → Decidable (s.ReadFirst c)
  | .loop c => inferInstanceAs (Decidable (∀ id ∈ s.reading, ¬ s.loop.Deletes c id))
  | .newTimer _ _ _ _ | .runInLoop _ | .sequence _ => .isTrue trivial

/-- The calls return the ids of the timers they made, and would do so now. -/
structure Own (s : AddTimers) : Prop where
  reading : ∀ id ∈ s.reading, s.timerId id.timer = some id
  returned : ∀ r ∈ s.returned, r.2 = some r.1

/-- The timers that are made are apart from those of the loop. -/
structure CallsInv (s : AddTimers) : Prop where
  loop : s.loop.TimerInv
  made : ∀ a x, s.made a = some x → s.loop.heap a = none ∧ a < TimerQueue.UINTPTR_MAX ∧
    x.sequence ≤ s.loop.numCreated ∧ .delete ⟨a, x.sequence⟩ ∉ s.loop.trace

section

variable {s t : AddTimers} {a : Nat} {id : TimerId}

theorem timerId_eq_some : s.timerId id.timer = some id ↔ s.loop.Live id := by
  cases id
  simp [timerId, TimerQueue.Live]

/-- A step of the loop does not allocate an address that is in use. -/
theorem step_loop {c : TimerQueue.Act} (h : s.step (.loop c) = some t) :
    ∃ q, s.loop.step c = some q ∧ t = { s with loop := q } ∧
      ∀ i, s.loop.Creates c i → s.made i.timer = none := by
  cases c with
  | addTimer inLoop a when interval repeat_ drift =>
    simp only [step, Option.ite_none_right_eq_some, Option.map_eq_some_iff] at h
    obtain ⟨hfree, q, hq, rfl⟩ := h
    refine ⟨q, hq, rfl, ?_⟩
    rintro i rfl
    exact Option.isNone_iff_eq_none.mp hfree
  | cancel _ _ | doPendingFunctors | runFunctor _ | handleRead _ | runTimer | reset _ | tick _ =>
    obtain ⟨q, hq, rfl⟩ := Option.map_eq_some_iff.mp h
    exact ⟨q, hq, rfl, fun i hi => hi.elim⟩

theorem callsInv_loop {c : TimerQueue.Act} {q : TimerQueue} (h : CallsInv s)
    (hq : s.loop.step c = some q) (hfree : ∀ i, s.loop.Creates c i → s.made i.timer = none) :
    CallsInv { s with loop := q } := by
  have hst := TimerQueue.step_stepped hq
  have heff := TimerQueue.effect_stepped h.loop hst
  refine ⟨TimerQueue.timerInv_stepped h.loop hst, ?_⟩
  intro a x hx
  obtain ⟨hnone, hmax, hle, hdel⟩ := h.made a x hx
  refine ⟨?_, hmax, hle.trans heff.numCreated, ?_⟩
  · cases hy : q.heap a with
    | none => rfl
    | some y =>
      -- a timer at this address would be a new one
      have hlive : q.Live ⟨a, y.sequence⟩ := ⟨y, hy, rfl⟩
      rcases (heff.live _).mp hlive with ⟨⟨z, hz, -⟩, -⟩ | hnew
      · exact absurd (hnone.symm.trans hz) (by simp)
      · exact absurd ((hfree _ hnew).symm.trans hx) (by simp)
  · obtain ⟨es, ht, hes⟩ := heff.trace
    rw [ht, List.mem_append, not_or]
    refine ⟨hdel, ?_⟩
    intro hm
    obtain ⟨⟨y, hy, -⟩, -⟩ := (hes _).mp hm
    exact absurd (hnone.symm.trans hy) (by simp)

theorem callsInv_newTimer (h : CallsInv s) (when : Int) (interval : Fin (2 ^ 63)) (repeat_ : Bool)
    (hfree : s.loop.heap a = none) (hmax : a < TimerQueue.UINTPTR_MAX) :
    CallsInv { s with
      loop := { s.loop.emit (.addTimer ⟨a, s.loop.numCreated + 1⟩) with
        numCreated := s.loop.numCreated + 1 }
      made := update s.made a (some ⟨when, interval, repeat_, s.loop.numCreated + 1⟩) } := by
  have hm := h.loop.mortal.emit (e := .addTimer ⟨a, s.loop.numCreated + 1⟩) (by simp) (by simp)
  have hdel : ∀ i, .delete i ∈ s.loop.trace ++ [.addTimer ⟨a, s.loop.numCreated + 1⟩] ↔
      .delete i ∈ s.loop.trace := by
    intro i
    simp
  refine ⟨⟨h.loop.owned, ?_, h.loop.calling, h.loop.todo, h.loop.aborted, h.loop.dangling⟩, ?_⟩
  · refine ⟨?_, fun i hi => (hm.past i hi).trans (Nat.le_succ _), hm.once, hm.order⟩
    intro b y hy
    obtain ⟨h1, h2, h3⟩ := hm.live b y hy
    exact ⟨h1, h2.trans (Nat.le_succ _), h3⟩
  · intro b x hx
    show _ ∧ _ ∧ _ ≤ s.loop.numCreated + 1 ∧ .delete _ ∉ s.loop.trace ++ [.addTimer _]
    rw [hdel]
    change update s.made a _ b = some x at hx
    by_cases hb : b = a
    · subst hb
      rw [Function.update_self] at hx
      obtain rfl := Option.some.inj hx
      refine ⟨hfree, hmax, le_rfl, ?_⟩
      intro hd
      exact absurd (h.loop.mortal.past _ hd) (Nat.not_succ_le_self _)
    · rw [Function.update_of_ne hb] at hx
      obtain ⟨h1, h2, h3, h4⟩ := h.made b x hx
      exact ⟨h1, h2, h3.trans (Nat.le_succ _), h4⟩

theorem callsInv_runInLoop {x : Timer} (h : CallsInv s) (hx : s.made a = some x) :
    CallsInv { s with
      loop := s.loop.handOver a x
      made := update s.made a none
      reading := s.reading ++ [⟨a, x.sequence⟩] } := by
  obtain ⟨hfree, hmax, hle, hdel⟩ := h.made a x hx
  refine ⟨TimerQueue.timerInv_handOver h.loop hfree hmax hle hdel, ?_⟩
  intro b y hy
  change update s.made a _ b = some y at hy
  have hb : b ≠ a := by
    rintro rfl
    rw [Function.update_self] at hy
    cases hy
  rw [Function.update_of_ne hb] at hy
  obtain ⟨h1, h2, h3, h4⟩ := h.made b y hy
  exact ⟨(Function.update_of_ne hb _ _).trans h1, h2, h3, h4⟩

theorem callsInv_step {c : Act} (h : CallsInv s) (hst : s.step c = some t) : CallsInv t := by
  cases c with
  | newTimer a when interval repeat_ =>
    simp only [step, Option.ite_none_right_eq_some, Option.some.injEq] at hst
    obtain ⟨⟨hfree, -, -, hmax⟩, rfl⟩ := hst
    exact callsInv_newTimer h when interval repeat_ (Option.isNone_iff_eq_none.mp hfree) hmax
  | runInLoop a =>
    simp only [step] at hst
    split at hst
    · next x hx =>
      obtain rfl := Option.some.inj hst
      exact callsInv_runInLoop h hx
    · cases hst
  | sequence id =>
    simp only [step, Option.ite_none_right_eq_some, Option.some.injEq] at hst
    obtain ⟨-, rfl⟩ := hst
    exact ⟨h.loop, h.made⟩
  | loop c =>
    obtain ⟨q, hq, rfl, hfree⟩ := step_loop hst
    exact callsInv_loop h hq hfree

/-- What keeps the timers in memory whose calls have to read them. -/
theorem own_step {c : Act} (hi : CallsInv s) (h : Own s) (hok : s.ReadFirst c)
    (hst : s.step c = some t) : Own t := by
  cases c with
  | newTimer a when interval repeat_ =>
    simp only [step, Option.ite_none_right_eq_some, Option.some.injEq] at hst
    obtain ⟨-, rfl⟩ := hst
    exact ⟨h.reading, h.returned⟩
  | runInLoop a =>
    simp only [step] at hst
    split at hst
    · next x hx =>
      obtain rfl := Option.some.inj hst
      have hfree := (hi.made a x hx).1
      refine ⟨?_, h.returned⟩
      intro id hid
      rw [timerId_eq_some]
      rcases List.mem_append.mp hid with hid | hid
      · obtain ⟨y, hy, hseq⟩ := timerId_eq_some.mp (h.reading id hid)
        refine ⟨y, (Function.update_of_ne ?_ _ _).trans hy, hseq⟩
        intro hia
        rw [hia, hfree] at hy
        cases hy
      · rw [List.mem_singleton.mp hid]
        exact ⟨x, Function.update_self _ _ _, rfl⟩
    · cases hst
  | sequence id =>
    simp only [step, Option.ite_none_right_eq_some, Option.some.injEq] at hst
    obtain ⟨hid, rfl⟩ := hst
    refine ⟨fun j hj => h.reading j (List.mem_of_mem_erase hj), ?_⟩
    intro r hr
    rcases List.mem_append.mp hr with hr | hr
    · exact h.returned r hr
    · rw [List.mem_singleton.mp hr]
      exact h.reading id hid
  | loop c =>
    obtain ⟨q, hq, rfl, -⟩ := step_loop hst
    have heff := TimerQueue.effect_stepped hi.loop (TimerQueue.step_stepped hq)
    refine ⟨?_, h.returned⟩
    intro id hid
    have hlive := timerId_eq_some.mp (h.reading id hid)
    exact timerId_eq_some.mpr ((heff.live id).mpr (Or.inl ⟨hlive, hok id hid⟩))

/-- A deleted timer stays deleted. -/
theorem deleted_step {c : Act} (hi : CallsInv s) (hst : s.step c = some t)
    (hd : .delete id ∈ s.loop.trace) : .delete id ∈ t.loop.trace := by
  cases c with
  | newTimer a when interval repeat_ =>
    simp only [step, Option.ite_none_right_eq_some, Option.some.injEq] at hst
    obtain ⟨-, rfl⟩ := hst
    exact List.mem_append_left _ hd
  | runInLoop a =>
    simp only [step] at hst
    split at hst
    · obtain rfl := Option.some.inj hst
      exact hd
    · cases hst
  | sequence id =>
    simp only [step, Option.ite_none_right_eq_some, Option.some.injEq] at hst
    obtain ⟨-, rfl⟩ := hst
    exact hd
  | loop c =>
    obtain ⟨q, hq, rfl, -⟩ := step_loop hst
    obtain ⟨es, ht, -⟩ := (TimerQueue.effect_stepped hi.loop (TimerQueue.step_stepped hq)).trace
    show _ ∈ q.trace
    rw [ht]
    exact List.mem_append_left _ hd

/-- What a call returns whose timer was deleted. -/
theorem sequence_of_deleted (hi : CallsInv s) (hd : .delete id ∈ s.loop.trace)
    (hst : s.step (.sequence id) = some t) :
    ∃ r, t.returned = s.returned ++ [(id, r)] ∧ r ≠ some id := by
  simp only [step, Option.ite_none_right_eq_some, Option.some.injEq] at hst
  obtain ⟨-, rfl⟩ := hst
  refine ⟨_, rfl, ?_⟩
  intro hr
  obtain ⟨x, hx, hseq⟩ := timerId_eq_some.mp hr
  refine (hi.loop.mortal.live _ x hx).2.2 ?_
  rw [hseq]
  exact hd

theorem callsInv_init (clock : Int) : CallsInv (init clock) :=
  ⟨TimerQueue.timerInv_init clock, by simp [init]⟩

/-- **A call returns the id of its own timer** in every run that reads before it deletes; a call
whose timer a step deletes first does not. -/
theorem addTimer_own_id {clock : Int} :
    (∀ as t, Steps.run (Steps.guarded ReadFirst step) (init clock) as = some t → Own t) ∧
    ∀ as s c t, Steps.run step (init clock) as = some s → s.step c = some t → ¬ s.ReadFirst c →
      ∃ id ∈ s.reading, ∀ bs u v, Steps.run step t bs = some u → u.step (.sequence id) = some v →
        ∃ r, v.returned = u.returned ++ [(id, r)] ∧ r ≠ some id := by
  refine ⟨?_, ?_⟩
  · intro as t hrun
    have h : CallsInv t ∧ Own t := by
      refine Steps.run_invariant (I := fun s => CallsInv s ∧ Own s) ?_ ?_ hrun
      · rintro s c u ⟨hi, h⟩ hs
        obtain ⟨hok, hs⟩ := Steps.guarded_eq_some.mp hs
        exact ⟨callsInv_step hi hs, own_step hi h hok hs⟩
      · exact ⟨callsInv_init clock, by simp [init], by simp [init]⟩
    exact h.2
  · intro as s c t hrun hst hno
    have hi : CallsInv s := Steps.run_invariant (fun _ _ _ h hs => callsInv_step h hs)
      (callsInv_init clock) hrun
    cases c with
    | newTimer a when interval repeat_ => exact absurd trivial hno
    | runInLoop a => exact absurd trivial hno
    | sequence id => exact absurd trivial hno
    | loop c =>
      obtain ⟨q, hq, rfl, -⟩ := step_loop hst
      simp only [ReadFirst, not_forall, not_not] at hno
      obtain ⟨id, hid, hdel⟩ := hno
      obtain ⟨es, ht, hes⟩ := (TimerQueue.effect_stepped hi.loop (TimerQueue.step_stepped hq)).trace
      have hd : .delete id ∈ q.trace := by
        rw [ht]
        exact List.mem_append_right _ ((hes id).mpr ⟨hdel.live hi.loop, hdel⟩)
      refine ⟨id, hid, ?_⟩
      intro bs u v hbs hv
      have hu : CallsInv u ∧ .delete id ∈ u.loop.trace := by
        refine Steps.run_invariant (I := fun u => CallsInv u ∧ .delete id ∈ u.loop.trace) ?_
          ⟨callsInv_step hi hst, hd⟩ hbs
        rintro u c w ⟨hu, hdu⟩ hs
        exact ⟨callsInv_step hu hs, deleted_step hu hs hdu⟩
      exact sequence_of_deleted hu.1 hu.2 hv

/-- A call for a timer that is due, and the loop's thread up to its callback. -/
def firesFirst : List Act :=
  [.newTimer 8 5 0 false, .runInLoop 8, .loop .doPendingFunctors, .loop (.runFunctor 0),
    .loop (.handleRead 0), .loop .runTimer]

theorem addTimer_own_id_firesFirst : ∃ s t u, Steps.run step (init 10) firesFirst = some s ∧
    Steps.run (Steps.guarded ReadFirst step) (init 10)
      (firesFirst ++ [.sequence ⟨8, 1⟩, .loop (.reset 0)]) = some t ∧
    t.returned = [(⟨8, 1⟩, some ⟨8, 1⟩)] ∧ Own t ∧ s.step (.loop (.reset 0)) = some u ∧
    ∀ v, u.step (.sequence ⟨8, 1⟩) = some v → v.returned ≠ [(⟨8, 1⟩, some ⟨8, 1⟩)] := by
  have hread : (Steps.run (Steps.guarded ReadFirst step) (init 10)
      (firesFirst ++ [.sequence ⟨8, 1⟩, .loop (.reset 0)])).any
      (fun t => decide (t.returned = [(⟨8, 1⟩, some ⟨8, 1⟩)])) = true := by decide
  have hfire : (Steps.run step (init 10) firesFirst).any (fun s => (s.step (.loop (.reset 0))).any
      fun u => decide (¬ s.ReadFirst (.loop (.reset 0)) ∧ s.reading = [⟨8, 1⟩] ∧ u.returned = [])) =
        true := by decide
  obtain ⟨t, ht, hobs⟩ := (Option.any_eq_true _ _).mp hread
  obtain ⟨s, hs, hfire⟩ := (Option.any_eq_true _ _).mp hfire
  obtain ⟨u, hu, hfire⟩ := (Option.any_eq_true _ _).mp hfire
  obtain ⟨hno, hreading, hnone⟩ := of_decide_eq_true hfire
  refine ⟨s, t, u, hs, ht, of_decide_eq_true hobs, addTimer_own_id.1 _ t ht, hu, ?_⟩
  obtain ⟨id, hid, hafter⟩ := addTimer_own_id.2 _ s _ u hs hu hno
  rw [hreading, List.mem_singleton] at hid
  intro v hv
  obtain ⟨r, hr, hne⟩ := hafter [] u v rfl (hid ▸ hv)
  rw [hr, hnone, hid]
  simpa [hid] using hne

/-- The call reads a deleted timer, or the one that is created at its address. -/
theorem addTimer_reads_deleted : ∃ t u,
    Steps.run step (init 10) (firesFirst ++ [.loop (.reset 0), .sequence ⟨8, 1⟩]) = some t ∧
    t.returned = [(⟨8, 1⟩, none)] ∧
    Steps.run step (init 10) (firesFirst ++ [.loop (.reset 0),
      .loop (.addTimer true 8 700 0 false 0), .sequence ⟨8, 1⟩]) = some u ∧
    u.returned = [(⟨8, 1⟩, some ⟨8, 2⟩)] := by
  have hgone : (Steps.run step (init 10) (firesFirst ++ [.loop (.reset 0), .sequence ⟨8, 1⟩])).any
      (fun t => decide (t.returned = [(⟨8, 1⟩, none)])) = true := by decide
  have hother : (Steps.run step (init 10) (firesFirst ++ [.loop (.reset 0),
      .loop (.addTimer true 8 700 0 false 0), .sequence ⟨8, 1⟩])).any
      (fun u => decide (u.returned = [(⟨8, 1⟩, some ⟨8, 2⟩)])) = true := by decide
  obtain ⟨t, ht, hgone⟩ := (Option.any_eq_true _ _).mp hgone
  obtain ⟨u, hu, hother⟩ := (Option.any_eq_true _ _).mp hother
  exact ⟨t, u, ht, of_decide_eq_true hgone, hu, of_decide_eq_true hother⟩

end

end AddTimers

end SimpleNet
