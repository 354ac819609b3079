import SimpleNet.Lib.Firings
import SimpleNet.Timer.Frame

/-!
# The timers of a loop as a service of alarms

`service s` forgets of a timer queue what its users cannot see: the addresses and the memory of the
timers, that there are two sets and a flag, the two halves of the queue of functors, and the
timerfd.  What is left is a service of alarms under the ids of the timers, in which a timer is set
again by `addTime`.

`refines`: every run of a timer queue is a run of this service, and the timers created, run and
cancelled in it are those of the service.
-/

namespace SimpleNet

open Function (update)
open Alarms

def Timer.alarm (t : Timer) : Alarm Int (Fin (2 ^ 63)) :=
  ⟨t.expiration, if t.repeat_ then some t.interval else none⟩

/-- The timer that is cancelled. -/
def TimerEvent.cancelled : TimerEvent → Option TimerId
  | .cancelInLoop id => some id
  | _ => none

namespace TimerQueue

/-- The timer of an id. -/
def timerOf (s : TimerQueue) (i : TimerId) : Option Timer :=
  (s.heap i.timer).filter fun x => x.sequence = i.sequence

/-- The id of the timer at an address. -/
def idAt (s : TimerQueue) (a : Nat) : TimerId := ⟨a, (s.heap a).elim 0 Timer.sequence⟩

def request (s : TimerQueue) : TimerTask → Request TimerId
  | .addTimerInLoop a => .set (s.idAt a)
  | .cancelInLoop id => .cancel id

/-- What the users of the timers see. -/
def service (s : TimerQueue) : Service TimerId Int (Fin (2 ^ 63)) where
  clock := s.clock
  used := {i | i ∈ s.created}
  alarms i := (s.timerOf i).map Timer.alarm
  armed := {i | i ∈ s.activeTimers}
  inbox := s.functors.queue.map s.request
  round := s.handling.map fun h =>
    ⟨h.now, h.expired.map fun e => s.idAt e.timer, h.todo.map fun e => s.idAt e.timer,
      {i | i ∈ s.cancelingTimers}⟩

/-- What a step is for the users. -/
def label (s : TimerQueue) : Act → Label TimerId Int (Fin (2 ^ 63))
  | .addTimer true a when interval repeat_ _ =>
    .set ⟨a, s.numCreated + 1⟩ ⟨when, if repeat_ then some interval else none⟩
  | .addTimer false a when interval repeat_ _ =>
    .ask ⟨a, s.numCreated + 1⟩ ⟨when, if repeat_ then some interval else none⟩
  | .cancel true id => .cancel id
  | .cancel false id => .askCancel id
  | .doPendingFunctors => .idle
  | .runFunctor _ =>
    match s.functors.rest with
    | f :: _ => .answer (s.request f)
    | [] => .idle
  | .handleRead _ => .start ((s.getExpired s.clock).2.map fun e => s.idAt e.timer)
  | .runTimer =>
    match s.handling with
    | some ⟨_, _, e :: _⟩ => .fire (s.idAt e.timer)
    | _ => .idle
  | .reset _ => .finish
  | .tick _ => .idle

/-- The labels of a run. -/
def labels (s : TimerQueue) (as : List Act) : List (Label TimerId Int (Fin (2 ^ 63))) :=
  (Steps.trail step s as).map fun x => x.1.label x.2.1

section

variable {s t u : TimerQueue} {a : Nat} {away : List Nat} {id i : TimerId} {x : Timer}

/-! ### Ids -/

theorem timerOf_eq_some : s.timerOf i = some x ↔ s.heap i.timer = some x ∧ x.sequence = i.sequence := by
  simp [timerOf, Option.filter_eq_some_iff]

theorem idAt_of (hx : s.heap a = some x) : s.idAt a = ⟨a, x.sequence⟩ := by
  rw [idAt, hx]
  rfl

theorem idAt_congr (h : t.heap a = s.heap a) : t.idAt a = s.idAt a := by
  rw [idAt, idAt, h]

theorem timerOf_congr (h : t.heap i.timer = s.heap i.timer) : t.timerOf i = s.timerOf i := by
  rw [timerOf, timerOf, h]

theorem timerOf_of_ne (hx : s.heap i.timer = some x) (hne : x.sequence ≠ i.sequence) :
    s.timerOf i = none := by
  simp [timerOf, hx, hne]

theorem timerOf_idAt (s : TimerQueue) (a : Nat) : s.timerOf (s.idAt a) = s.heap a := by
  cases hx : s.heap a with
  | none => simp [timerOf, idAt, hx]
  | some x => exact timerOf_eq_some.mpr ⟨by simpa [idAt] using hx, by simp [idAt, hx]⟩

theorem Quiet.created (h : Quiet s t) : t.created = s.created := by
  obtain ⟨es, ht, hes⟩ := h.trace
  have hnil : es.filterMap TimerEvent.created = [] := by
    rw [List.filterMap_eq_nil_iff]
    intro e he
    obtain ⟨j, rfl⟩ := hes e he
    rfl
  rw [TimerQueue.created, ht, List.filterMap_append, hnil, List.append_nil]
  rfl

theorem created_emit {e : TimerEvent} (he : e.created = none) : (s.emit e).created = s.created := by
  show (s.trace ++ [e]).filterMap TimerEvent.created = _
  simp [created, he]

theorem mem_created_new {when : Int} {interval : Fin (2 ^ 63)} {repeat_ : Bool} :
    i ∈ (s.new a when interval repeat_).created ↔ i = ⟨a, s.numCreated + 1⟩ ∨ i ∈ s.created := by
  show i ∈ (s.trace ++ [TimerEvent.addTimer ⟨a, s.numCreated + 1⟩]).filterMap _ ↔ _
  rw [List.filterMap_append, List.mem_append, or_comm]
  exact or_congr List.mem_singleton Iff.rfl

/-- A new id. -/
theorem Named.fresh (h : Named s) : (⟨a, s.numCreated + 1⟩ : TimerId) ∉ s.created := by
  intro hm
  exact Nat.not_succ_le_self s.numCreated (h.bound _ hm)

/-- What an address stands for changes with the timer there only. -/
theorem request_congr {f : TimerTask} (h : ∀ a ∈ f.added, t.heap a = s.heap a) :
    t.request f = s.request f := by
  cases f with
  | addTimerInLoop a => exact congrArg Request.set (idAt_congr (h a rfl))
  | cancelInLoop j => rfl

theorem inbox_congr (hf : t.functors = s.functors) (hh : ∀ b ∈ s.queued, t.heap b = s.heap b) :
    t.service.inbox = s.service.inbox := by
  show t.functors.queue.map t.request = s.functors.queue.map s.request
  rw [hf]
  refine List.map_congr_left fun f hm => request_congr fun b hb => hh b ?_
  exact List.mem_filterMap.mpr ⟨f, hm, hb⟩

theorem round_congr (hs : TimerInv s) (hh : t.handling = s.handling)
    (hb : ∀ b ∈ s.batch, t.heap b = s.heap b)
    (hc : ∀ j, j ∈ t.cancelingTimers ↔ j ∈ s.cancelingTimers) :
    t.service.round = s.service.round := by
  show t.handling.map _ = s.handling.map _
  rw [hh]
  cases hk : s.handling with
  | none => rfl
  | some k =>
    have hbatch : ∀ e ∈ k.expired, t.heap e.timer = s.heap e.timer := by
      intro e he
      refine hb _ ?_
      rw [batch, hk]
      exact List.mem_map_of_mem he
    have htodo : ∀ e ∈ k.todo, t.heap e.timer = s.heap e.timer := fun e he =>
      hbatch e ((hs.todo k hk).subset he)
    have hset : {j | j ∈ t.cancelingTimers} = {j | j ∈ s.cancelingTimers} := Set.ext hc
    simp only [Option.map_some, Option.some.injEq, Round.mk.injEq, true_and]
    exact ⟨List.map_congr_left fun e he => idAt_congr (hbatch e he),
      List.map_congr_left fun e he => idAt_congr (htodo e he), hset⟩

/-! ### The operations -/

theorem service_put (s : TimerQueue) (a : Nat) (x : Timer) : (s.put a x).service =
    s.service.arm ⟨a, x.sequence⟩ := by
  refine Service.ext rfl rfl rfl ?_ rfl rfl
  ext j
  exact SortedSet.mem_insert

theorem service_new (hs : TimerInv s) (hfree : s.heap a = none) (when : Int)
    (interval : Fin (2 ^ 63)) (repeat_ : Bool) : (s.new a when interval repeat_).service =
      s.service.create ⟨a, s.numCreated + 1⟩ ⟨when, if repeat_ then some interval else none⟩ := by
  have haway : ∀ b ∈ s.batch ++ s.queued, b ≠ a := by
    rintro b hb rfl
    have := (hs.owned.apart b hb).1
    rw [hfree] at this
    cases this
  refine Service.ext rfl ?_ ?_ rfl ?_ ?_
  · ext j
    exact mem_created_new
  · funext j
    show (timerOf _ j).map _ = _
    by_cases hj : j.timer = a
    · by_cases hji : j = ⟨a, s.numCreated + 1⟩
      · subst hji
        have hx : (s.new a when interval repeat_).timerOf ⟨a, s.numCreated + 1⟩ =
            some ⟨when, interval, repeat_, s.numCreated + 1⟩ := timerOf_eq_some.mpr ⟨new_heap_self, rfl⟩
        rw [Service.create_alarms_self, hx]
        rfl
      · rw [Service.create_alarms_of_ne hji]
        have hne : s.numCreated + 1 ≠ j.sequence := by
          rintro hseq
          cases j
          simp_all
        show _ = (s.timerOf j).map Timer.alarm
        subst hj
        simp [timerOf, hfree, hne]
    · have hji : j ≠ ⟨a, s.numCreated + 1⟩ := fun h => hj (congrArg TimerId.timer h)
      rw [Service.create_alarms_of_ne hji, timerOf_congr (new_heap_of_ne hj)]
      rfl
  · exact inbox_congr rfl fun b hb => new_heap_of_ne (haway b (List.mem_append_right _ hb))
  · exact round_congr hs rfl (fun b hb => new_heap_of_ne (haway b (List.mem_append_left _ hb)))
      fun _ => Iff.rfl

theorem service_push (s : TimerQueue) (f : TimerTask) :
    { s with functors := s.functors.push f }.service = s.service.push (s.request f) := by
  refine Service.ext rfl rfl rfl rfl ?_ rfl
  show (s.functors.push f).queue.map s.request = _
  rw [Batched.queue_push, List.map_append]
  rfl

theorem service_tail {f : TimerTask} {fs : List TimerTask} (hr : s.functors.rest = f :: fs) :
    s.service.inbox = s.request f :: { s with functors := s.functors.tail }.service.inbox := by
  show s.functors.queue.map s.request = _
  rw [Batched.queue_of_rest hr, List.map_cons]
  rfl

theorem addTimerInLoop_later (h : Owned s.timers s.activeTimers s.heap (a :: away))
    (hx : s.heap a = some x) (drift : Nat) : ∃ c y, s.clock ≤ c ∧
      s.addTimerInLoop drift a = { s.put a x with clock := c, timerfd := y } := by
  rw [addTimerInLoop_eq h hx]
  split
  · refine ⟨s.clock + drift, _, ?_, rfl⟩
    omega
  · exact ⟨s.clock, s.timerfd, le_rfl, rfl⟩

theorem service_cancelInLoop (hs : TimerInv s) (id : TimerId) :
    (s.cancelInLoop id).service = s.service.drop id := by
  have hspec := cancelInLoop_spec hs id
  by_cases hi : id ∈ s.activeTimers
  · obtain ⟨x, hx, hseq, -⟩ := hs.owned.listed id hi
    have haway : ∀ b ∈ s.batch ++ s.queued, b ≠ id.timer := fun b hb he =>
      hs.owned.not_active hb hi he.symm
    rw [Service.drop_of_armed (show id ∈ s.service.armed from hi), cancelInLoop_active hs.owned hi hx]
    have hheap : ∀ b ≠ id.timer,
        (((s.take id x).drop id.timer x).emit (.cancelInLoop id)).heap b = s.heap b := fun b hb =>
      Function.update_of_ne hb _ _
    refine Service.ext rfl ?_ ?_ ?_ ?_ ?_
    · show {j | j ∈ created _} = {j | j ∈ created _}
      rw [created_emit rfl, ((quiet_take s id x).trans (quiet_drop _ id.timer x)).created]
    · funext j
      dsimp only
      show (timerOf _ j).map _ = _
      by_cases hj : j.timer = id.timer
      · have hnone : timerOf (((s.take id x).drop id.timer x).emit (.cancelInLoop id)) j = none := by
          have hgone := drop_heap_self (s := s.take id x) (a := id.timer) (t := x)
          rw [timerOf, hj]
          exact congrArg (Option.filter _) hgone
        rw [hnone]
        by_cases hji : j = id
        · rw [if_pos hji]
          rfl
        · -- the address stands for one id
          rw [if_neg hji]
          show _ = (s.timerOf j).map _
          have hne : x.sequence ≠ j.sequence := by
            intro he
            refine hji ?_
            cases j
            cases id
            simp_all
          simp [timerOf, hj, hx, hne]
      · rw [if_neg fun h => hj (congrArg TimerId.timer h), timerOf_congr (hheap _ hj)]
        rfl
    · ext j
      exact SortedSet.mem_erase.trans and_comm
    · exact inbox_congr rfl fun b hb => hheap b (haway b (List.mem_append_right _ hb))
    · exact round_congr hs rfl (fun b hb => hheap b (haway b (List.mem_append_left _ hb)))
        fun _ => Iff.rfl
  · rw [Service.drop_of_not_armed (show id ∉ s.service.armed from hi),
      cancelInLoop_of_not_mem hs.owned.size hi]
    refine Service.ext rfl ?_ rfl rfl rfl ?_
    · show {j | j ∈ created _} = {j | j ∈ created _}
      rw [created_emit rfl]
      rfl
    · show s.handling.map _ = (s.handling.map _).map _
      rw [Option.map_map]
      cases hh : s.handling with
      | none => rfl
      | some k =>
        have hcall : s.callingExpiredTimers = true := by
          rw [hs.calling, hh]
          rfl
        refine congrArg some (congrArg (Round.mk _ _ _) ?_)
        rw [hcall, if_pos rfl]
        ext j
        exact SortedSet.mem_insert

/-! ### A pass -/

/-- The timers in a list of entries are in memory, each once. -/
theorem nodup_idAt {es : List Entry} (hnd : (es.map Entry.timer).Nodup) :
    (es.map fun e => s.idAt e.timer).Nodup := by
  refine List.Nodup.of_map TimerId.timer ?_
  rw [List.map_map]
  exact hnd

theorem service_handleRead (hs : TimerInv s) (hn : s.handling = none) (delay : Nat) :
    Alarms.Step addTime s.service (s.label (.handleRead delay)) (s.handleRead delay).service := by
  have hlive := fun a x hx => (hs.mortal.live a x hx).1
  obtain ⟨active, heq, ho⟩ := handleRead_eq hs.owned hlive delay
  obtain ⟨_, hget, -⟩ := getExpired_eq hs.owned hlive s.clock
  have hdue := takesDue_of_owned (t := s.handleRead delay) hs ho (by rw [heq]) (by rw [heq])
  have hlabel : s.label (.handleRead delay) =
      .start ((s.timers.below (sentry s.clock)).map fun e => s.idAt e.timer) := by
    rw [label, hget]
  have hentry : ∀ e ∈ s.timers.below (sentry s.clock), ∃ x, s.heap e.timer = some x ∧
      x.expiration = e.when ∧ ⟨e.timer, x.sequence⟩ ∈ s.activeTimers := fun e he =>
    hs.owned.entry e ((hdue.due e).mp he).1
  have hmem : ∀ j, j ∈ ((s.timers.below (sentry s.clock)).map fun e => s.idAt e.timer) ↔
      j ∈ s.activeTimers ∧ ∃ x, s.heap j.timer = some x ∧ x.expiration ≤ s.clock := by
    intro j
    rw [List.mem_map]
    constructor
    · rintro ⟨e, he, rfl⟩
      obtain ⟨x, hx, hw, hm⟩ := hentry e he
      rw [idAt_of hx]
      exact ⟨hm, x, hx, hw ▸ ((hdue.due e).mp he).2⟩
    · rintro ⟨hj, x, hx, hle⟩
      obtain ⟨y, hy, hseq, hm⟩ := hs.owned.listed j hj
      obtain rfl := Option.some.inj (hx.symm.trans hy)
      refine ⟨⟨x.expiration, j.timer⟩, (hdue.due _).mpr ⟨hm, hle⟩, ?_⟩
      rw [idAt_of hx, hseq]
  have hstart : (s.handleRead delay).service = { s.service.start
      ((s.timers.below (sentry s.clock)).map fun e => s.idAt e.timer) with
        clock := s.clock + delay } := by
    rw [heq]
    refine Service.ext rfl rfl rfl ?_ rfl ?_
    · ext j
      show j ∈ active ↔ j ∈ s.activeTimers ∧ ¬ j ∈ (List.map _ _)
      have hactive := hdue.activeTimers j
      rw [heq] at hactive
      rw [hactive, hmem]
      refine and_congr_right fun hj => ?_
      obtain ⟨x, hx, -, -⟩ := hs.owned.listed j hj
      simp [hj, hx]
    · exact congrArg some (congrArg (Round.mk _ _ _) (Set.ext fun j => by simp))
  rw [hlabel, hstart]
  refine .start _ _ (by simp [service, hn]) ?_ ?_ ?_ (show s.clock ≤ s.clock + delay by omega)
  · refine nodup_idAt ?_
    have hnd := ho.nodup
    exact (List.nodup_append.mp hnd).1
  · intro j
    rw [hmem]
    refine and_congr_right fun hj => ?_
    obtain ⟨x, hx, hseq, -⟩ := hs.owned.listed j hj
    have hal : s.service.alarms j = some x.alarm := by
      show (s.timerOf j).map _ = _
      rw [timerOf_eq_some.mpr ⟨hx, hseq⟩]
      rfl
    rw [hal]
    simp only [hx, Option.some.injEq, exists_eq_left']
    exact Iff.rfl
  · -- ascending expirations
    rw [List.pairwise_map]
    refine hdue.order.imp_of_mem ?_
    intro d e hd he hde b c hb hc
    obtain ⟨x, hx, hxw, -⟩ := hentry d hd
    obtain ⟨y, hy, hyw, -⟩ := hentry e he
    change (s.timerOf _).map _ = _ at hb hc
    rw [timerOf_idAt, hx] at hb
    rw [timerOf_idAt, hy] at hc
    obtain rfl := Option.some.inj hb
    obtain rfl := Option.some.inj hc
    show x.expiration ≤ y.expiration
    rw [hxw, hyw]
    rcases Entry.le_iff.mp hde.le with h | h
    · exact h.le
    · exact h.1.le

/-- The loop of `reset` after the timers `done`. -/
structure Settling (s : TimerQueue) (now : Int) (done : List Entry) (u : TimerQueue) : Prop where
  quiet : Quiet s u
  handling : u.handling = s.handling
  clock : u.clock = s.clock
  canceling : u.cancelingTimers = s.cancelingTimers
  other : ∀ b, b ∉ done.map Entry.timer → u.heap b = s.heap b
  settled : ∀ b ∈ done.map Entry.timer, ∀ x, s.heap b = some x →
    u.heap b = if x.repeat_ = true ∧ ⟨b, x.sequence⟩ ∉ s.cancelingTimers then some (x.restart now)
      else none
  active : ∀ j, j ∈ u.activeTimers ↔ j ∈ s.activeTimers ∨ j.timer ∈ done.map Entry.timer ∧
    ∃ x, u.heap j.timer = some x ∧ x.sequence = j.sequence

theorem Settling.settle {now : Int} {done rest : List Entry} {e : Entry}
    (h : Settling s now done u) (hnd : ((done ++ e :: rest).map Entry.timer).Nodup)
    (ho : Owned u.timers u.activeTimers u.heap (e.timer :: away)) (hx : u.heap e.timer = some x) :
    Settling s now (done ++ [e]) (u.settle now e.timer x) := by
  have hne := timer_ne_of_nodup hnd
  have hnew : e.timer ∉ done.map Entry.timer := by
    intro hm
    obtain ⟨d, hd, hde⟩ := List.mem_map.mp hm
    exact hne d (List.mem_append_left _ hd) hde
  have hmem : ∀ b, b ∈ (done ++ [e]).map Entry.timer ↔ b ∈ done.map Entry.timer ∨ b = e.timer := by
    simp
  have hself : (u.settle now e.timer x).heap e.timer =
      if x.repeat_ = true ∧ ⟨e.timer, x.sequence⟩ ∉ u.cancelingTimers then some (x.restart now)
      else none := by
    unfold TimerQueue.settle
    split
    · exact Function.update_self _ _ _
    · exact drop_heap_self
  have hact : ∀ j, j ∈ (u.settle now e.timer x).activeTimers ↔ j ∈ u.activeTimers ∨
      (x.repeat_ = true ∧ ⟨e.timer, x.sequence⟩ ∉ u.cancelingTimers) ∧ j = ⟨e.timer, x.sequence⟩ := by
    intro j
    unfold TimerQueue.settle
    split
    · next hp =>
      show j ∈ (SortedSet.insert _ _).1 ↔ _
      rw [SortedSet.mem_insert, x.restart_sequence, or_comm]
      exact or_congr Iff.rfl (and_iff_right hp).symm
    · next hp => exact (or_iff_left fun hq => hp hq.1).symm
  have hrest : (u.settle now e.timer x).handling = u.handling ∧
      (u.settle now e.timer x).clock = u.clock := by
    unfold TimerQueue.settle
    split
    · exact ⟨rfl, rfl⟩
    · exact ⟨rfl, rfl⟩
  refine ⟨h.quiet.trans (quiet_settle u now hx), hrest.1.trans h.handling, hrest.2.trans h.clock,
    (settle_cancelingTimers u now x).trans h.canceling, ?_, ?_, ?_⟩
  · intro b hb
    rw [hmem, not_or] at hb
    exact (settle_heap_of_ne u now x hb.2).trans (h.other b hb.1)
  · intro b hb y hy
    rcases (hmem b).mp hb with hb | rfl
    · have hbe : b ≠ e.timer := fun he => hnew (he ▸ hb)
      exact (settle_heap_of_ne u now x hbe).trans (h.settled b hb y hy)
    · rw [← h.other _ hnew, hx] at hy
      obtain rfl := Option.some.inj hy
      rw [hself, h.canceling]
  · intro j
    rw [hmem, hact, h.active]
    by_cases hj : j.timer = e.timer
    · have hna : ¬ (j ∈ s.activeTimers ∨ j.timer ∈ done.map Entry.timer ∧
          ∃ y, u.heap j.timer = some y ∧ y.sequence = j.sequence) := fun hm =>
        ho.not_active List.mem_cons_self ((h.active j).mpr hm) hj
      rw [or_iff_right hna, or_iff_right fun hm => hna (Or.inl hm), and_iff_right (Or.inr hj), hj, hself]
      constructor
      · rintro ⟨hp, rfl⟩
        exact ⟨x.restart now, if_pos hp, x.restart_sequence now⟩
      · rintro ⟨y, hy, hseq⟩
        by_cases hp : x.repeat_ = true ∧ ⟨e.timer, x.sequence⟩ ∉ u.cancelingTimers
        · rw [if_pos hp] at hy
          obtain rfl := Option.some.inj hy
          rw [x.restart_sequence] at hseq
          exact ⟨hp, by rw [hseq, ← hj]⟩
        · rw [if_neg hp] at hy
          cases hy
    · have hj' : j ≠ ⟨e.timer, x.sequence⟩ := fun he => hj (congrArg TimerId.timer he)
      rw [settle_heap_of_ne u now x hj]
      simp [hj, hj']

theorem settling_reset {now : Int} {expired : List Entry} (h : TimerInv s)
    (hh : s.handling = some ⟨now, expired, []⟩) (drift : Nat) :
    ∃ u c y, Settling s now expired u ∧ s.clock ≤ c ∧
      { s with callingExpiredTimers := false }.reset drift expired now =
        { u with clock := c, timerfd := y } := by
  have ho := h.owned_batch hh
  have hnd : (expired.map Entry.timer).Nodup := (List.nodup_append.mp ho.nodup).1
  obtain ⟨hown, done, hdone, hs⟩ := foldl_resetOne now
    (I := fun rest u => ∃ done, done ++ rest = expired ∧ Settling s now done u)
    (fun e rest u x ho hx hu => by
      obtain ⟨done, hdone, hs⟩ := hu
      exact ⟨done ++ [e], by rw [List.append_assoc]; exact hdone, hs.settle (hdone ▸ hnd) ho hx⟩)
    (s := { s with callingExpiredTimers := false }) ho
    ⟨[], rfl, ⟨rfl, rfl, fun _ y hy => ⟨y, hy, rfl⟩, [], (List.append_nil _).symm, by simp⟩, rfl, rfl,
      rfl, fun _ _ => rfl, by simp, by simp⟩
  rw [List.append_nil] at hdone
  rw [hdone] at hs
  have hcases := reset_eq_or rfl hown drift
  generalize List.foldl _ _ _ = u at hs hcases
  rcases hcases with he | ⟨e, he⟩
  · exact ⟨u, u.clock, u.timerfd, hs, hs.clock.ge, he⟩
  · exact ⟨u, u.clock + drift, _, hs, by have := hs.clock; omega, he⟩

/-- The timers after the loop of `reset`. -/
theorem Settling.alarms {now : Int} {expired : List Entry} {r : Round TimerId Int}
    (h : Settling s now expired u) (hlive : ∀ b ∈ expired.map Entry.timer, ∃ x, s.heap b = some x)
    (hr : r = ⟨now, expired.map fun e => s.idAt e.timer, [], {j | j ∈ s.cancelingTimers}⟩)
    (j : TimerId) : u.service.alarms j = (s.service.finish addTime r).alarms j := by
  have hmem : j ∈ r.taken ↔ j.timer ∈ expired.map Entry.timer ∧
      ∃ x, s.heap j.timer = some x ∧ x.sequence = j.sequence := by
    rw [hr]
    constructor
    · intro hm
      obtain ⟨e, he, rfl⟩ := List.mem_map.mp hm
      have hem := List.mem_map_of_mem (f := Entry.timer) he
      obtain ⟨x, hx⟩ := hlive _ hem
      rw [idAt_of hx]
      exact ⟨hem, x, hx, rfl⟩
    · rintro ⟨hm, x, hx, hseq⟩
      obtain ⟨e, he, hej⟩ := List.mem_map.mp hm
      refine List.mem_map.mpr ⟨e, he, ?_⟩
      rw [hej, idAt_of hx, hseq]
  show (u.timerOf j).map _ = _
  by_cases hj : j ∈ r.taken
  · obtain ⟨hm, x, hx, hseq⟩ := hmem.mp hj
    have hset := h.settled _ hm x hx
    have hj' : (⟨j.timer, x.sequence⟩ : TimerId) = j := by rw [hseq]
    rw [hj'] at hset
    rw [Service.finish_alarms_of_mem hj]
    show _ = ((s.timerOf j).map _).bind _
    rw [timerOf_eq_some.mpr ⟨hx, hseq⟩, timerOf, hset]
    subst hr
    by_cases hre : x.repeat_ = true
    · by_cases hc : j ∈ s.cancelingTimers
      · simp [Timer.alarm, Service.again, hre, hc]
      · simp [Timer.alarm, Service.again, hre, hc, hseq, Timer.restart]
    · simp [Timer.alarm, Service.again, hre]
  · rw [Service.finish_alarms_of_not_mem hj]
    show _ = (s.timerOf j).map _
    by_cases hm : j.timer ∈ expired.map Entry.timer
    · -- another timer is at the address
      obtain ⟨x, hx⟩ := hlive _ hm
      have hne : x.sequence ≠ j.sequence := fun he => hj (hmem.mpr ⟨hm, x, hx, he⟩)
      have hset := h.settled _ hm x hx
      rw [timerOf_of_ne hx hne]
      split at hset
      · rw [timerOf_of_ne hset (by rwa [x.restart_sequence])]
      · rw [timerOf, hset]
        rfl
    · rw [timerOf_congr (h.other _ hm)]

theorem service_reset {now : Int} {expired : List Entry} (hs : TimerInv s)
    (hh : s.handling = some ⟨now, expired, []⟩) (drift : Nat) :
    Alarms.Step addTime s.service .finish
      ({ { s with callingExpiredTimers := false }.reset drift expired now with
        handling := none } : TimerQueue).service := by
  obtain ⟨u, c, y, hset, hc, heq⟩ := settling_reset hs hh drift
  have ho := hs.owned_batch hh
  have hlive : ∀ b ∈ expired.map Entry.timer, ∃ x, s.heap b = some x := fun b hb =>
    Option.isSome_iff_exists.mp (ho.apart b (List.mem_append_left _ hb)).1
  have hround : s.service.round =
      some ⟨now, expired.map fun e => s.idAt e.timer, [], {j | j ∈ s.cancelingTimers}⟩ := by
    show s.handling.map _ = _
    rw [hh]
    rfl
  have halarms := hset.alarms hlive rfl
  have hfinish : ({ { u with clock := c, timerfd := y } with handling := none } : TimerQueue).service =
      { s.service.finish addTime
          ⟨now, expired.map fun e => s.idAt e.timer, [], {j | j ∈ s.cancelingTimers}⟩ with
        clock := c } := by
    refine Service.ext rfl ?_ (funext halarms) ?_ ?_ rfl
    · show {j | j ∈ u.created} = {j | j ∈ s.created}
      rw [hset.quiet.created]
    · ext j
      refine Iff.trans ?_ Service.mem_finish_armed.symm
      show j ∈ u.activeTimers ↔ j ∈ s.activeTimers ∨ j ∈ List.map _ _ ∧ _
      rw [hset.active, ← halarms j]
      refine or_congr Iff.rfl ?_
      have hsome : (u.service.alarms j).isSome ↔ ∃ x, u.heap j.timer = some x ∧
          x.sequence = j.sequence := by
        show ((u.timerOf j).map _).isSome ↔ _
        rw [Option.isSome_map, Option.isSome_iff_exists]
        exact exists_congr fun x => timerOf_eq_some
      rw [hsome]
      refine and_congr_left ?_
      rintro ⟨x, hx, hseq⟩
      constructor
      · intro hm
        obtain ⟨e, he, hej⟩ := List.mem_map.mp hm
        obtain ⟨z, hz⟩ := hlive _ hm
        have hzx : z.sequence = x.sequence := by
          have hx' := hset.settled _ hm z hz
          rw [hx] at hx'
          split at hx'
          · rw [Option.some.inj hx', z.restart_sequence]
          · cases hx'
        refine List.mem_map.mpr ⟨e, he, ?_⟩
        rw [hej, idAt_of hz, hzx, hseq]
      · intro hm
        obtain ⟨e, he, rfl⟩ := List.mem_map.mp hm
        exact List.mem_map_of_mem he
    · refine (inbox_congr (t := u) hset.quiet.functors fun b hb => hset.other b fun hm => ?_)
      exact (List.nodup_append.mp ho.nodup).2.2 b hm b hb rfl
  rw [heq, hfinish]
  exact .finish _ c hround rfl hc

/-! ### Runs -/

/-- **One step of a timer queue is a step of its service.** -/
theorem service_step {c : Act} (hs : TimerInv s) (hn : Named s) (hst : Stepped s c t) :
    Alarms.Step addTime s.service (s.label c) t.service := by
  cases hst with
  | addTimer a when interval repeat_ drift hfree hmax =>
    have hx : (s.new a when interval repeat_).heap a =
        some ⟨when, interval, repeat_, s.numCreated + 1⟩ := new_heap_self
    obtain ⟨c, y, hc, heq⟩ := addTimerInLoop_later (hs.owned.new hfree) hx drift
    rw [heq]
    have hset : Alarms.Step addTime s.service (.set _ _) _ := .set ⟨a, s.numCreated + 1⟩
      ⟨when, if repeat_ then some interval else none⟩ c hn.fresh hc
    rw [← service_new hs hfree, ← service_put _ _ ⟨when, interval, repeat_, s.numCreated + 1⟩] at hset
    exact hset
  | queueAdd a when interval repeat_ drift hfree hmax =>
    have hask : Alarms.Step addTime s.service (.ask _ _) _ := .ask ⟨a, s.numCreated + 1⟩
      ⟨when, if repeat_ then some interval else none⟩ hn.fresh
    have hreq : (s.new a when interval repeat_).request (.addTimerInLoop a) =
        .set ⟨a, s.numCreated + 1⟩ := congrArg Request.set (idAt_of new_heap_self)
    rw [← service_new hs hfree, ← hreq, ← service_push] at hask
    exact hask
  | cancel id =>
    rw [service_cancelInLoop hs id]
    exact .cancel id
  | queueCancel id =>
    rw [service_push]
    exact .askCancel id
  | doPendingFunctors hr =>
    have heq : { s with functors := s.functors.swap }.service = { s.service with clock := s.clock } := by
      refine Service.ext rfl rfl rfl rfl ?_ rfl
      show s.functors.swap.queue.map s.request = _
      rw [Batched.queue_swap hr]
      rfl
    rw [heq]
    exact .idle s.clock le_rfl
  | runAdd a fs drift hr hh =>
    obtain ⟨ho, x, hx⟩ := hs.owned_next hh hr
    obtain ⟨c, y, hc, heq⟩ :=
      addTimerInLoop_later (s := { s with functors := s.functors.tail }) ho hx drift
    have hlabel : s.label (.runFunctor drift) = .answer (.set ⟨a, x.sequence⟩) := by
      rw [label, hr, ← idAt_of hx]
      rfl
    have hinbox := service_tail hr
    rw [request, idAt_of hx] at hinbox
    have hanswer : Alarms.Step addTime s.service (.answer _) _ :=
      .answer _ _ c hinbox (by simp [service, hh]) hc
    have hput := service_put { s with functors := s.functors.tail } a x
    rw [hlabel, heq]
    exact (congrArg (fun v : Service TimerId Int (Fin (2 ^ 63)) =>
      Alarms.Step addTime s.service _ { v with clock := c }) hput).mpr hanswer
  | runCancel id fs drift hr hh =>
    have hlabel : s.label (.runFunctor drift) = .answer (.cancel id) := by
      rw [label, hr]
      rfl
    have hanswer : Alarms.Step addTime s.service (.answer _) _ :=
      .answer _ _ _ (service_tail hr) (by simp [service, hh])
        (Service.drop_clock { s with functors := s.functors.tail }.service id).ge
    rw [hlabel, service_cancelInLoop (timerInv_tail hs hr rfl) id]
    exact hanswer
  | handleRead delay hh => exact service_handleRead hs hh delay
  | runTimer now expired e todo hh =>
    obtain ⟨x, hx⟩ := hs.next_timer hh
    have hlabel : s.label .runTimer = .fire (s.idAt e.timer) := by rw [label, hh]
    have hround : s.service.round = some ⟨now, expired.map fun e => s.idAt e.timer,
        s.idAt e.timer :: todo.map fun e => s.idAt e.timer, {j | j ∈ s.cancelingTimers}⟩ := by
      show s.handling.map _ = _
      rw [hh]
      rfl
    have hfire : Alarms.Step addTime s.service (.fire _) _ := .fire _ _ _ hround rfl
    have hserv : ({ s.emit (.run ⟨e.timer, x.sequence⟩) with
        handling := some ⟨now, expired, todo⟩ } : TimerQueue).service = { s.service with
          round := some ⟨now, expired.map fun e => s.idAt e.timer, todo.map fun e => s.idAt e.timer,
            {j | j ∈ s.cancelingTimers}⟩ } := by
      refine Service.ext rfl ?_ rfl rfl rfl rfl
      show {j | j ∈ (s.emit _).created} = {j | j ∈ s.created}
      rw [created_emit rfl]
    rw [hlabel, deref_of hx, hserv]
    exact hfire
  | reset now expired drift hh => exact service_reset hs hh drift
  | tick n => exact .idle (s.clock + n) (show s.clock ≤ s.clock + n by omega)

/-- The events of a step are those of its label, and deletes. -/
def Shows (es : List TimerEvent) (l : Label TimerId Int (Fin (2 ^ 63))) : Prop :=
  es.filterMap TimerEvent.ran = l.fired.toList ∧
  es.filterMap TimerEvent.created = (l.created.map Prod.fst).toList ∧
  es.filterMap TimerEvent.cancelled = l.cancelled.toList

theorem shows_nil_of_deletes {es : List TimerEvent} (h : ∀ e ∈ es, ∃ j, e = .delete j)
    {l : Label TimerId Int (Fin (2 ^ 63))} (hf : l.fired = none) (hc : l.created = none)
    (hk : l.cancelled = none) : Shows es l := by
  have hnone : ∀ {f : TimerEvent → Option TimerId}, (∀ j, f (.delete j) = none) →
      es.filterMap f = [] := by
    intro f hd
    rw [List.filterMap_eq_nil_iff]
    intro e he
    obtain ⟨j, rfl⟩ := h e he
    exact hd j
  refine ⟨?_, ?_, ?_⟩
  · rw [hf, hnone fun _ => rfl]
    rfl
  · rw [hc, hnone fun _ => rfl]
    rfl
  · rw [hk, hnone fun _ => rfl]
    rfl

theorem shows_cancelInLoop (hs : TimerInv s) (id : TimerId) {l : Label TimerId Int (Fin (2 ^ 63))}
    (hf : l.fired = none) (hc : l.created = none) (hk : l.cancelled = some id) :
    ∃ es, (s.cancelInLoop id).trace = s.trace ++ es ∧ Shows es l := by
  have hshows : ∀ ds : List TimerEvent, (∀ e ∈ ds, ∃ j, e = .delete j) →
      Shows (ds ++ [.cancelInLoop id]) l := by
    intro ds hds
    have hd := shows_nil_of_deletes hds (l := .idle) rfl rfl rfl
    refine ⟨?_, ?_, ?_⟩
    · rw [List.filterMap_append, hd.1, hf]
      rfl
    · rw [List.filterMap_append, hd.2.1, hc]
      rfl
    · rw [List.filterMap_append, hd.2.2, hk]
      rfl
  by_cases hi : id ∈ s.activeTimers
  · obtain ⟨x, hx, -, -⟩ := hs.owned.listed id hi
    rw [cancelInLoop_active hs.owned hi hx]
    refine ⟨[.delete ⟨id.timer, x.sequence⟩] ++ [.cancelInLoop id], ?_, hshows _ (by simp)⟩
    exact List.append_assoc _ _ _
  · rw [cancelInLoop_of_not_mem hs.owned.size hi]
    exact ⟨[] ++ [.cancelInLoop id], rfl, hshows [] (by simp)⟩

theorem shows_stepped {c : Act} (hs : TimerInv s) (hst : Stepped s c t) :
    ∃ es, t.trace = s.trace ++ es ∧ Shows es (s.label c) := by
  have hquiet : ∀ {l : Label TimerId Int (Fin (2 ^ 63))}, t.trace = s.trace → l.fired = none →
      l.created = none → l.cancelled = none → ∃ es, t.trace = s.trace ++ es ∧ Shows es l :=
    fun ht hf hc hk => ⟨[], by rw [ht, List.append_nil], shows_nil_of_deletes (by simp) hf hc hk⟩
  cases hst with
  | addTimer a when interval repeat_ drift hfree hmax =>
    have hx : (s.new a when interval repeat_).heap a =
        some ⟨when, interval, repeat_, s.numCreated + 1⟩ := new_heap_self
    obtain ⟨c, y, -, heq⟩ := addTimerInLoop_later (hs.owned.new hfree) hx drift
    rw [heq]
    exact ⟨[.addTimer ⟨a, s.numCreated + 1⟩], rfl, rfl, rfl, rfl⟩
  | queueAdd a when interval repeat_ drift hfree hmax =>
    exact ⟨[.addTimer ⟨a, s.numCreated + 1⟩], rfl, rfl, rfl, rfl⟩
  | cancel id => exact shows_cancelInLoop hs id rfl rfl rfl
  | queueCancel id => exact hquiet rfl rfl rfl rfl
  | doPendingFunctors hr => exact hquiet rfl rfl rfl rfl
  | runAdd a fs drift hr hh =>
    obtain ⟨ho, x, hx⟩ := hs.owned_next hh hr
    obtain ⟨c, y, -, heq⟩ :=
      addTimerInLoop_later (s := { s with functors := s.functors.tail }) ho hx drift
    rw [label, hr]
    exact hquiet (by rw [heq]; rfl) rfl rfl rfl
  | runCancel id fs drift hr hh =>
    rw [label, hr]
    exact shows_cancelInLoop (timerInv_tail hs hr rfl) id rfl rfl rfl
  | handleRead delay hh =>
    obtain ⟨active, heq, -⟩ := handleRead_eq hs.owned (fun a x hx => (hs.mortal.live a x hx).1) delay
    exact hquiet (by rw [heq]) rfl rfl rfl
  | runTimer now expired e todo hh =>
    obtain ⟨x, hx⟩ := hs.next_timer hh
    rw [deref_of hx, label, hh]
    refine ⟨[.run ⟨e.timer, x.sequence⟩], rfl, ?_, rfl, rfl⟩
    simp only [idAt_of hx]
    rfl
  | reset now expired drift hh =>
    obtain ⟨u, c, y, hset, -, heq⟩ := settling_reset hs hh drift
    obtain ⟨es, ht, hes⟩ := hset.quiet.trace
    exact ⟨es, by rw [heq]; exact ht, shows_nil_of_deletes hes rfl rfl rfl⟩
  | tick n => exact hquiet rfl rfl rfl rfl

theorem service_init (clock : Int) : (init clock).service = Service.init clock := by
  refine Service.ext rfl ?_ rfl ?_ rfl rfl
  · ext j
    simp [service, created, init, Service.init]
  · ext j
    simp [service, init, Service.init]

/-- What a run shows of its timers is what the labels of its steps say. -/
theorem observed_from {f : TimerEvent → Option TimerId}
    {g : Label TimerId Int (Fin (2 ^ 63)) → Option TimerId} (hs : TimerInv s)
    (hfg : ∀ es l, Shows es l → es.filterMap f = (g l).toList) {as : List Act}
    (hrun : Steps.run step s as = some t) :
    t.trace.filterMap f = s.trace.filterMap f ++ (labels s as).filterMap g := by
  refine Steps.observed_run (I := TimerInv) (μ := fun s => s.trace.filterMap f)
    (fun s c t hs hst => timerInv_stepped hs (step_stepped hst)) ?_ hs hrun
  intro s c t hs hst
  obtain ⟨es, ht, hes⟩ := shows_stepped hs (step_stepped hst)
  rw [ht, List.filterMap_append, hfg es _ hes]

theorem refines_from {as : List Act} (h : TimerInv s ∧ Named s)
    (hrun : Steps.run step s as = some t) :
    (TimerInv t ∧ Named t) ∧
      Steps.Runs (Alarms.Step addTime) s.service (labels s as) t.service := by
  have hinv : ∀ s c u, TimerInv s ∧ Named s → step s c = some u → TimerInv u ∧ Named u := by
    rintro s c u ⟨hs, hn⟩ hst
    exact ⟨timerInv_stepped hs (step_stepped hst), hn.stepped hs (step_stepped hst)⟩
  refine ⟨Steps.run_invariant hinv h hrun, Steps.runs_of_run hinv ?_ h hrun⟩
  rintro s c u ⟨hs, hn⟩ hst
  exact service_step hs hn (step_stepped hst)

theorem service_run {clock : Int} {as : List Act} (hrun : Steps.run step (init clock) as = some t) :
    Steps.Runs (Alarms.Step addTime) (Service.init clock) (labels (init clock) as) t.service := by
  have hnamed := named_run (show Steps.run step (init clock) [] = some (init clock) from rfl)
  rw [← service_init]
  exact (refines_from hnamed hrun).2

theorem ran_run {clock : Int} {as : List Act} (hrun : Steps.run step (init clock) as = some t) :
    t.trace.filterMap TimerEvent.ran = (labels (init clock) as).filterMap Label.fired :=
  observed_from (timerInv_init clock) (fun _ _ h => h.1) hrun

theorem cancelled_run {clock : Int} {as : List Act} (hrun : Steps.run step (init clock) as = some t) :
    t.trace.filterMap TimerEvent.cancelled = (labels (init clock) as).filterMap Label.cancelled :=
  observed_from (timerInv_init clock) (fun _ _ h => h.2.2) hrun

/-- **A timer queue refines the service of alarms**, and shows what the service does. -/
theorem refines {clock : Int} {as : List Act} (hrun : Steps.run step (init clock) as = some t) :
    Steps.Runs (Alarms.Step addTime) (Service.init clock) (labels (init clock) as) t.service ∧
    t.trace.filterMap TimerEvent.ran = (labels (init clock) as).filterMap Label.fired ∧
    t.created = (labels (init clock) as).filterMap (fun l => l.created.map Prod.fst) ∧
    t.trace.filterMap TimerEvent.cancelled = (labels (init clock) as).filterMap Label.cancelled :=
  ⟨service_run hrun, ran_run hrun,
    observed_from (timerInv_init clock) (fun _ _ h => h.2.1) hrun, cancelled_run hrun⟩

theorem refines_cancelsItself : ∃ t, Steps.run step (init 10) cancelsItself = some t ∧
    (labels (init 10) cancelsItself).filterMap Label.fired = [⟨8, 1⟩, ⟨16, 2⟩] ∧
    t.trace.filterMap TimerEvent.ran = [⟨8, 1⟩, ⟨16, 2⟩] ∧
    Steps.Runs (Alarms.Step addTime) (Service.init 10) (labels (init 10) cancelsItself) t.service := by
  have hobs : (Steps.run step (init 10) cancelsItself).any (fun t =>
      decide (t.trace.filterMap TimerEvent.ran = [⟨8, 1⟩, ⟨16, 2⟩])) = true := by decide
  obtain ⟨t, ht, hobs⟩ := (Option.any_eq_true _ _).mp hobs
  obtain ⟨hruns, hran, -, -⟩ := refines ht
  exact ⟨t, ht, hran ▸ of_decide_eq_true hobs, of_decide_eq_true hobs, hruns⟩

end

end TimerQueue

end SimpleNet
