import SimpleNet.Timer.Sets

/-!
# One pass over the expired timers

`one_pass`: from any consistent state a pass of `handleRead` takes the timers that are due out of
both sets, in the order of the set; runs the callbacks of these in this order and no other
callback, whatever the callbacks add and cancel; and puts back those that repeat and were not
cancelled meanwhile, with `interval` from `now`, and deletes the others.

`InPass` is what the callbacks keep until `reset`: the timers of the batch stay as they are, and
`cancelingTimers_` holds those of them that were cancelled.
-/

namespace SimpleNet

open Function (update)

/-- The timer whose callback is called. -/
def TimerEvent.ran : TimerEvent → Option TimerId
  | .run id => some id
  | _ => none

theorem int64_of_mem {i : Int} (hl : -2 ^ 63 ≤ i) (hu : i < 2 ^ 63) : int64 i = i := by
  unfold int64
  refine Int.bmod_eq_of_le ?_ ?_ <;> omega

namespace TimerQueue

/-- The id of the timer of an entry. -/
def idOf (s : TimerQueue) (e : Entry) : Option TimerId :=
  (s.heap e.timer).map fun x => ⟨e.timer, x.sequence⟩

/-- What `getExpired(now)` takes from `s`, and what it leaves in `t`. -/
structure TakesDue (s : TimerQueue) (now : Int) (expired : List Entry) (t : TimerQueue) : Prop where
  /-- in ascending order of expiration and address -/
  order : expired.Pairwise (· < ·)
  due : ∀ e, e ∈ expired ↔ e ∈ s.timers ∧ e.when ≤ now
  timers : ∀ e, e ∈ t.timers ↔ e ∈ s.timers ∧ now < e.when
  activeTimers : ∀ i, i ∈ t.activeTimers ↔ i ∈ s.activeTimers ∧
    ∃ x, s.heap i.timer = some x ∧ now < x.expiration

/-- The timer `x` at the address `a` is in both sets. -/
structure Present (s : TimerQueue) (a : Nat) (x : Timer) : Prop where
  heap : s.heap a = some x
  timers : ⟨x.expiration, a⟩ ∈ s.timers
  activeTimers : ⟨a, x.sequence⟩ ∈ s.activeTimers

/-- The timer is deleted, and in neither set. -/
structure Gone (s : TimerQueue) (id : TimerId) : Prop where
  heap : s.heap id.timer = none
  timers : ∀ e ∈ s.timers, e.timer ≠ id.timer
  activeTimers : ∀ i ∈ s.activeTimers, i.timer ≠ id.timer
  delete : .delete id ∈ s.trace

/-- A pass that starts in `s`, takes the timers `expired`, and ends in `t` after the events `es`. -/
structure OnePass (s : TimerQueue) (expired : List Entry) (es : List TimerEvent) (t : TimerQueue) :
    Prop where
  trace : t.trace = s.trace ++ es
  /-- the callbacks of the batch run, each of them once and in order, and no others -/
  ran : (es.filterMap TimerEvent.ran).map some = expired.map s.idOf
  once : (es.filterMap TimerEvent.ran).Nodup
  /-- a repeating timer that was not cancelled is put back -/
  again : ∀ e ∈ expired, ∀ x, s.heap e.timer = some x → x.repeat_ = true →
    .cancelInLoop ⟨e.timer, x.sequence⟩ ∉ es →
      Present t e.timer { x with expiration := addTime s.clock x.interval }
  /-- any other one is deleted -/
  gone : ∀ e ∈ expired, ∀ x, s.heap e.timer = some x →
    x.repeat_ = false ∨ .cancelInLoop ⟨e.timer, x.sequence⟩ ∈ es → Gone t ⟨e.timer, x.sequence⟩

section

variable {s t u : TimerQueue} {a : Nat} {away : List Nat}

theorem lt_sentry_iff {now : Int} {e : Entry} (h : e.timer < UINTPTR_MAX) :
    e < sentry now ↔ e.when ≤ now := by
  rw [← not_le, Entry.le_iff]
  have hne : ¬ UINTPTR_MAX ≤ e.timer := Nat.not_le.mpr h
  simp only [sentry, hne, and_false, or_false, not_lt]

/-- The two sets without the timers that are due. -/
theorem takesDue_of_owned (h : TimerInv s) {now : Int} {active : SortedSet TimerId}
    (ho : Owned (s.timers.upper (sentry now)) active s.heap away)
    (ht : t.timers = s.timers.upper (sentry now)) (ha : t.activeTimers = active) :
    TakesDue s now (s.timers.below (sentry now)) t := by
  subst ha
  have hlive : ∀ e ∈ s.timers, e.timer < UINTPTR_MAX := by
    intro e he
    obtain ⟨x, hx, -, -⟩ := h.owned.entry e he
    exact (h.mortal.live e.timer x hx).1
  have htimers : ∀ e, e ∈ s.timers.upper (sentry now) ↔ e ∈ s.timers ∧ now < e.when := by
    intro e
    rw [SortedSet.mem_upper]
    refine and_congr_right fun he => ?_
    rw [← not_lt, lt_sentry_iff (hlive e he), not_le]
  refine ⟨s.timers.sorted.pairwise.filter _, ?_, fun e => ht ▸ htimers e, ?_⟩
  · intro e
    rw [SortedSet.mem_below]
    exact and_congr_right fun he => lt_sentry_iff (hlive e he)
  · intro i
    constructor
    · intro hi
      obtain ⟨x, hx, hseq, hm⟩ := ho.listed i hi
      obtain ⟨hm, hlt⟩ := (htimers _).mp hm
      obtain ⟨y, hy, -, hact⟩ := h.owned.entry _ hm
      obtain rfl := Option.some.inj (hx.symm.trans hy)
      rw [hseq] at hact
      exact ⟨hact, x, hx, hlt⟩
    · rintro ⟨hi, x, hx, hlt⟩
      obtain ⟨y, hy, hseq, hm⟩ := h.owned.listed i hi
      obtain rfl := Option.some.inj (hx.symm.trans hy)
      obtain ⟨z, hz, -, hact⟩ := ho.entry _ ((htimers _).mpr ⟨hm, hlt⟩)
      obtain rfl := Option.some.inj (hx.symm.trans hz)
      rw [hseq] at hact
      exact hact

theorem takesDue_getExpired (h : TimerInv s) (now : Int) :
    TakesDue s now (s.getExpired now).2 (s.getExpired now).1 := by
  obtain ⟨active, heq, ho⟩ := getExpired_eq h.owned (fun a x hx => (h.mortal.live a x hx).1) now
  rw [heq]
  exact takesDue_of_owned h ho rfl rfl

/-! ### The callbacks -/

/-- A pass that has started in `s` and taken `expired`, after the events `es`. -/
structure InPass (s : TimerQueue) (now : Int) (expired : List Entry) (es : List TimerEvent)
    (u : TimerQueue) : Prop where
  todo : ∃ todo, u.handling = some ⟨now, expired, todo⟩ ∧
    (es.filterMap TimerEvent.ran).map some ++ todo.map s.idOf = expired.map s.idOf
  heap : ∀ e ∈ expired, u.heap e.timer = s.heap e.timer
  trace : u.trace = s.trace ++ es
  canceling : ∀ e ∈ expired, ∀ x, s.heap e.timer = some x →
    (⟨e.timer, x.sequence⟩ ∈ u.cancelingTimers ↔ .cancelInLoop ⟨e.timer, x.sequence⟩ ∈ es)

variable {now : Int} {expired : List Entry} {es ds : List TimerEvent} {v : TimerQueue} {drift : Nat}

/-- No callback of the batch is called, and no timer of the batch is deleted. -/
theorem InPass.quiet (h : InPass s now expired es u) (hh : v.handling = u.handling)
    (hheap : ∀ e ∈ expired, v.heap e.timer = u.heap e.timer) (ht : v.trace = u.trace ++ ds)
    (hran : ds.filterMap TimerEvent.ran = [])
    (hc : ∀ e ∈ expired, ∀ n, ⟨e.timer, n⟩ ∈ v.cancelingTimers ↔
      ⟨e.timer, n⟩ ∈ u.cancelingTimers ∨ .cancelInLoop ⟨e.timer, n⟩ ∈ ds) :
    InPass s now expired (es ++ ds) v where
  todo := by
    obtain ⟨todo, htodo, hrun⟩ := h.todo
    refine ⟨todo, hh.trans htodo, ?_⟩
    rw [List.filterMap_append, hran, List.append_nil]
    exact hrun
  heap e he := (hheap e he).trans (h.heap e he)
  trace := by rw [ht, h.trace, List.append_assoc]
  canceling e he x hx := by
    rw [hc e he, h.canceling e he x hx]
    exact List.mem_append.symm

/-- A timer of the batch is in memory, and in neither set. -/
theorem InPass.batch (h : InPass s now expired es u) (hu : TimerInv u) :
    ∀ e ∈ expired, (u.heap e.timer).isSome ∧ ∀ i ∈ u.activeTimers, i.timer ≠ e.timer := by
  intro e he
  obtain ⟨todo, htodo, -⟩ := h.todo
  have hm : e.timer ∈ u.batch ++ u.queued := by
    rw [TimerQueue.batch, htodo]
    exact List.mem_append_left _ (List.mem_map_of_mem he)
  exact ⟨(hu.owned.apart _ hm).1, fun i hi => hu.owned.not_active hm hi⟩

theorem InPass.new (h : InPass s now expired es u) (hu : TimerInv u) (hfree : u.heap a = none)
    (when : Int) (interval : Fin (2 ^ 63)) (repeat_ : Bool) :
    InPass s now expired (es ++ [.addTimer ⟨a, u.numCreated + 1⟩])
      (u.new a when interval repeat_) := by
  refine h.quiet rfl ?_ rfl rfl (fun e he n => by simp [TimerQueue.new, emit])
  intro e he
  refine new_heap_of_ne ?_
  rintro rfl
  have hsome := (h.batch hu e he).1
  rw [hfree] at hsome
  cases hsome

theorem InPass.cancelInLoop (h : InPass s now expired es u) (hu : TimerInv u) (id : TimerId) :
    ∃ ds, InPass s now expired (es ++ ds) (u.cancelInLoop id) := by
  by_cases hi : id ∈ u.activeTimers
  · obtain ⟨x, hx, hseq, -⟩ := hu.owned.listed id hi
    have hne : ∀ e ∈ expired, e.timer ≠ id.timer := fun e he hei => (h.batch hu e he).2 id hi hei.symm
    refine ⟨[.delete ⟨id.timer, x.sequence⟩, .cancelInLoop id], ?_⟩
    rw [cancelInLoop_active hu.owned hi hx]
    refine h.quiet rfl (fun e he => drop_heap_of_ne (t := x) (hne e he)) ?_ rfl ?_
    · show (u.trace ++ _) ++ _ = _
      rw [List.append_assoc]
      rfl
    · intro e he n
      refine (or_iff_left ?_).symm
      intro hm
      simp only [List.mem_cons, reduceCtorEq, TimerEvent.cancelInLoop.injEq, List.not_mem_nil,
        or_false, false_or] at hm
      exact hne e he (congrArg TimerId.timer hm)
  · -- it is noted for `reset`
    obtain ⟨todo, htodo, -⟩ := h.todo
    have hcall : u.callingExpiredTimers = true := by
      rw [hu.calling, htodo]
      rfl
    refine ⟨[.cancelInLoop id], ?_⟩
    rw [cancelInLoop_of_not_mem hu.owned.size hi, hcall, if_pos rfl]
    refine h.quiet rfl (fun e _ => rfl) rfl rfl ?_
    intro e he n
    show _ ∈ (SortedSet.insert _ _).1 ↔ _
    rw [SortedSet.mem_insert, List.mem_singleton, TimerEvent.cancelInLoop.injEq]
    exact or_comm

theorem InPass.runTimer {e : Entry} {todo : List Entry} {x : Timer}
    (h : InPass s now expired es u) (hu : TimerInv u)
    (hh : u.handling = some ⟨now, expired, e :: todo⟩) (hx : u.heap e.timer = some x) :
    InPass s now expired (es ++ [.run ⟨e.timer, x.sequence⟩])
      { u.emit (.run ⟨e.timer, x.sequence⟩) with handling := some ⟨now, expired, todo⟩ } := by
  have he : e ∈ expired := (hu.todo _ hh).subset List.mem_cons_self
  obtain ⟨todo', htodo, hrun⟩ := h.todo
  obtain rfl : e :: todo = todo' := (Handling.mk.inj (Option.some.inj (hh.symm.trans htodo))).2.2
  have hid : s.idOf e = some ⟨e.timer, x.sequence⟩ := by
    rw [idOf, ← h.heap e he, hx]
    rfl
  refine ⟨⟨todo, rfl, ?_⟩, h.heap, ?_, ?_⟩
  · rw [← hrun, List.map_cons, hid, List.filterMap_append, List.map_append, List.append_assoc]
    rfl
  · show u.trace ++ _ = _
    rw [h.trace, List.append_assoc]
  · intro d hd y hy
    show _ ∈ u.cancelingTimers ↔ _
    rw [h.canceling d hd y hy, List.mem_append]
    simp

theorem InPass.stepped {c : Act} (h : InPass s now expired es u) (hu : TimerInv u)
    (hc : ∀ drift, c ≠ .reset drift) (hst : Stepped u c v) :
    ∃ ds, InPass s now expired (es ++ ds) v := by
  obtain ⟨todo, htodo, -⟩ := h.todo
  have hsame : ∀ {w : TimerQueue}, w.handling = u.handling → w.heap = u.heap → w.trace = u.trace →
      w.cancelingTimers = u.cancelingTimers → ∃ ds, InPass s now expired (es ++ ds) w := by
    intro w hhand hheap htrace hcan
    refine ⟨[], h.quiet hhand (fun e _ => by rw [hheap]) (by rw [htrace, List.append_nil]) rfl ?_⟩
    intro e _ n
    rw [hcan]
    simp
  cases hst with
  | addTimer a when interval repeat_ drift hfree hmax =>
    have hnew := h.new hu hfree when interval repeat_
    refine ⟨[.addTimer ⟨a, u.numCreated + 1⟩], ?_⟩
    rw [addTimerInLoop_eq (hu.owned.new hfree) new_heap_self]
    split
    · exact ⟨hnew.todo, hnew.heap, hnew.trace, hnew.canceling⟩
    · exact ⟨hnew.todo, hnew.heap, hnew.trace, hnew.canceling⟩
  | queueAdd a when interval repeat_ drift hfree hmax =>
    have hnew := h.new hu hfree when interval repeat_
    exact ⟨_, hnew.todo, hnew.heap, hnew.trace, hnew.canceling⟩
  | cancel id => exact h.cancelInLoop hu id
  | queueCancel id => exact hsame rfl rfl rfl rfl
  | doPendingFunctors hr => exact hsame rfl rfl rfl rfl
  | runAdd a fs drift hr hn =>
    rw [htodo] at hn
    cases hn
  | runCancel id fs drift hr hn =>
    rw [htodo] at hn
    cases hn
  | handleRead delay hn =>
    rw [htodo] at hn
    cases hn
  | runTimer now' expired' e todo' hh =>
    obtain ⟨x, hx⟩ := hu.next_timer hh
    obtain ⟨rfl, rfl, rfl⟩ := Handling.mk.inj (Option.some.inj (hh.symm.trans htodo))
    rw [deref_of hx]
    exact ⟨_, h.runTimer hu hh hx⟩
  | reset now' expired' drift hh => exact absurd rfl (hc drift)
  | tick n => exact hsame rfl rfl rfl rfl

/-- The callbacks of a whole pass. -/
theorem InPass.run {as : List Act} (h : InPass s now expired [] u) (hu : TimerInv u)
    (has : ∀ c ∈ as, ∀ drift, c ≠ .reset drift) (hrun : Steps.run step u as = some v) :
    TimerInv v ∧ ∃ es, InPass s now expired es v := by
  refine Steps.run_invariant_of (I := fun v => TimerInv v ∧ ∃ es, InPass s now expired es v)
    ?_ has ⟨hu, [], h⟩ hrun
  rintro v c w hc ⟨hv, es, hes⟩ hs
  obtain ⟨ds, hds⟩ := hes.stepped hv hc (step_stepped hs)
  exact ⟨timerInv_stepped hv (step_stepped hs), _, hds⟩

/-! ### `reset` -/

/-- What `reset` does with the timer `x`. -/
def Settled (s : TimerQueue) (now : Int) (a : Nat) (x : Timer) (t : TimerQueue) : Prop :=
  if x.repeat_ = true ∧ ⟨a, x.sequence⟩ ∉ s.cancelingTimers then
    Present t a { x with expiration := addTime now x.interval }
  else Gone t ⟨a, x.sequence⟩

/-- The other timers of the batch stay as they are. -/
theorem Settled.settle {b : Nat} {x y : Timer} (h : Settled s now b y u) (hb : b ≠ a) :
    Settled s now b y (u.settle now a x) := by
  unfold Settled at h ⊢
  split
  · next hp =>
    rw [if_pos hp] at h
    unfold TimerQueue.settle
    split
    · exact ⟨(Function.update_of_ne hb _ _).trans h.heap, SortedSet.mem_insert.mpr (Or.inr h.timers),
        SortedSet.mem_insert.mpr (Or.inr h.activeTimers)⟩
    · exact ⟨(drop_heap_of_ne hb).trans h.heap, h.timers, h.activeTimers⟩
  · next hp =>
    rw [if_neg hp] at h
    unfold TimerQueue.settle
    split
    · refine ⟨(Function.update_of_ne hb _ _).trans h.heap, ?_, ?_, h.delete⟩
      · intro e he
        rcases SortedSet.mem_insert.mp he with rfl | he
        · exact hb.symm
        · exact h.timers e he
      · intro i hi
        rcases SortedSet.mem_insert.mp hi with rfl | hi
        · exact hb.symm
        · exact h.activeTimers i hi
    · exact ⟨(drop_heap_of_ne hb).trans h.heap, h.timers, h.activeTimers,
        List.mem_append_left _ h.delete⟩

theorem settled_settle {x : Timer} (ho : Owned u.timers u.activeTimers u.heap (a :: away))
    (hc : u.cancelingTimers = s.cancelingTimers) (now : Int) :
    Settled s now a x (u.settle now a x) := by
  unfold Settled settle
  rw [hc]
  split
  · next hp =>
    have hre : x.restart now = { x with expiration := addTime now x.interval } := if_pos hp.1
    rw [hre]
    exact ⟨Function.update_self _ _ _, SortedSet.mem_insert.mpr (Or.inl rfl),
      SortedSet.mem_insert.mpr (Or.inl rfl)⟩
  · exact ⟨drop_heap_self, (ho.apart a List.mem_cons_self).2,
      fun i hi => ho.not_active List.mem_cons_self hi, List.mem_append_right _ List.mem_cons_self⟩

theorem settle_trace (s : TimerQueue) (now : Int) (a : Nat) (x : Timer) :
    ∃ ds, (s.settle now a x).trace = s.trace ++ ds ∧ ∀ e ∈ ds, ∃ i, e = .delete i := by
  unfold settle
  split
  · exact ⟨[], (List.append_nil _).symm, by simp⟩
  · exact ⟨_, rfl, by simp⟩

/-- `reset` after the timers `done`, of which `expired` are left. -/
structure InReset (s : TimerQueue) (now : Int) (done expired : List Entry) (u : TimerQueue) :
    Prop where
  canceling : u.cancelingTimers = s.cancelingTimers
  heap : ∀ e ∈ expired, u.heap e.timer = s.heap e.timer
  trace : ∃ ds, u.trace = s.trace ++ ds ∧ ∀ e ∈ ds, ∃ i, e = .delete i
  settled : ∀ e ∈ done, ∀ x, s.heap e.timer = some x → Settled s now e.timer x u

theorem InReset.settle {done : List Entry} {e : Entry} {x : Timer}
    (h : InReset s now done (e :: expired) u)
    (hnd : ((done ++ e :: expired).map Entry.timer).Nodup)
    (ho : Owned u.timers u.activeTimers u.heap (e.timer :: away)) (hx : u.heap e.timer = some x) :
    InReset s now (done ++ [e]) expired (u.settle now e.timer x) := by
  have hne : ∀ d ∈ done ++ expired, d.timer ≠ e.timer := timer_ne_of_nodup hnd
  refine ⟨(settle_cancelingTimers u now x).trans h.canceling, ?_, ?_, ?_⟩
  · intro d hd
    rw [settle_heap_of_ne u now x (hne d (List.mem_append_right _ hd))]
    exact h.heap d (List.mem_cons_of_mem e hd)
  · obtain ⟨ds, ht, hds⟩ := h.trace
    obtain ⟨ds', ht', hds'⟩ := settle_trace u now e.timer x
    refine ⟨ds ++ ds', by rw [ht', ht, List.append_assoc], ?_⟩
    intro d hd
    exact (List.mem_append.mp hd).elim (hds d) (hds' d)
  · intro d hd y hy
    rcases List.mem_append.mp hd with hd | hd
    · exact (h.settled d hd y hy).settle (hne d (List.mem_append_left _ hd))
    · obtain rfl := List.mem_singleton.mp hd
      rw [← h.heap d List.mem_cons_self, hx] at hy
      obtain rfl := Option.some.inj hy
      exact settled_settle ho h.canceling now

theorem InReset.congr {done : List Entry} (h : InReset s now done expired u)
    (hc : v.cancelingTimers = u.cancelingTimers) (hh : v.heap = u.heap) (htr : v.trace = u.trace)
    (ht : v.timers = u.timers) (ha : v.activeTimers = u.activeTimers) :
    InReset s now done expired v := by
  refine ⟨hc.trans h.canceling, fun e he => by rw [hh]; exact h.heap e he, by rw [htr]; exact h.trace, ?_⟩
  intro e he x hx
  have hset := h.settled e he x hx
  unfold Settled at hset ⊢
  split
  · next hp =>
    rw [if_pos hp] at hset
    exact ⟨hh ▸ hset.heap, ht ▸ hset.timers, ha ▸ hset.activeTimers⟩
  · next hp =>
    rw [if_neg hp] at hset
    exact ⟨hh ▸ hset.heap, ht ▸ hset.timers, ha ▸ hset.activeTimers, htr ▸ hset.delete⟩

/-- The timers of the batch after `reset`. -/
theorem inReset_reset (h : TimerInv s) (hh : s.handling = some ⟨now, expired, []⟩) (drift : Nat) :
    InReset s now expired []
      { { s with callingExpiredTimers := false }.reset drift expired now with handling := none } := by
  have ho := h.owned_batch hh
  have hnd : (expired.map Entry.timer).Nodup := (List.nodup_append.mp ho.nodup).1
  obtain ⟨hown, done, hdone, hr⟩ := foldl_resetOne now
    (I := fun rest u => ∃ done, done ++ rest = expired ∧ InReset s now done rest u)
    (fun e rest u x ho hx hu => by
      obtain ⟨done, hdone, hr⟩ := hu
      refine ⟨done ++ [e], by rw [List.append_assoc]; exact hdone, hr.settle (hdone ▸ hnd) ho hx⟩)
    (s := { s with callingExpiredTimers := false }) ho
    ⟨[], rfl, rfl, fun e _ => rfl, ⟨[], (List.append_nil _).symm, by simp⟩, by simp⟩
  rw [List.append_nil] at hdone
  rw [hdone] at hr
  rcases reset_eq_or rfl hown drift with he | ⟨e, he⟩
  · rw [he]
    exact hr.congr rfl rfl rfl rfl rfl
  · rw [he]
    exact hr.congr rfl rfl rfl rfl rfl

/-! ### The pass -/

/-- The ids of distinct timers in memory are distinct. -/
theorem nodup_idOf (hnd : (expired.map Entry.timer).Nodup)
    (hlive : ∀ e ∈ expired, (s.heap e.timer).isSome) : (expired.map s.idOf).Nodup := by
  apply List.Nodup.of_map (Option.map TimerId.timer)
  have heq : (expired.map s.idOf).map (Option.map TimerId.timer) =
      (expired.map Entry.timer).map some := by
    rw [List.map_map, List.map_map]
    refine List.map_congr_left ?_
    intro e he
    obtain ⟨x, hx⟩ := Option.isSome_iff_exists.mp (hlive e he)
    simp [idOf, hx]
  rw [heq]
  exact hnd.map (Option.some_injective _)

/-- The state in which the callbacks of a pass start. -/
theorem inPass_handleRead (h : TimerInv s) {delay : Nat}
    (hhr : step s (.handleRead delay) = some u) :
    TakesDue s s.clock (s.getExpired s.clock).2 u ∧ InPass s s.clock (s.getExpired s.clock).2 [] u := by
  have hlive := fun a x hx => (h.mortal.live a x hx).1
  cases step_stepped hhr with
  | handleRead _ hn =>
    obtain ⟨_, hget, -⟩ := getExpired_eq h.owned hlive s.clock
    obtain ⟨active, heq, ho⟩ := handleRead_eq h.owned hlive delay
    rw [hget, heq]
    refine ⟨takesDue_of_owned h ho rfl rfl, ⟨_, rfl, rfl⟩, fun e _ => rfl,
      (List.append_nil _).symm, ?_⟩
    intro e _ x _
    simp

/-- The end of a pass. -/
theorem onePass_of_reset (h : InPass s s.clock expired es v) (hv : TimerInv v)
    (hh : v.handling = some ⟨s.clock, expired, []⟩) (hr : InReset v s.clock expired [] t) :
    ∃ ds, OnePass s expired (es ++ ds) t := by
  obtain ⟨todo, htodo, hrun⟩ := h.todo
  obtain rfl : [] = todo := (Handling.mk.inj (Option.some.inj (hh.symm.trans htodo))).2.2
  rw [List.map_nil, List.append_nil] at hrun
  obtain ⟨ds, ht, hds⟩ := hr.trace
  have hran : ds.filterMap TimerEvent.ran = [] := by
    rw [List.filterMap_eq_nil_iff]
    intro e he
    obtain ⟨i, rfl⟩ := hds e he
    rfl
  have hcan : ∀ i, .cancelInLoop i ∈ es ++ ds ↔ .cancelInLoop i ∈ es := by
    intro i
    rw [List.mem_append]
    refine or_iff_left ?_
    intro hm
    obtain ⟨j, hj⟩ := hds _ hm
    cases hj
  have hlive : ∀ e ∈ expired, (s.heap e.timer).isSome := fun e he =>
    h.heap e he ▸ (h.batch hv e he).1
  have hnd := nodup_idOf (List.nodup_append.mp (hv.owned_batch hh).nodup).1 hlive
  refine ⟨ds, by rw [ht, h.trace, List.append_assoc], ?_, ?_, ?_, ?_⟩
  · rw [List.filterMap_append, hran, List.append_nil, hrun]
  · rw [List.filterMap_append, hran, List.append_nil]
    rw [← hrun] at hnd
    exact hnd.of_map _
  · intro e he x hx hre hc
    rw [hcan, ← h.canceling e he x hx] at hc
    have hset := hr.settled e he x ((h.heap e he).trans hx)
    rw [Settled, if_pos ⟨hre, hc⟩] at hset
    exact hset
  · intro e he x hx hc
    rw [hcan, ← h.canceling e he x hx] at hc
    have hset := hr.settled e he x ((h.heap e he).trans hx)
    rw [Settled, if_neg] at hset
    · exact hset
    · rintro ⟨hre, hnc⟩
      rcases hc with hc | hc
      · rw [hre] at hc
        cases hc
      · exact hnc hc

theorem onePass_of_run {delay drift : Nat} {as : List Act} (h : TimerInv s)
    (hhr : step s (.handleRead delay) = some u) (has : ∀ c ∈ as, ∀ d, c ≠ .reset d)
    (hrun : Steps.run step u as = some v) (hreset : step v (.reset drift) = some t) :
    ∃ es, OnePass s (s.getExpired s.clock).2 es t := by
  obtain ⟨-, hin⟩ := inPass_handleRead h hhr
  obtain ⟨hv, es, hes⟩ := hin.run (timerInv_stepped h (step_stepped hhr)) has hrun
  obtain ⟨todo, htodo, -⟩ := hes.todo
  cases step_stepped hreset with
  | reset now expired _ hh =>
    obtain ⟨rfl, rfl, -⟩ := Handling.mk.inj (Option.some.inj (hh.symm.trans htodo))
    obtain ⟨ds, hds⟩ := onePass_of_reset hes hv hh (inReset_reset hv hh drift)
    exact ⟨_, hds⟩

/-- **One pass does what is due.** -/
theorem one_pass (h : TimerInv s) :
    (∀ now, TakesDue s now (s.getExpired now).2 (s.getExpired now).1) ∧
    (∀ delay drift as u v t, step s (.handleRead delay) = some u →
      (∀ c ∈ as, ∀ d, c ≠ .reset d) → Steps.run step u as = some v →
      step v (.reset drift) = some t → TakesDue s s.clock (s.getExpired s.clock).2 u ∧
        ∃ es, OnePass s (s.getExpired s.clock).2 es t) ∧
    ∀ d : Fin (2 ^ 63), -2 ^ 63 ≤ s.clock → s.clock + d < 2 ^ 63 →
      addTime s.clock d = s.clock + d := by
  refine ⟨takesDue_getExpired h, ?_, ?_⟩
  · intro delay drift as u v t hhr has hrun hreset
    exact ⟨(inPass_handleRead h hhr).1, onePass_of_run h hhr has hrun hreset⟩
  · intro d hl hu
    refine int64_of_mem ?_ hu
    omega

/-- Two timers that expire together, and one that is not due. -/
def threeTimers : List Act :=
  [.addTimer true 16 50 1000 true 0, .addTimer false 8 50 0 false 0, .addTimer true 24 900 0 false 0,
    .doPendingFunctors, .runFunctor 3, .tick 200]

/-- The first callback adds a timer that is due, and the second cancels its own. -/
def addsDue : List Act :=
  [.runTimer, .addTimer true 32 60 5 true 0, .runTimer, .cancel true ⟨16, 1⟩]

theorem one_pass_threeTimers : ∃ s u v t es, Steps.run step (init 10) threeTimers = some s ∧
    step s (.handleRead 1) = some u ∧ Steps.run step u addsDue = some v ∧
    step v (.reset 2) = some t ∧ (s.getExpired s.clock).2.map Entry.timer = [8, 16] ∧
    TakesDue s s.clock (s.getExpired s.clock).2 u ∧ OnePass s (s.getExpired s.clock).2 es t := by
  have hobs : (Steps.run step (init 10) threeTimers).any (fun s =>
      decide ((s.getExpired s.clock).2.map Entry.timer = [8, 16]) &&
      (step s (.handleRead 1)).any fun u => (Steps.run step u addsDue).any fun v =>
        (step v (.reset 2)).isSome) = true := by decide
  obtain ⟨s, hs, hobs⟩ := (Option.any_eq_true _ _).mp hobs
  obtain ⟨hexp, hobs⟩ := (Bool.and_eq_true _ _).mp hobs
  obtain ⟨u, hu, hobs⟩ := (Option.any_eq_true _ _).mp hobs
  obtain ⟨v, hv, hobs⟩ := (Option.any_eq_true _ _).mp hobs
  obtain ⟨t, ht⟩ := Option.isSome_iff_exists.mp hobs
  obtain ⟨hdue, es, hes⟩ := (one_pass (timerInv_run hs)).2.1 1 2 addsDue u v t hu (by simp [addsDue]) hv ht
  exact ⟨s, u, v, t, es, hs, hu, hv, ht, of_decide_eq_true hexp, hdue, hes⟩

end

end TimerQueue

end SimpleNet
