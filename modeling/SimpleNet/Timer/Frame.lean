import SimpleNet.Timer.Cancel
import SimpleNet.Timer.Pass

/-!
# What a cancel leaves alone

`cancel_frame`: a cancel of any id leaves every other timer where it is, and what becomes of the
others does not depend on it.  The rest of a pass of `handleRead` goes the same way with and
without the cancel, up to the timer of the id; in a later pass a timer is put back unless it is
cancelled by its own id.

`Without id s t` relates the two: `t` is `s` without the timer `id`, or with a note that it is
to be deleted.
-/

namespace SimpleNet

open Function (update)

/-- The id of a timer that is created. -/
def TimerEvent.created : TimerEvent → Option TimerId
  | .addTimer id => some id
  | _ => none

namespace TimerQueue

/-- The ids of the timers created so far. -/
def created (s : TimerQueue) : List TimerId := s.trace.filterMap TimerEvent.created

/-- The timers in memory have ids of their own. -/
structure Named (s : TimerQueue) : Prop where
  bound : ∀ i ∈ s.created, i.sequence ≤ s.numCreated
  distinct : s.created.Pairwise fun i j => i.sequence < j.sequence
  live : ∀ a x, s.heap a = some x → ⟨a, x.sequence⟩ ∈ s.created

/-- The timers other than `id` are the same in `s` and `t`. -/
structure Same (id : TimerId) (s t : TimerQueue) : Prop where
  heap : ∀ a x, ⟨a, x.sequence⟩ ≠ id → (t.heap a = some x ↔ s.heap a = some x)
  timers : ∀ a x, s.heap a = some x → ⟨a, x.sequence⟩ ≠ id →
    (⟨x.expiration, a⟩ ∈ t.timers ↔ ⟨x.expiration, a⟩ ∈ s.timers)
  activeTimers : ∀ i, i ≠ id → (i ∈ t.activeTimers ↔ i ∈ s.activeTimers)
  cancelingTimers : ∀ i, i ≠ id → (i ∈ t.cancelingTimers ↔ i ∈ s.cancelingTimers)

/-- The queue just before and just after a `cancelInLoop`: a call, or the next functor. -/
inductive Cancels (s : TimerQueue) (id : TimerId) : TimerQueue → TimerQueue → Prop
  | call {t : TimerQueue} (h : step s (.cancel true id) = some t) : Cancels s id s t
  | functor {t : TimerQueue} {drift : Nat} {fs : List TimerTask}
      (hr : s.functors.rest = .cancelInLoop id :: fs)
      (h : step s (.runFunctor drift) = some t) :
      Cancels s id { s with functors := s.functors.tail } t

/-- `t` is `s` without the timer `id`, or with a note that it is to be deleted. -/
structure Without (id : TimerId) (s t : TimerQueue) : Prop where
  handling : t.handling = s.handling
  functors : t.functors = s.functors
  numCreated : t.numCreated = s.numCreated
  calling : t.callingExpiredTimers = s.callingExpiredTimers
  heap : ∀ a x, t.heap a = some x → s.heap a = some x
  kept : ∀ a x, s.heap a = some x → ⟨a, x.sequence⟩ ≠ id → t.heap a = some x
  active : ∀ i, i ∈ t.activeTimers → i ∈ s.activeTimers
  keptActive : ∀ i, i ∈ s.activeTimers → i ≠ id → i ∈ t.activeTimers
  canceling : ∀ i, i ∈ s.cancelingTimers → i ∈ t.cancelingTimers
  onlyCanceling : ∀ i, i ∈ t.cancelingTimers → i ≠ id → i ∈ s.cancelingTimers

section

variable {s t : TimerQueue} {a : Nat} {id : TimerId} {away : List Nat}

/-- An entry is there for each element of `activeTimers_`, and for nothing else. -/
theorem Owned.mem_timers_iff {x : Timer} (h : Owned s.timers s.activeTimers s.heap away)
    (hx : s.heap a = some x) :
    ⟨x.expiration, a⟩ ∈ s.timers ↔ ⟨a, x.sequence⟩ ∈ s.activeTimers := by
  constructor
  · intro hm
    obtain ⟨y, hy, -, hact⟩ := h.entry _ hm
    obtain rfl := Option.some.inj (hx.symm.trans hy)
    exact hact
  · intro hm
    obtain ⟨y, hy, -, hent⟩ := h.listed _ hm
    obtain rfl := Option.some.inj (hx.symm.trans hy)
    exact hent

theorem Without.same (h : Without id s t) (hs : TimerInv s) (ht : TimerInv t) : Same id s t where
  heap a x hne := ⟨h.heap a x, fun hx => h.kept a x hx hne⟩
  timers a x hx hne := by
    rw [ht.owned.mem_timers_iff (h.kept a x hx hne), hs.owned.mem_timers_iff hx]
    exact ⟨h.active _, fun hm => h.keptActive _ hm hne⟩
  activeTimers i hne := ⟨h.active i, fun hm => h.keptActive i hm hne⟩
  cancelingTimers i hne := ⟨fun hm => h.onlyCanceling i hm hne, h.canceling i⟩

/-- A timer in memory that is in neither set is away. -/
theorem Owned.away_of_not_active {x : Timer} (h : Owned s.timers s.activeTimers s.heap away)
    (hx : s.heap a = some x) (hn : ⟨a, x.sequence⟩ ∉ s.activeTimers) : a ∈ away := by
  refine (h.home a x hx).resolve_left ?_
  rintro ⟨e, he, rfl⟩
  obtain ⟨y, hy, hw, hm⟩ := h.entry e he
  obtain rfl := Option.some.inj (hx.symm.trans hy)
  exact hn hm

/-- The timers that are away are the same. -/
theorem Without.away_eq (h : Without id s t) : t.batch ++ t.queued = s.batch ++ s.queued := by
  rw [batch, batch, queued, queued, h.handling, h.functors]

/-! ### Cancels -/

/-- What `cancelInLoop` does with the timers. -/
structure CancelSpec (s : TimerQueue) (id : TimerId) (t : TimerQueue) : Prop where
  handling : t.handling = s.handling
  functors : t.functors = s.functors
  numCreated : t.numCreated = s.numCreated
  calling : t.callingExpiredTimers = s.callingExpiredTimers
  heap : ∀ a x, t.heap a = some x ↔ s.heap a = some x ∧ ¬ (id ∈ s.activeTimers ∧ a = id.timer)
  active : ∀ i, i ∈ t.activeTimers ↔ i ∈ s.activeTimers ∧ i ≠ id
  canceling : ∀ i, i ∈ t.cancelingTimers ↔ i ∈ s.cancelingTimers ∨
    i = id ∧ id ∉ s.activeTimers ∧ s.callingExpiredTimers = true

theorem cancelInLoop_spec (hs : TimerInv s) (id : TimerId) : CancelSpec s id (s.cancelInLoop id) := by
  by_cases hi : id ∈ s.activeTimers
  · obtain ⟨x, hx, hseq, -⟩ := hs.owned.listed id hi
    rw [cancelInLoop_active hs.owned hi hx]
    refine ⟨rfl, rfl, rfl, rfl, ?_, ?_, ?_⟩
    · intro b y
      show update s.heap id.timer none b = some y ↔ _
      by_cases hb : b = id.timer
      · subst hb
        simp [hi]
      · simp [hb]
    · intro i
      show i ∈ (SortedSet.erase _ _).1 ↔ _
      rw [SortedSet.mem_erase, and_comm]
    · intro i
      refine (or_iff_left ?_).symm
      rintro ⟨-, hn, -⟩
      exact hn hi
  · rw [cancelInLoop_of_not_mem hs.owned.size hi]
    refine ⟨rfl, rfl, rfl, rfl, ?_, ?_, ?_⟩
    · intro b y
      refine (and_iff_left ?_).symm
      rintro ⟨hm, -⟩
      exact hi hm
    · intro i
      refine (and_iff_left_of_imp ?_).symm
      rintro hm rfl
      exact hi hm
    · intro i
      show i ∈ ite _ _ _ ↔ _
      split
      · next hc => simp [hc, hi, or_comm]
      · next hc => simp [hc]

/-- The cancel itself. -/
theorem without_cancelInLoop (hs : TimerInv s) (id : TimerId) :
    Without id s (s.cancelInLoop id) := by
  have h := cancelInLoop_spec hs id
  refine ⟨h.handling, h.functors, h.numCreated, h.calling, fun a x hx => ((h.heap a x).mp hx).1, ?_,
    fun i hi => ((h.active i).mp hi).1, fun i hi hne => (h.active i).mpr ⟨hi, hne⟩,
    fun i hi => (h.canceling i).mpr (Or.inl hi), ?_⟩
  · intro a x hx hne
    refine (h.heap a x).mpr ⟨hx, ?_⟩
    rintro ⟨hi, rfl⟩
    obtain ⟨y, hy, hseq, -⟩ := hs.owned.listed id hi
    obtain rfl := Option.some.inj (hx.symm.trans hy)
    refine hne ?_
    rw [hseq]
  · intro i hi hne
    exact ((h.canceling i).mp hi).resolve_right fun hc => hne hc.1

/-- A cancel in both, of any timer. -/
theorem Without.cancelInLoop (h : Without id s t) (hs : TimerInv s) (ht : TimerInv t)
    (j : TimerId) : Without id (s.cancelInLoop j) (t.cancelInLoop j) := by
  have hs' := cancelInLoop_spec hs j
  have ht' := cancelInLoop_spec ht j
  refine ⟨?_, ?_, ?_, ?_, ?_, ?_, ?_, ?_, ?_, ?_⟩
  · rw [hs'.handling, ht'.handling, h.handling]
  · rw [hs'.functors, ht'.functors, h.functors]
  · rw [hs'.numCreated, ht'.numCreated, h.numCreated]
  · rw [hs'.calling, ht'.calling, h.calling]
  · intro a x hx
    obtain ⟨hx, hn⟩ := (ht'.heap a x).mp hx
    refine (hs'.heap a x).mpr ⟨h.heap a x hx, ?_⟩
    rintro ⟨hj, rfl⟩
    -- the timer is in the sets of `s`, and would be away in `t`
    obtain ⟨y, hy, hseq, -⟩ := hs.owned.listed j hj
    obtain rfl := Option.some.inj ((h.heap _ x hx).symm.trans hy)
    have hm := ht.owned.away_of_not_active hx (by
      rw [hseq]
      exact fun hjt => hn ⟨hjt, rfl⟩)
    rw [h.away_eq] at hm
    exact hs.owned.not_active hm hj rfl
  · intro a x hx hne
    obtain ⟨hx, hn⟩ := (hs'.heap a x).mp hx
    exact (ht'.heap a x).mpr ⟨h.kept a x hx hne, fun hj => hn ⟨h.active j hj.1, hj.2⟩⟩
  · intro i hi
    obtain ⟨hi, hne⟩ := (ht'.active i).mp hi
    exact (hs'.active i).mpr ⟨h.active i hi, hne⟩
  · intro i hi hid
    obtain ⟨hi, hne⟩ := (hs'.active i).mp hi
    exact (ht'.active i).mpr ⟨h.keptActive i hi hid, hne⟩
  · intro i hi
    refine (ht'.canceling i).mpr (((hs'.canceling i).mp hi).imp (h.canceling i) ?_)
    rintro ⟨hij, hj, hc⟩
    exact ⟨hij, fun hjt => hj (h.active j hjt), h.calling.trans hc⟩
  · intro i hi hid
    refine (hs'.canceling i).mpr (((ht'.canceling i).mp hi).imp (h.onlyCanceling i · hid) ?_)
    rintro ⟨rfl, hj, hc⟩
    exact ⟨rfl, fun hjs => hj (h.keptActive i hjs hid), h.calling.symm.trans hc⟩

/-! ### The other steps -/

/-- The clock and the timerfd are not compared. -/
theorem Without.arm (h : Without id s t) (c d : Int) (x y : Option Arming) :
    Without id { s with clock := c, timerfd := x } { t with clock := d, timerfd := y } :=
  ⟨h.handling, h.functors, h.numCreated, h.calling, h.heap, h.kept, h.active, h.keptActive,
    h.canceling, h.onlyCanceling⟩

/-- The same timer, or none, is written to an address in both. -/
theorem Without.set (h : Without id s t) (a : Nat) (x : Option Timer) :
    Without id { s with heap := update s.heap a x } { t with heap := update t.heap a x } where
  handling := h.handling
  functors := h.functors
  numCreated := h.numCreated
  calling := h.calling
  heap b y hy := by
    simp only [Function.update_apply] at hy ⊢
    split
    · next hb => rwa [if_pos hb] at hy
    · next hb =>
      rw [if_neg hb] at hy
      exact h.heap b y hy
  kept b y hy hne := by
    simp only [Function.update_apply] at hy ⊢
    split
    · next hb => rwa [if_pos hb] at hy
    · next hb =>
      rw [if_neg hb] at hy
      exact h.kept b y hy hne
  active := h.active
  keptActive := h.keptActive
  canceling := h.canceling
  onlyCanceling := h.onlyCanceling

theorem Without.new (h : Without id s t) (a : Nat) (when : Int) (interval : Fin (2 ^ 63))
    (repeat_ : Bool) : Without id (s.new a when interval repeat_) (t.new a when interval repeat_) := by
  unfold TimerQueue.new
  rw [h.numCreated]
  have hset := h.set a (some ⟨when, interval, repeat_, s.numCreated + 1⟩)
  exact ⟨hset.handling, hset.functors, rfl, hset.calling, hset.heap, hset.kept, hset.active,
    hset.keptActive, hset.canceling, hset.onlyCanceling⟩

/-- A timer is put into both sets. -/
theorem Without.put (h : Without id s t) (a : Nat) (x : Timer) : Without id (s.put a x) (t.put a x) where
  handling := h.handling
  functors := h.functors
  numCreated := h.numCreated
  calling := h.calling
  heap := h.heap
  kept := h.kept
  active i hi := SortedSet.mem_insert.mpr ((SortedSet.mem_insert.mp hi).imp_right (h.active i))
  keptActive i hi hne := SortedSet.mem_insert.mpr
    ((SortedSet.mem_insert.mp hi).imp_right fun hm => h.keptActive i hm hne)
  canceling := h.canceling
  onlyCanceling := h.onlyCanceling

theorem Without.drop (h : Without id s t) (a : Nat) (x : Timer) :
    Without id (s.drop a x) (t.drop a x) := by
  have hset := h.set a none
  exact ⟨hset.handling, hset.functors, hset.numCreated, hset.calling, hset.heap, hset.kept,
    hset.active, hset.keptActive, hset.canceling, hset.onlyCanceling⟩

theorem addTimerInLoop_arm {x : Timer} (h : Owned s.timers s.activeTimers s.heap (a :: away))
    (hx : s.heap a = some x) (drift : Nat) :
    ∃ c y, s.addTimerInLoop drift a = { s.put a x with clock := c, timerfd := y } := by
  rw [addTimerInLoop_eq h hx]
  split
  · exact ⟨_, _, rfl⟩
  · exact ⟨_, _, rfl⟩

theorem Without.addTimerInLoop {x : Timer} (h : Without id s t)
    (hs : Owned s.timers s.activeTimers s.heap (a :: away))
    (ht : Owned t.timers t.activeTimers t.heap (a :: away)) (hx : s.heap a = some x)
    (hy : t.heap a = some x) (drift : Nat) :
    Without id (s.addTimerInLoop drift a) (t.addTimerInLoop drift a) := by
  obtain ⟨c, i, hs⟩ := addTimerInLoop_arm hs hx drift
  obtain ⟨d, j, ht⟩ := addTimerInLoop_arm ht hy drift
  rw [hs, ht]
  exact (h.put a x).arm c d i j

/-- Only the timer `id` can be put back in `s` and deleted in `t`. -/
theorem Without.settle {x : Timer} (h : Without id s t) (now : Int) (a : Nat) :
    Without id (s.settle now a x) (t.settle now a x) := by
  unfold TimerQueue.settle
  split
  · next hs =>
    split
    · exact (h.set a (some (x.restart now))).put a (x.restart now)
    · next ht =>
      have hid : (⟨a, x.sequence⟩ : TimerId) = id := by
        by_contra hne
        exact ht ⟨hs.1, fun hm => hs.2 (h.onlyCanceling _ hm hne)⟩
      refine ⟨h.handling, h.functors, h.numCreated, h.calling, ?_, ?_, ?_, ?_, h.canceling,
        h.onlyCanceling⟩
      · intro b y hy
        have hb : b ≠ a := by
          rintro rfl
          exact absurd (drop_heap_self.symm.trans hy) (by simp)
        rw [drop_heap_of_ne hb] at hy
        exact (Function.update_of_ne hb _ _).trans (h.heap b y hy)
      · intro b y hy hne
        have hb : b ≠ a := by
          rintro rfl
          change update s.heap b _ b = _ at hy
          rw [Function.update_self] at hy
          obtain rfl := Option.some.inj hy
          exact hne (by rw [x.restart_sequence now, hid])
        change update s.heap a _ b = _ at hy
        rw [Function.update_of_ne hb] at hy
        exact (drop_heap_of_ne hb).trans (h.kept b y hy hne)
      · exact fun i hi => SortedSet.mem_insert.mpr (Or.inr (h.active i hi))
      · intro i hi hne
        refine h.keptActive i ((SortedSet.mem_insert.mp hi).resolve_left ?_) hne
        rw [x.restart_sequence now, hid]
        exact hne
  · next hs =>
    rw [if_neg]
    · exact h.drop a x
    · rintro ⟨hre, hn⟩
      exact hs ⟨hre, fun hm => hn (h.canceling _ hm)⟩

theorem Without.foldl_resetOne (now : Int) : ∀ {expired : List Entry} {s t : TimerQueue},
    Without id s t → Owned s.timers s.activeTimers s.heap (expired.map Entry.timer ++ away) →
    Owned t.timers t.activeTimers t.heap (expired.map Entry.timer ++ away) →
    Without id (expired.foldl (resetOne now) s) (expired.foldl (resetOne now) t) := by
  intro expired
  induction expired with
  | nil => exact fun h _ _ => h
  | cons e expired ih =>
    intro s t h hs ht
    obtain ⟨x, hx⟩ := Option.isSome_iff_exists.mp (ht.apart e.timer List.mem_cons_self).1
    rw [List.foldl_cons, List.foldl_cons, resetOne_eq hs (h.heap _ x hx), resetOne_eq ht hx]
    exact ih (h.settle now e.timer) (owned_settle hs now) (owned_settle ht now)

theorem reset_arm {now : Int} {expired : List Entry} {u : TimerQueue}
    (hu : expired.foldl (resetOne now) s = u) (h : Owned u.timers u.activeTimers u.heap away)
    (drift : Nat) : ∃ c y, s.reset drift expired now = { u with clock := c, timerfd := y } := by
  rcases reset_eq_or hu h drift with he | ⟨e, he⟩
  · exact ⟨_, _, he⟩
  · exact ⟨_, _, he⟩

theorem Without.reset {now : Int} {expired : List Entry} (h : Without id s t) (hs : TimerInv s)
    (ht : TimerInv t) (hh : s.handling = some ⟨now, expired, []⟩) (drift : Nat) :
    Without id
      { { s with callingExpiredTimers := false }.reset drift expired now with handling := none }
      { { t with callingExpiredTimers := false }.reset drift expired now with handling := none } := by
  have hos := hs.owned_batch hh
  have hot := ht.owned_batch (h.handling.trans hh)
  have hq : t.queued = s.queued := by rw [queued, queued, h.functors]
  rw [hq] at hot
  have hcall : Without id { s with callingExpiredTimers := false }
      { t with callingExpiredTimers := false } :=
    ⟨h.handling, h.functors, h.numCreated, rfl, h.heap, h.kept, h.active, h.keptActive, h.canceling,
      h.onlyCanceling⟩
  have hfold := hcall.foldl_resetOne now hos hot
  obtain ⟨hus, -⟩ := TimerQueue.foldl_resetOne now (I := fun _ _ => True)
    (fun _ _ _ _ _ _ _ => trivial) (s := { s with callingExpiredTimers := false }) hos trivial
  obtain ⟨hut, -⟩ := TimerQueue.foldl_resetOne now (I := fun _ _ => True)
    (fun _ _ _ _ _ _ _ => trivial) (s := { t with callingExpiredTimers := false }) hot trivial
  obtain ⟨c, x, hes⟩ := reset_arm rfl hus drift
  obtain ⟨d, y, het⟩ := reset_arm rfl hut drift
  rw [hes, het]
  have harm := hfold.arm c d x y
  exact ⟨rfl, harm.functors, harm.numCreated, harm.calling, harm.heap, harm.kept, harm.active,
    harm.keptActive, harm.canceling, harm.onlyCanceling⟩

theorem Without.set_functors (h : Without id s t) {fs gs : Batched TimerTask} (hf : gs = fs) :
    Without id { s with functors := fs } { t with functors := gs } :=
  ⟨h.handling, hf, h.numCreated, h.calling, h.heap, h.kept, h.active, h.keptActive, h.canceling,
    h.onlyCanceling⟩

theorem Without.run (h : Without id s t) (k : Option Handling) (e : TimerEvent) :
    Without id { s.emit e with handling := k } { t.emit e with handling := k } :=
  ⟨rfl, h.functors, h.numCreated, h.calling, h.heap, h.kept, h.active, h.keptActive, h.canceling,
    h.onlyCanceling⟩

/-- A functor does the same to both queues. -/
theorem Without.runTask {f : TimerTask} {fs : List TimerTask} (h : Without id s t) (hs : TimerInv s)
    (ht : TimerInv t) (hn : s.handling = none) (hr : s.functors.rest = f :: fs) (drift : Nat) :
    Without id ({ s with functors := s.functors.tail }.runTask drift f)
      ({ t with functors := t.functors.tail }.runTask drift f) := by
  have htr : t.functors.rest = f :: fs := by rw [h.functors, hr]
  have htn : t.handling = none := h.handling.trans hn
  have htail := h.set_functors (congrArg Batched.tail h.functors)
  cases f with
  | addTimerInLoop a =>
    obtain ⟨hos, -⟩ := hs.owned_next hn hr
    obtain ⟨hot, y, hy⟩ := ht.owned_next htn htr
    have hq : { t with functors := t.functors.tail }.queued =
        { s with functors := s.functors.tail }.queued := by rw [queued, queued, h.functors]
    rw [hq] at hot
    exact htail.addTimerInLoop hos hot (h.heap a y hy) hy drift
  | cancelInLoop j =>
    exact htail.cancelInLoop (timerInv_tail hs hr rfl) (timerInv_tail ht htr rfl) j

/-- Every step but `handleRead`. -/
theorem Without.step {c : Act} {s' : TimerQueue} (h : Without id s t) (hs : TimerInv s)
    (ht : TimerInv t) (hc : ∀ delay, c ≠ .handleRead delay) (hst : step s c = some s') :
    ∃ t', TimerQueue.step t c = some t' ∧ Without id s' t' := by
  have hns : ¬ (s.aborted = true ∨ s.dangling = true) := by simp [hs.aborted, hs.dangling]
  have hnt : ¬ (t.aborted = true ∨ t.dangling = true) := by simp [ht.aborted, ht.dangling]
  have huser : t.userCode = s.userCode := by rw [userCode, userCode, h.handling]
  unfold TimerQueue.step at hst ⊢
  rw [if_neg hns] at hst
  rw [if_neg hnt]
  cases c with
  | addTimer inLoop a when interval repeat_ drift =>
    simp only [Option.ite_none_right_eq_some] at hst
    obtain ⟨⟨hfree, hpos, hmax⟩, hst⟩ := hst
    have hsnone : s.heap a = none := Option.isNone_iff_eq_none.mp hfree
    have htnone : t.heap a = none := by
      cases hy : t.heap a with
      | none => rfl
      | some y => exact absurd (hsnone.symm.trans (h.heap a y hy)) (by simp)
    have hnew := h.new a when interval repeat_
    have hok : (t.heap a).isNone = true ∧ 0 < a ∧ a < UINTPTR_MAX := ⟨by simp [htnone], hpos, hmax⟩
    simp only [if_pos hok]
    cases inLoop with
    | true =>
      simp only [if_true, Option.ite_none_right_eq_some, Option.some.injEq] at hst
      obtain ⟨hu, rfl⟩ := hst
      rw [← huser] at hu
      refine ⟨_, (if_pos rfl).trans (if_pos hu), ?_⟩
      have hy : (t.new a when interval repeat_).heap a = some _ := new_heap_self
      exact hnew.addTimerInLoop (hs.owned.new hsnone) (h.away_eq ▸ ht.owned.new htnone)
        (hnew.heap a _ hy) hy drift
    | false =>
      obtain rfl := Option.some.inj hst
      exact ⟨_, rfl, hnew.set_functors (congrArg (·.push (.addTimerInLoop a)) h.functors)⟩
  | cancel inLoop j =>
    cases inLoop with
    | true =>
      simp only [if_true, Option.ite_none_right_eq_some, Option.some.injEq] at hst
      obtain ⟨hu, rfl⟩ := hst
      rw [← huser] at hu
      exact ⟨_, (if_pos rfl).trans (if_pos hu), h.cancelInLoop hs ht j⟩
    | false =>
      obtain rfl := Option.some.inj hst
      exact ⟨_, rfl, h.set_functors (congrArg (·.push (.cancelInLoop j)) h.functors)⟩
  | doPendingFunctors =>
    simp only [Option.ite_none_right_eq_some, Option.some.injEq] at hst
    obtain ⟨hok, rfl⟩ := hst
    rw [← h.handling, ← h.functors] at hok
    exact ⟨_, if_pos hok, h.set_functors (congrArg Batched.swap h.functors)⟩
  | runFunctor drift =>
    simp only at hst
    split at hst
    · next f fs hr =>
      simp only [Option.ite_none_right_eq_some, Option.some.injEq] at hst
      obtain ⟨hn, rfl⟩ := hst
      have hsn : s.handling = none := Option.isNone_iff_eq_none.mp hn
      have htr : t.functors.rest = f :: fs := by rw [h.functors, hr]
      have htn : t.handling = none := h.handling.trans hsn
      exact ⟨_, by simp only [htr, htn]; rfl, h.runTask hs ht hsn hr drift⟩
    · cases hst
  | handleRead delay => exact absurd rfl (hc delay)
  | runTimer =>
    simp only at hst
    split at hst
    · next now expired e todo hh =>
      obtain rfl := Option.some.inj hst
      have hth := h.handling.trans hh
      obtain ⟨y, hy⟩ := ht.next_timer hth
      rw [hth, deref_of (h.heap _ y hy)]
      refine ⟨_, congrArg some (deref_of hy), ?_⟩
      exact h.run (some ⟨now, expired, todo⟩) (.run ⟨e.timer, y.sequence⟩)
    · cases hst
  | reset drift =>
    simp only at hst
    split at hst
    · next now expired hh =>
      obtain rfl := Option.some.inj hst
      have hth := h.handling.trans hh
      refine ⟨_, ?_, h.reset hs ht hh drift⟩
      simp only
      split
      · next hh' =>
        obtain ⟨rfl, rfl, -⟩ := Handling.mk.inj (Option.some.inj (hth.symm.trans hh'))
        rfl
      · next hne => exact absurd hth (hne now expired)
    · cases hst
  | tick n =>
    obtain rfl := Option.some.inj hst
    exact ⟨_, rfl, h.arm (s.clock + n) (t.clock + n) s.timerfd t.timerfd⟩

/-- Every run without another `handleRead`. -/
theorem Without.steps : ∀ {as : List Act} {s t s' : TimerQueue}, Without id s t → TimerInv s →
    TimerInv t → (∀ c ∈ as, ∀ delay, c ≠ .handleRead delay) →
    Steps.run TimerQueue.step s as = some s' →
    ∃ t', Steps.run TimerQueue.step t as = some t' ∧ Without id s' t' ∧ TimerInv s' ∧ TimerInv t' := by
  intro as
  induction as with
  | nil =>
    intro s t s' h hs ht _ hrun
    rw [Steps.run_nil] at hrun
    obtain rfl := Option.some.inj hrun
    exact ⟨t, rfl, h, hs, ht⟩
  | cons c as ih =>
    intro s t s' h hs ht hc hrun
    obtain ⟨u, hu, hrun⟩ := Steps.run_cons_eq_some.mp hrun
    obtain ⟨v, hv, hw⟩ := h.step hs ht (hc c List.mem_cons_self) hu
    obtain ⟨t', ht', hrest⟩ := ih hw (timerInv_stepped hs (step_stepped hu))
      (timerInv_stepped ht (step_stepped hv)) (fun b hb => hc b (List.mem_cons_of_mem c hb)) hrun
    exact ⟨t', Steps.run_cons_eq_some.mpr ⟨v, hv, ht'⟩, hrest⟩

/-! ### Ids -/

theorem Named.quiet (h : Named s) (hq : Quiet s t) : Named t := by
  obtain ⟨es, ht, hes⟩ := hq.trace
  have hnil : es.filterMap TimerEvent.created = [] := by
    rw [List.filterMap_eq_nil_iff]
    intro e he
    obtain ⟨i, rfl⟩ := hes e he
    rfl
  have hcreated : t.created = s.created := by
    rw [created, ht, List.filterMap_append, hnil, List.append_nil]
    rfl
  refine ⟨?_, hcreated ▸ h.distinct, ?_⟩
  · rw [hcreated, hq.numCreated]
    exact h.bound
  · intro a x hx
    obtain ⟨y, hy, hseq⟩ := hq.heap a x hx
    rw [hcreated, ← hseq]
    exact h.live a y hy

theorem Named.emit (h : Named s) {e : TimerEvent} (he : e.created = none) : Named (s.emit e) := by
  have hcreated : (s.emit e).created = s.created := by
    show (s.trace ++ [e]).filterMap TimerEvent.created = _
    simp [created, he]
  exact ⟨hcreated ▸ h.bound, hcreated ▸ h.distinct, fun a x hx => hcreated ▸ h.live a x hx⟩

theorem Named.new (h : Named s) (a : Nat) (when : Int) (interval : Fin (2 ^ 63)) (repeat_ : Bool) :
    Named (s.new a when interval repeat_) := by
  have hcreated : (s.new a when interval repeat_).created = s.created ++ [⟨a, s.numCreated + 1⟩] := by
    show (s.trace ++ [TimerEvent.addTimer ⟨a, s.numCreated + 1⟩]).filterMap _ = _
    rw [List.filterMap_append]
    rfl
  refine ⟨?_, ?_, ?_⟩
  · intro i hi
    rw [hcreated] at hi
    show _ ≤ s.numCreated + 1
    rcases List.mem_append.mp hi with hi | hi
    · have := h.bound i hi
      omega
    · rw [List.mem_singleton.mp hi]
  · rw [hcreated, List.pairwise_append]
    refine ⟨h.distinct, List.pairwise_singleton _ _, ?_⟩
    intro i hi j hj
    rw [List.mem_singleton.mp hj]
    exact Nat.lt_succ_of_le (h.bound i hi)
  · intro b x hx
    rw [hcreated]
    by_cases hb : b = a
    · subst hb
      rw [new_heap_self] at hx
      obtain rfl := Option.some.inj hx
      exact List.mem_append_right _ List.mem_cons_self
    · rw [new_heap_of_ne hb] at hx
      exact List.mem_append_left _ (h.live b x hx)

theorem Named.addTimerInLoop {x : Timer} (h : Named s)
    (ho : Owned s.timers s.activeTimers s.heap (a :: away)) (hx : s.heap a = some x) (drift : Nat) :
    Named (s.addTimerInLoop drift a) := by
  have hput := h.quiet (quiet_put s a x)
  obtain ⟨c, y, heq⟩ := addTimerInLoop_arm ho hx drift
  rw [heq]
  exact ⟨hput.bound, hput.distinct, hput.live⟩

theorem Named.cancelInLoop (h : Named s) (hs : TimerInv s) (id : TimerId) :
    Named (s.cancelInLoop id) := by
  by_cases hi : id ∈ s.activeTimers
  · obtain ⟨x, hx, -, -⟩ := hs.owned.listed id hi
    rw [cancelInLoop_active hs.owned hi hx]
    exact (h.quiet ((quiet_take s id x).trans (quiet_drop _ id.timer x))).emit rfl
  · rw [cancelInLoop_of_not_mem hs.owned.size hi]
    have hemit := h.emit (e := .cancelInLoop id) rfl
    exact ⟨hemit.bound, hemit.distinct, hemit.live⟩

theorem Named.reset {now : Int} {expired : List Entry} (h : Named s) (hs : TimerInv s)
    (hh : s.handling = some ⟨now, expired, []⟩) (drift : Nat) :
    Named { { s with callingExpiredTimers := false }.reset drift expired now with
      handling := none } := by
  obtain ⟨hu, hfold⟩ := foldl_resetOne now (I := fun _ u => Named u)
    (fun e _ u x _ hx hu => hu.quiet (quiet_settle u now hx))
    (s := { s with callingExpiredTimers := false }) (hs.owned_batch hh)
    ⟨h.bound, h.distinct, h.live⟩
  obtain ⟨c, y, heq⟩ := reset_arm rfl hu drift
  rw [heq]
  exact ⟨hfold.bound, hfold.distinct, hfold.live⟩

theorem Named.stepped {c : Act} (h : Named s) (hs : TimerInv s) (hst : Stepped s c t) :
    Named t := by
  cases hst with
  | addTimer a when interval repeat_ drift hfree hmax =>
    exact (h.new a when interval repeat_).addTimerInLoop (hs.owned.new hfree) new_heap_self drift
  | queueAdd a when interval repeat_ drift hfree hmax =>
    have hnew := h.new a when interval repeat_
    exact ⟨hnew.bound, hnew.distinct, hnew.live⟩
  | cancel id => exact h.cancelInLoop hs id
  | queueCancel id => exact ⟨h.bound, h.distinct, h.live⟩
  | doPendingFunctors hr => exact ⟨h.bound, h.distinct, h.live⟩
  | runAdd a fs drift hr hn =>
    obtain ⟨ho, x, hx⟩ := hs.owned_next hn hr
    exact Named.addTimerInLoop (s := { s with functors := s.functors.tail })
      ⟨h.bound, h.distinct, h.live⟩ ho hx drift
  | runCancel id fs drift hr hn =>
    exact Named.cancelInLoop (s := { s with functors := s.functors.tail })
      ⟨h.bound, h.distinct, h.live⟩ (timerInv_tail hs hr rfl) id
  | handleRead delay hn =>
    obtain ⟨active, heq, -⟩ := handleRead_eq hs.owned (fun a x hx => (hs.mortal.live a x hx).1) delay
    rw [heq]
    exact ⟨h.bound, h.distinct, h.live⟩
  | runTimer now expired e todo hh =>
    obtain ⟨x, hx⟩ := hs.next_timer hh
    rw [deref_of hx]
    have hemit := h.emit (e := .run ⟨e.timer, x.sequence⟩) rfl
    exact ⟨hemit.bound, hemit.distinct, hemit.live⟩
  | reset now expired drift hh => exact h.reset hs hh drift
  | tick n => exact ⟨h.bound, h.distinct, h.live⟩

theorem named_run {clock : Int} {as : List Act} (hrun : Steps.run step (init clock) as = some t) :
    TimerInv t ∧ Named t := by
  refine Steps.run_invariant (I := fun s => TimerInv s ∧ Named s) ?_ ?_ hrun
  · rintro s c u ⟨hs, h⟩ hst
    exact ⟨timerInv_stepped hs (step_stepped hst), h.stepped hs (step_stepped hst)⟩
  · exact ⟨timerInv_init clock, by simp [init, created], by simp [init, created], by simp [init]⟩

/-- The queue without the functor, and the cancel. -/
theorem Cancels.eq (hs : TimerInv s) {u : TimerQueue} (h : Cancels s id u t) :
    TimerInv u ∧ t = u.cancelInLoop id := by
  cases h with
  | call h =>
    cases step_stepped h with
    | cancel id => exact ⟨hs, rfl⟩
  | functor hr h =>
    refine ⟨timerInv_tail hs hr rfl, ?_⟩
    cases step_stepped h with
    | runAdd a fs drift hr' hn =>
      rw [hr] at hr'
      cases hr'
    | runCancel j fs drift hr' hn =>
      rw [hr] at hr'
      obtain ⟨hj, -⟩ := List.cons.inj hr'
      obtain rfl := TimerTask.cancelInLoop.inj hj
      rfl

/-- **A cancel touches only the timer that it names.** -/
theorem cancel_frame {clock : Int} {as : List Act} (hrun : Steps.run step (init clock) as = some s)
    {u : TimerQueue} (hc : Cancels s id u t) :
    Named s ∧ Same id u t ∧
    -- the rest of a pass, with and without the cancel
    (∀ bs v, (∀ c ∈ bs, ∀ delay, c ≠ .handleRead delay) → Steps.run step u bs = some v →
      ∃ w, Steps.run step t bs = some w ∧ Same id v w) ∧
    -- a later pass
    ∀ bs p delay q cs v drift w, Steps.run step t bs = some p →
      step p (.handleRead delay) = some q → (∀ c ∈ cs, ∀ d, c ≠ .reset d) →
      Steps.run step q cs = some v → step v (.reset drift) = some w →
      ∃ es, OnePass p (p.getExpired p.clock).2 es w := by
  obtain ⟨hs, hnamed⟩ := named_run hrun
  obtain ⟨hu, rfl⟩ := hc.eq hs
  have hwithout := without_cancelInLoop hu id
  have ht := timerInv_cancelInLoop hu id
  refine ⟨hnamed, hwithout.same hu ht, ?_, ?_⟩
  · intro bs v hbs hv
    obtain ⟨w, hw, hvw, hiv, hiw⟩ := hwithout.steps hu ht hbs hv
    exact ⟨w, hw, hvw.same hiv hiw⟩
  · intro bs p delay q cs v drift w hp hq hcs hv hw
    have hip : TimerInv p :=
      Steps.run_invariant (fun _ _ _ h hs => timerInv_stepped h (step_stepped hs)) ht hp
    exact onePass_of_run hip hq hcs hv hw

/-- A timer is deleted, and a repeating one that is created at its address runs. -/
def reusesAddress : List Act :=
  [.addTimer true 8 50 0 false 0, .tick 200, .handleRead 1, .runTimer, .reset 2,
    .addTimer true 8 60 1000 true 0, .handleRead 1, .runTimer]

/-- The id of the first timer does not keep the second from being put back. -/
theorem cancel_frame_reusesAddress : ∃ s t v w, Steps.run step (init 10) reusesAddress = some s ∧
    step s (.cancel true ⟨8, 1⟩) = some t ∧ Steps.run step s [.reset 2] = some v ∧
    Steps.run step t [.reset 2] = some w ∧ ⟨8, 1⟩ ∈ t.cancelingTimers ∧ ⟨8, 2⟩ ∈ v.activeTimers ∧
    Same ⟨8, 1⟩ s t ∧ Same ⟨8, 1⟩ v w := by
  have hobs : (Steps.run step (init 10) reusesAddress).any (fun s =>
      (step s (.cancel true ⟨8, 1⟩)).any (fun t => decide (⟨8, 1⟩ ∈ t.cancelingTimers)) &&
      (Steps.run step s [.reset 2]).any fun v => decide (⟨8, 2⟩ ∈ v.activeTimers)) = true := by
    decide
  obtain ⟨s, hs, hobs⟩ := (Option.any_eq_true _ _).mp hobs
  obtain ⟨ht, hv⟩ := (Bool.and_eq_true _ _).mp hobs
  obtain ⟨t, ht, htc⟩ := (Option.any_eq_true _ _).mp ht
  obtain ⟨v, hv, hva⟩ := (Option.any_eq_true _ _).mp hv
  obtain ⟨-, hsame, hrest, -⟩ := cancel_frame hs (.call ht)
  obtain ⟨w, hw, hvw⟩ := hrest [.reset 2] v (by simp) hv
  exact ⟨s, t, v, w, hs, ht, hv, hw, of_decide_eq_true htc, of_decide_eq_true hva, hsame, hvw⟩

end

end TimerQueue

end SimpleNet
