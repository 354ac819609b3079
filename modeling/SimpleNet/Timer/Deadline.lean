import SimpleNet.Timer.Arithmetic
import SimpleNet.Timer.Sets

/-!
# The deadline of the timerfd

`resetTimerfd` is called for an insert that changes the earliest timer, and at the end of
`handleRead` for the earliest timer if its expiration is valid.  The timerfd takes a span of
time from the moment of the call, which `howMuchTimeFromNow` has computed a little earlier: its
deadline is later than the expiration by the time between the two (`armed_late`).

`armed_in_time`: between two passes of `handleRead`, the timerfd is armed with a deadline not
after the earliest expiration plus this drift, or 100 microseconds after the call.  No timer is
stranded: a cancel only moves the earliest expiration back, and a timer that `reset` does not
arm for has expired before the clock started, so that its insert did.
-/

namespace SimpleNet

open Function (update)

/-- A sum that comes out between the bounds did not wrap. -/
theorem addTime_eq {now clock : Int} {delta : Fin (2 ^ 63)} (hn : now ≤ clock)
    (hf : Fits (addTime now delta - clock)) (h0 : 0 < now) : addTime now delta = now + delta := by
  obtain ⟨h1, -⟩ := hf
  have hd : (delta : Int) < 2 ^ 63 := by exact_mod_cast delta.isLt
  have hd0 : (0 : Int) ≤ delta := Int.natCast_nonneg _
  obtain ⟨k, hk⟩ : ∃ k : Int, addTime now delta = now + delta - (2 ^ 64 : Nat) * k :=
    ⟨_, Int.bmod_eq_self_sub_mul_bdiv _ _⟩
  have hlt : addTime now delta < (2 ^ 64 + 1) / 2 := Int.bmod_lt (by decide)
  omega

/-- The span is the time that is left, and no less than 100 microseconds. -/
theorem micros_howMuchTimeFromNow {now when : Int} (h : Fits (when - now)) :
    (howMuchTimeFromNow now when).micros = max 100 (when - now) := by
  have hr : 0 ≤ max (when - now) 100 % 1000000 * 1000 := by omega
  rw [howMuchTimeFromNow_eq, int64_of_fits h]
  simp only [Timespec.micros, Int.tdiv_eq_ediv_of_nonneg hr]
  omega

namespace TimerQueue

/-- Between two passes of `handleRead`, the timerfd is armed early enough for the earliest timer. -/
def ArmedInTime (s : TimerQueue) : Prop :=
  s.handling = none → ∀ e, s.timers.first = some e →
    ∃ x, s.timerfd = some x ∧ x.deadline ≤ max (e.when + x.drift) (x.armedAt + 100)

/-- Where the expirations minus the current time fit in an `int64_t`. -/
def FitsOk (s : TimerQueue) : Act → Prop
  | .addTimer true _ when _ _ _ => Fits (when - s.clock)
  | .runFunctor _ => ∀ f ∈ s.functors.rest.head?, ∀ a ∈ f.added, ∀ t ∈ s.heap a,
      Fits (t.expiration - s.clock)
  | .reset _ => (∀ e ∈ s.timers.elems, Fits (e.when - s.clock)) ∧ ∀ h ∈ s.handling,
      ∀ e ∈ h.expired, ∀ t ∈ s.heap e.timer, t.repeat_ = true →
        Fits (addTime h.now t.interval - s.clock)
  | _ => True

instance (s : TimerQueue) : (c : Act) → Decidable (FitsOk s c)
  | .addTimer true _ _ _ _ _ => inferInstanceAs (Decidable (Fits _))
  | .runFunctor _ => inferInstanceAs (Decidable (∀ f ∈ s.functors.rest.head?, _))
  | .reset _ => inferInstanceAs (Decidable (_ ∧ ∀ h ∈ s.handling, _))
  | .addTimer false _ _ _ _ _ | .cancel _ _ | .doPendingFunctors | .handleRead _ | .runTimer
  | .tick _ => .isTrue trivial

/-- The timerfd was armed early enough for an expiration. -/
def Early (fd : Option Arming) (when : Int) : Prop :=
  ∃ x, fd = some x ∧ x.deadline ≤ max (when + x.drift) (x.armedAt + 100)

/-- During `handleRead` the timerfd is armed for what `reset` will not arm for. -/
structure DeadlineInv (s : TimerQueue) : Prop where
  clock : 0 < s.clock
  now : ∀ h ∈ s.handling, 0 < h.now ∧ h.now ≤ s.clock
  armed : ∀ e, s.timers.first = some e → s.handling = none ∨ e.when ≤ 0 → Early s.timerfd e.when

section

variable {s t : TimerQueue} {a : Nat} {away : List Nat} {fd : Option Arming} {u v : Int}

theorem Early.mono (h : Early fd u) (huv : u ≤ v) : Early fd v := by
  obtain ⟨x, hx, hd⟩ := h
  exact ⟨x, hx, by omega⟩

theorem early_resetTimerfd (h : Fits (u - s.clock)) (drift : Nat) :
    Early (s.resetTimerfd drift u).timerfd u := by
  refine ⟨_, rfl, ?_⟩
  simp only
  rw [micros_howMuchTimeFromNow h]
  omega

/-- Fewer timers, the same timerfd. -/
theorem DeadlineInv.subset (h : DeadlineInv s) (hc : t.clock = s.clock) (hh : t.handling = s.handling)
    (hf : t.timerfd = s.timerfd) (ht : ∀ e ∈ t.timers, e ∈ s.timers) : DeadlineInv t where
  clock := hc ▸ h.clock
  now k hk := by
    rw [hc]
    exact h.now k (hh ▸ hk)
  armed e he hcase := by
    obtain ⟨hmem, -⟩ := SortedSet.first_eq_some.mp he
    obtain ⟨d, hd⟩ := SortedSet.exists_first (ht e hmem)
    have hle : d.when ≤ e.when := by
      rcases Entry.le_iff.mp ((SortedSet.first_eq_some.mp hd).2 e (ht e hmem)) with h' | h' <;> omega
    rw [hf]
    refine (h.armed d hd ?_).mono hle
    rw [hh] at hcase
    exact hcase.imp_right hle.trans

/-- A timer that is inserted changes the earliest expiration only when the timerfd is armed for
it. -/
theorem deadlineInv_addTimerInLoop {x : Timer} (h : DeadlineInv s)
    (ho : Owned s.timers s.activeTimers s.heap (a :: away)) (hx : s.heap a = some x)
    (hfits : Fits (x.expiration - s.clock)) (drift : Nat) : DeadlineInv (s.addTimerInLoop drift a) := by
  have hclock : 0 < s.clock + drift := by
    have := h.clock
    omega
  rw [addTimerInLoop_eq ho hx]
  split
  · next hch =>
    refine ⟨hclock, ?_, ?_⟩
    · intro k hk
      have := h.now k hk
      show 0 < k.now ∧ k.now ≤ s.clock + drift
      omega
    · -- the new entry is the first
      intro e he _
      obtain ⟨hmem, hmin⟩ := SortedSet.first_eq_some.mp he
      have hle : x.expiration ≤ e.when := by
        rcases SortedSet.mem_insert.mp hmem with rfl | hmem
        · exact le_rfl
        · obtain ⟨d, hd⟩ := SortedSet.exists_first hmem
          rw [earliestChanged, hd, hx] at hch
          have hlt : x.expiration < d.when := of_decide_eq_true hch
          rcases Entry.le_iff.mp ((SortedSet.first_eq_some.mp hd).2 e hmem) with h' | h' <;> omega
      exact (early_resetTimerfd (s := s.put a x) hfits drift).mono hle
  · next hch =>
    refine ⟨h.clock, h.now, ?_⟩
    intro e he hcase
    obtain ⟨hmem, hmin⟩ := SortedSet.first_eq_some.mp he
    cases hd : s.timers.first with
    | none =>
      rw [earliestChanged, hd] at hch
      exact absurd rfl hch
    | some d =>
      rw [earliestChanged, hd, hx] at hch
      have hle : d.when ≤ x.expiration := by
        have : ¬ x.expiration < d.when := fun hlt => hch (decide_eq_true hlt)
        omega
      obtain ⟨hdm, hdmin⟩ := SortedSet.first_eq_some.mp hd
      have hde : d.when ≤ e.when := by
        rcases SortedSet.mem_insert.mp hmem with rfl | hmem
        · exact hle
        · rcases Entry.le_iff.mp (hdmin e hmem) with h' | h' <;> omega
      exact (h.armed d hd (hcase.imp_right hde.trans)).mono hde

theorem deadlineInv_cancelInLoop (hi : TimerInv s) (h : DeadlineInv s) (id : TimerId) :
    DeadlineInv (s.cancelInLoop id) := by
  by_cases hid : id ∈ s.activeTimers
  · obtain ⟨x, hx, -, -⟩ := hi.owned.listed id hid
    rw [cancelInLoop_active hi.owned hid hx]
    exact h.subset rfl rfl rfl fun e he => (SortedSet.mem_erase.mp he).2
  · rw [cancelInLoop_of_not_mem hi.owned.size hid]
    exact h.subset rfl rfl rfl fun e he => he

/-- The queue while `reset` puts timers back; `rest` is still to come. -/
structure PutsBack (s : TimerQueue) (expired rest : List Entry) (u : TimerQueue) : Prop where
  resets : Resets { s with callingExpiredTimers := false } u
  rest : ∀ e ∈ rest, e ∈ expired ∧ u.heap e.timer = s.heap e.timer
  old : ∀ e ∈ s.timers, e ∈ u.timers
  new : ∀ e ∈ u.timers, e ∈ s.timers ∨ 0 < e.when ∧ Fits (e.when - s.clock)

/-- A repeating timer gets an expiration after `now`. -/
theorem PutsBack.settle {now : Int} {expired rest : List Entry} {e : Entry} {u : TimerQueue}
    {x : Timer} (hu : PutsBack s expired (e :: rest) u) (hnow : 0 < now) (hle : now ≤ s.clock)
    (hne : ∀ d ∈ rest, d.timer ≠ e.timer) (hx : u.heap e.timer = some x)
    (hfit : ∀ d ∈ expired, ∀ y, s.heap d.timer = some y → y.repeat_ = true →
      Fits (addTime now y.interval - s.clock)) :
    PutsBack s expired rest (u.settle now e.timer x) := by
  refine ⟨hu.resets.settle now e.timer x, ?_, ?_, ?_⟩
  · intro d hd
    obtain ⟨hmem, hsame⟩ := hu.rest d (List.mem_cons_of_mem e hd)
    exact ⟨hmem, (settle_heap_of_ne u now x (hne d hd)).trans hsame⟩
  · intro d hd
    unfold TimerQueue.settle
    split
    · exact SortedSet.mem_insert.mpr (Or.inr (hu.old d hd))
    · exact hu.old d hd
  · intro d hd
    unfold TimerQueue.settle at hd
    split at hd
    · next hre =>
      rcases SortedSet.mem_insert.mp hd with rfl | hd
      · have hexp : (x.restart now).expiration = addTime now x.interval := by
          rw [Timer.restart, if_pos hre.1]
        obtain ⟨hmem, hsame⟩ := hu.rest e List.mem_cons_self
        have hf := hfit e hmem x (hsame ▸ hx) hre.1
        have hd0 : (0 : Int) ≤ x.interval := Int.natCast_nonneg _
        rw [hexp]
        refine Or.inr ⟨?_, hf⟩
        show 0 < addTime now x.interval
        rw [addTime_eq hle hf hnow]
        exact Int.add_pos_of_pos_of_nonneg hnow hd0
      · exact hu.new d hd
    · exact hu.new d hd

/-- `reset` puts back timers that expire after the clock started, and arms for the earliest. -/
theorem deadlineInv_reset {now : Int} {expired : List Entry} (hi : TimerInv s)
    (h : DeadlineInv s) (hh : s.handling = some ⟨now, expired, []⟩) (drift : Nat)
    (hok : FitsOk s (.reset drift)) :
    DeadlineInv { { s with callingExpiredTimers := false }.reset drift expired now with
      handling := none } := by
  obtain ⟨hfit, hrepeat⟩ := hok
  obtain ⟨hnow, hle⟩ := h.now _ hh
  obtain ⟨hfold, hr, -, hold, hnew⟩ := foldl_resetOne now (I := PutsBack s expired)
    (fun e rest u x ho hx hu => hu.settle hnow hle (fun d hd hde =>
      (List.nodup_cons.mp ho.nodup).1 (List.mem_append_left _ (hde ▸ List.mem_map_of_mem hd))) hx
      (hrepeat _ hh))
    (s := { s with callingExpiredTimers := false }) (hi.owned_batch hh)
    ⟨⟨rfl, rfl, rfl, rfl, rfl, rfl, rfl, rfl, rfl⟩, fun e he => ⟨he, rfl⟩, fun e he => he,
      fun e he => Or.inl he⟩
  rw [reset_eq rfl hfold]
  generalize List.foldl _ _ _ = u at hfold hr hold hnew
  have hc : u.clock = s.clock := hr.clock
  have hpos : 0 < u.clock := hc ▸ h.clock
  cases hf : u.timers.first with
  | none =>
    refine ⟨hpos, fun k hk => (by cases hk), ?_⟩
    intro e he
    cases hf.symm.trans he
  | some e =>
    obtain ⟨hmem, hmin⟩ := SortedSet.first_eq_some.mp hf
    by_cases hv : Timestamp.valid e.when
    · simp only [hv, if_true]
      have hfits : Fits (e.when - u.clock) := by
        rw [hc]
        exact (hnew e hmem).elim (hfit e) And.right
      refine ⟨?_, fun k hk => (by cases hk), ?_⟩
      · show 0 < u.clock + drift
        omega
      · intro d hd _
        obtain rfl := Option.some.inj (hf.symm.trans hd)
        exact early_resetTimerfd hfits drift
    · simp only [hv]
      have hneg : e.when ≤ 0 := by
        have : ¬ 0 < e.when := fun hp => hv (decide_eq_true hp)
        omega
      have hold' : s.timers.first = some e := by
        refine SortedSet.first_eq_some.mpr ⟨?_, fun d hd => hmin d (hold d hd)⟩
        apply (hnew e hmem).resolve_right
        intro hp
        omega
      refine ⟨hpos, fun k hk => (by cases hk), ?_⟩
      intro d hd _
      obtain rfl := Option.some.inj (hf.symm.trans hd)
      show Early u.timerfd _
      rw [hr.timerfd]
      exact h.armed e hold' (Or.inr hneg)

theorem deadlineInv_handleRead (hi : TimerInv s) (h : DeadlineInv s) (delay : Nat) :
    DeadlineInv (s.handleRead delay) := by
  obtain ⟨active, heq, -⟩ := handleRead_eq hi.owned (fun a x hx => (hi.mortal.live a x hx).1) delay
  have hclock := h.clock
  rw [heq]
  refine ⟨?_, ?_, ?_⟩
  · show 0 < s.clock + delay
    omega
  · intro k hk
    obtain rfl := Option.some.inj hk
    show 0 < s.clock ∧ s.clock ≤ s.clock + delay
    omega
  · -- what has not expired is later than the clock
    intro e he hcase
    obtain ⟨-, hle⟩ := SortedSet.mem_upper.mp (SortedSet.first_eq_some.mp he).1
    have hwhen : s.clock ≤ e.when := by
      rcases Entry.le_iff.mp hle with h' | h'
      · exact h'.le
      · exact h'.1.le
    rcases hcase with hn | hneg
    · cases hn
    · omega

theorem deadlineInv_stepped {c : Act} (hi : TimerInv s) (h : DeadlineInv s) (hok : FitsOk s c)
    (hst : Stepped s c t) : DeadlineInv t := by
  cases hst with
  | addTimer a when interval repeat_ drift hfree hmax =>
    have hnew : DeadlineInv (s.new a when interval repeat_) := ⟨h.clock, h.now, h.armed⟩
    exact deadlineInv_addTimerInLoop hnew (hi.owned.new hfree) new_heap_self hok drift
  | queueAdd a when interval repeat_ drift hfree hmax => exact ⟨h.clock, h.now, h.armed⟩
  | cancel id => exact deadlineInv_cancelInLoop hi h id
  | queueCancel id => exact ⟨h.clock, h.now, h.armed⟩
  | doPendingFunctors hr => exact ⟨h.clock, h.now, h.armed⟩
  | runAdd a fs drift hr hn =>
    have htail : DeadlineInv { s with functors := s.functors.tail } := ⟨h.clock, h.now, h.armed⟩
    obtain ⟨ho, x, hx⟩ := hi.owned_next hn hr
    refine deadlineInv_addTimerInLoop htail ho hx (hok (.addTimerInLoop a) ?_ a rfl x hx) drift
    rw [hr]
    rfl
  | runCancel id fs drift hr hn =>
    exact deadlineInv_cancelInLoop (timerInv_tail hi hr rfl) ⟨h.clock, h.now, h.armed⟩ id
  | handleRead delay hn => exact deadlineInv_handleRead hi h delay
  | runTimer now expired e todo hh =>
    obtain ⟨x, hx⟩ := hi.next_timer hh
    rw [deref_of hx]
    refine ⟨h.clock, ?_, fun d hd hcase => h.armed d hd (Or.inr (hcase.resolve_left (by simp)))⟩
    intro k hk
    obtain rfl := Option.some.inj hk
    exact h.now ⟨now, expired, e :: todo⟩ hh
  | reset now expired drift hh => exact deadlineInv_reset hi h hh drift hok
  | tick n =>
    have hclock := h.clock
    refine ⟨?_, ?_, h.armed⟩
    · show 0 < s.clock + n
      omega
    · intro k hk
      have := h.now k hk
      show 0 < k.now ∧ k.now ≤ s.clock + n
      omega

/-- **The timerfd is armed in time** in every run with a positive clock whose steps are
`FitsOk`. -/
theorem armed_in_time {clock : Int} (hclock : 0 < clock) {as : List Act}
    (hrun : Steps.run (Steps.guarded FitsOk step) (init clock) as = some t) : t.ArmedInTime := by
  have h : TimerInv t ∧ DeadlineInv t := by
    refine Steps.run_invariant (I := fun s => TimerInv s ∧ DeadlineInv s) ?_ ?_ hrun
    · rintro s c u ⟨hi, h⟩ hs
      obtain ⟨hok, hs⟩ := Steps.guarded_eq_some.mp hs
      exact ⟨timerInv_stepped hi (step_stepped hs), deadlineInv_stepped hi h hok (step_stepped hs)⟩
    · exact ⟨timerInv_init clock, hclock, by simp [init], by simp [init, SortedSet.first_eq_some]⟩
  exact fun hn e he => h.2.armed e he (Or.inl hn)

/-- A callback adds a timer with a negative expiration and cancels it; a repeating one is put
back. -/
def addsPast : List Act :=
  [.addTimer true 8 50 1000 true 3, .tick 200, .addTimer false 16 700 0 false 0, .handleRead 1,
    .runTimer, .addTimer true 24 (-5) 0 false 2, .cancel true ⟨24, 3⟩, .reset 4, .doPendingFunctors,
    .runFunctor 1]

theorem armed_in_time_past : ∃ t e, Steps.run (Steps.guarded FitsOk step) (init 10) addsPast =
    some t ∧ t.handling.isNone ∧ t.timers.first = some e ∧ t.ArmedInTime := by
  have hobs : (Steps.run (Steps.guarded FitsOk step) (init 10) addsPast).any
      (fun t => decide (t.handling.isNone = true ∧ t.timers.first.isSome = true)) = true := by decide
  obtain ⟨t, ht, hobs⟩ := (Option.any_eq_true _ _).mp hobs
  obtain ⟨h1, h2⟩ := of_decide_eq_true hobs
  obtain ⟨e, he⟩ := Option.isSome_iff_exists.mp h2
  exact ⟨t, e, ht, h1, he, armed_in_time (by decide) ht⟩

/-- The timerfd can be armed for later than the earliest expiration and the time of the call:
between the reading of the clock and the call 50 microseconds pass. -/
theorem armed_late : ∃ t e x, Steps.run (Steps.guarded FitsOk step) (init 10)
      [.addTimer true 8 1000 0 false 50] = some t ∧ t.handling.isNone ∧ t.timers.first = some e ∧
    t.timerfd = some x ∧ t.clock < x.deadline ∧ max e.when (x.armedAt + 100) < x.deadline := by
  refine ⟨_, _, _, rfl, rfl, rfl, rfl, ?_, ?_⟩ <;> decide

end

end TimerQueue

end SimpleNet
