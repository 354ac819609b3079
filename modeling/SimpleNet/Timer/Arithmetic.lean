import SimpleNet.Timer.Ops

/-!
# The arithmetic of expirations

`runAfter`, `runEvery` and `Timer::restart` add a delay to the current time, and
`howMuchTimeFromNow` takes the current time off an expiration; neither looks at the bounds of
`int64_t`.  `exact_iff` says for which numbers all of them are exact: the sum is below `2 ^ 63`,
and the difference not below `-2 ^ 63`.  A sum that is not comes out before the current time
(`addTime_past`), a difference that is not as a span of more than `2 ^ 62` microseconds
(`lt_nanos_howMuchTimeFromNow`).  The seconds and nanoseconds are normalised in any case.
-/

namespace SimpleNet

/-- The number fits in an `int64_t`. -/
def Fits (i : Int) : Prop := -2 ^ 63 ≤ i ∧ i < 2 ^ 63

instance (i : Int) : Decidable (Fits i) := inferInstanceAs (Decidable (_ ∧ _))

theorem int64_of_fits {i : Int} (h : Fits i) : int64 i = i := by
  obtain ⟨h1, h2⟩ := h
  refine Int.bmod_eq_of_le ?_ ?_ <;> omega

/-- The number that fits, among those that are the same modulo 2^64. -/
theorem int64_eq_of_fits {i j : Int} (k : Int) (hj : Fits j) (h : i = j + (2 ^ 64 : Nat) * k) :
    int64 i = j := by
  rw [h, int64, Int.add_mul_bmod_self_left]
  exact int64_of_fits hj

/-! ### The sum -/

section

variable {now : Int} {d : Fin (2 ^ 63)}

theorem addTime_exact (h0 : 0 < now) (h : now + d < 2 ^ 63) : addTime now d = now + d :=
  int64_of_fits ⟨by omega, h⟩

/-- A sum that does not fit comes out negative. -/
theorem addTime_past (h1 : now < 2 ^ 62) (h : 2 ^ 63 ≤ now + d) :
    addTime now d = now + d - 2 ^ 64 ∧ addTime now d < 0 := by
  have hd : (d : Int) < 2 ^ 63 := by exact_mod_cast d.isLt
  have hadd : addTime now d = now + d - 2 ^ 64 :=
    int64_eq_of_fits 1 ⟨by omega, by omega⟩ (by omega)
  exact ⟨hadd, by omega⟩

theorem addTime_eq_add_iff (h0 : 0 < now) (h1 : now < 2 ^ 62) :
    addTime now d = now + d ↔ now + d < 2 ^ 63 := by
  constructor
  · intro h
    by_contra hge
    have := (addTime_past (d := d) h1 (by omega)).1
    omega
  · exact addTime_exact h0

end

/-! ### The difference -/

/-- The time span in nanoseconds. -/
def Timespec.nanos (ts : Timespec) : Int := ts.tv_sec * 1000000000 + ts.tv_nsec

/-- `tv_nsec` is below a second, and neither is negative. -/
def Timespec.Normalised (ts : Timespec) : Prop :=
  0 ≤ ts.tv_nsec ∧ ts.tv_nsec < 1000000000 ∧ 0 ≤ ts.tv_sec

section

variable {now when : Int}

theorem howMuchTimeFromNow_eq (now when : Int) : howMuchTimeFromNow now when =
    ⟨max (int64 (when - now)) 100 / 1000000, max (int64 (when - now)) 100 % 1000000 * 1000⟩ := by
  have hmax : (if int64 (when - now) < 100 then 100 else int64 (when - now)) =
      max (int64 (when - now)) 100 := by
    split <;> omega
  have h0 : 0 ≤ max (int64 (when - now)) 100 := by omega
  simp only [howMuchTimeFromNow, hmax]
  rw [Int.tdiv_eq_ediv_of_nonneg h0, Int.tmod_eq_emod_of_nonneg h0]

theorem normalised_howMuchTimeFromNow (now when : Int) :
    (howMuchTimeFromNow now when).Normalised := by
  rw [howMuchTimeFromNow_eq]
  refine ⟨?_, ?_, ?_⟩ <;> simp only <;> omega

theorem nanos_howMuchTimeFromNow (now when : Int) :
    (howMuchTimeFromNow now when).nanos = 1000 * max (int64 (when - now)) 100 := by
  rw [howMuchTimeFromNow_eq]
  simp only [Timespec.nanos]
  omega

/-- A difference that does not fit comes out as a span of more than 146000 years. -/
theorem lt_nanos_howMuchTimeFromNow (h1 : now < 2 ^ 62) (hw : Fits when)
    (h : when - now < -2 ^ 63) : 1000 * 2 ^ 62 < (howMuchTimeFromNow now when).nanos := by
  obtain ⟨hlow, -⟩ := hw
  have hsub : int64 (when - now) = when - now + 2 ^ 64 :=
    int64_eq_of_fits (-1) ⟨by omega, by omega⟩ (by omega)
  rw [nanos_howMuchTimeFromNow, hsub]
  omega

theorem nanos_eq_max_iff (h0 : 0 < now) (h1 : now < 2 ^ 62) (hw : Fits when) :
    (howMuchTimeFromNow now when).nanos = 1000 * max (when - now) 100 ↔ -2 ^ 63 ≤ when - now := by
  obtain ⟨hlow, hhigh⟩ := id hw
  constructor
  · intro h
    by_contra hlt
    have := lt_nanos_howMuchTimeFromNow h1 hw (by omega)
    omega
  · intro h
    rw [nanos_howMuchTimeFromNow, int64_of_fits ⟨h, by omega⟩]

end

/-! ### The calls -/

namespace TimerQueue

/-- `EventLoop::runAt`. -/
def Act.runAt (inLoop : Bool) (a : Nat) (time : Int) (drift : Nat) : Act :=
  .addTimer inLoop a time 0 false drift

/-- `EventLoop::runAfter`, with the time that it reads. -/
def Act.runAfter (now : Int) (inLoop : Bool) (a : Nat) (delay : Fin (2 ^ 63)) (drift : Nat) : Act :=
  .runAt inLoop a (addTime now delay) drift

/-- `EventLoop::runEvery`; a positive interval may be less than a microsecond. -/
def Act.runEvery (now : Int) (inLoop : Bool) (a : Nat) (interval : Fin (2 ^ 63)) (repeat_ : Bool)
    (drift : Nat) : Act :=
  .addTimer inLoop a (addTime now interval) interval repeat_ drift

section

variable {s t : TimerQueue} {a : Nat}

@[simp] theorem check_heap {p : Prop} [Decidable p] : (s.check p).heap = s.heap := by
  unfold check
  split <;> rfl

theorem insert_heap : (s.insert a).heap = s.heap := by
  unfold insert deref
  split
  · simp
  · rfl

theorem addTimerInLoop_heap (drift : Nat) : (s.addTimerInLoop drift a).heap = s.heap := by
  unfold addTimerInLoop
  simp only
  split
  · unfold deref
    split <;> exact insert_heap
  · exact insert_heap

/-- The timer that `addTimer` makes. -/
theorem addTimer_heap {inLoop : Bool} {when : Int} {interval : Fin (2 ^ 63)} {repeat_ : Bool}
    {drift : Nat} (h : step s (.addTimer inLoop a when interval repeat_ drift) = some t) :
    t.heap a = some ⟨when, interval, repeat_, s.numCreated + 1⟩ := by
  unfold step at h
  split at h
  · cases h
  · simp only at h
    split_ifs at h <;> cases h
    · rw [addTimerInLoop_heap, new_heap_self]
    · exact new_heap_self

end

/-- What the arithmetic is to give: with a delay `d` at the time `now`, and for an expiration
`when` at the time `now'`. -/
structure Exact (now now' when : Int) (d : Fin (2 ^ 63)) : Prop where
  runAfter : ∀ s t inLoop a drift, step s (.runAfter now inLoop a d drift) = some t →
    ∃ x, t.heap a = some x ∧ x.expiration = now + d ∧ now ≤ x.expiration
  runEvery : ∀ s t inLoop a repeat_ drift, step s (.runEvery now inLoop a d repeat_ drift) = some t →
    ∃ x, t.heap a = some x ∧ x.expiration = now + d ∧ now ≤ x.expiration
  restart : ∀ x : Timer, x.repeat_ = true → x.interval = d →
    (x.restart now).expiration = now + d ∧ now ≤ (x.restart now).expiration
  normalised : (howMuchTimeFromNow now' when).Normalised
  span : (howMuchTimeFromNow now' when).nanos = 1000 * max (when - now') 100

section

variable {now now' when : Int} {d : Fin (2 ^ 63)}

theorem restart_expiration {x : Timer} (hr : x.repeat_ = true) :
    (x.restart now).expiration = addTime now x.interval := by
  rw [Timer.restart, if_pos hr]

/-- **The arithmetic is exact** when the sum and the difference are within the bounds. -/
theorem exact_iff (h0 : 0 < now) (hle : now ≤ now') (h1 : now' < 2 ^ 62) (hw : Fits when) :
    Exact now now' when d ↔ now + d < 2 ^ 63 ∧ -2 ^ 63 ≤ when - now' := by
  have hsum := addTime_eq_add_iff (d := d) h0 (by omega)
  have hdiff := nanos_eq_max_iff (by omega) h1 hw
  have hd : (0 : Int) ≤ d := Int.natCast_nonneg _
  constructor
  · intro h
    have hr := (h.restart ⟨0, d, true, 0⟩ rfl rfl).1
    rw [restart_expiration rfl] at hr
    exact ⟨hsum.mp hr, hdiff.mp h.span⟩
  · rintro ⟨hs, hw'⟩
    have hadd : addTime now d = now + d := hsum.mpr hs
    have hpast : now ≤ addTime now d := by omega
    exact {
      runAfter := fun s t inLoop a drift h => ⟨_, addTimer_heap h, hadd, hpast⟩
      runEvery := fun s t inLoop a repeat_ drift h => ⟨_, addTimer_heap h, hadd, hpast⟩
      restart := by
        rintro x hr rfl
        rw [restart_expiration hr]
        exact ⟨hadd, hpast⟩
      normalised := normalised_howMuchTimeFromNow now' when
      span := hdiff.mpr hw' }

theorem exact_iff_second :
    Exact 1700000000000000 1700000000000500 1700000001000000 1000000 :=
  (exact_iff (by decide) (by decide) (by decide) (by decide)).mpr (by decide)

/-- The longest delay wraps, and so does the time that is left to the earliest timestamp. -/
theorem not_exact :
    ¬ (∀ (now now' when : Int) (d : Fin (2 ^ 63)), 0 < now → now ≤ now' → now' < 2 ^ 62 →
      Fits when → Exact now now' when d) ∧
    ¬ Exact 1700000000000000 1700000000000000 0 ⟨2 ^ 63 - 1, by decide⟩ ∧
    ¬ Exact 1700000000000000 1700000000000000 (-2 ^ 63) 0 := by
  have hsum : ¬ Exact 1700000000000000 1700000000000000 0 ⟨2 ^ 63 - 1, by decide⟩ := by
    intro h
    exact absurd (h.restart ⟨0, ⟨2 ^ 63 - 1, by decide⟩, true, 0⟩ rfl rfl).1 (by decide)
  have hspan : ¬ Exact 1700000000000000 1700000000000000 (-2 ^ 63) 0 := by
    intro h
    exact absurd h.span (by decide)
  refine ⟨fun h => hsum ?_, hsum, hspan⟩
  exact h _ _ _ _ (by decide) (by decide) (by decide) (by decide)

/-- A timer of `runAfter` that does not wrap is armed for what is left of its delay. -/
theorem nanos_addTime (h0 : 0 < now) (hle : now ≤ now') (h1 : now' < 2 ^ 62)
    (hs : now + d < 2 ^ 63) :
    (howMuchTimeFromNow now' (addTime now d)).nanos = 1000 * max (now + d - now') 100 := by
  have hd : (0 : Int) ≤ d := Int.natCast_nonneg _
  rw [addTime_exact h0 hs]
  exact (nanos_eq_max_iff (by omega) h1 ⟨by omega, hs⟩).mpr (by omega)

end

end TimerQueue

end SimpleNet
