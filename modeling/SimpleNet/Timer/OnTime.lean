import SimpleNet.Timer.Service

/-!
# When the callbacks of a timer run

The results about the service of alarms, read for a timer that `addTimer` returned in a run.

`runs_on_time`: its `m + 1`-st callback does not start before `when + m * interval`, and a timer that
does not repeat runs once at most.  `runs_once`: unless it is cancelled, such a timer has run exactly
once when a pass of `handleRead` has ended that started when it was due.
-/

namespace SimpleNet

open Alarms

namespace TimerQueue

/-- In the run, `addTimer(when, interval)` has returned the id. -/
def Adds (clock : Int) (as : List Act) (id : TimerId) (when : Int) (interval : Fin (2 ^ 63))
    (repeat_ : Bool) : Prop :=
  ∃ s inLoop drift u, (s, .addTimer inLoop id.timer when interval repeat_ drift, u) ∈
    Steps.trail step (init clock) as ∧ id.sequence = s.numCreated + 1

section

variable {clock : Int} {as : List Act} {t : TimerQueue} {id : TimerId} {when : Int}
  {interval : Fin (2 ^ 63)} {repeat_ : Bool}

theorem Adds.created (h : Adds clock as id when interval repeat_) :
    (id, (⟨when, if repeat_ then some interval else none⟩ : Alarm Int (Fin (2 ^ 63)))) ∈
      (labels (init clock) as).filterMap Label.created := by
  obtain ⟨s, inLoop, drift, u, hm, hseq⟩ := h
  refine List.mem_filterMap.mpr ⟨_, List.mem_map_of_mem hm, ?_⟩
  obtain ⟨a, n⟩ := id
  obtain rfl : n = s.numCreated + 1 := hseq
  cases inLoop <;> rfl

theorem count_run (l : List TimerEvent) (id : TimerId) :
    l.count (.run id) = (l.filterMap TimerEvent.ran).count id := by
  rw [List.count_filterMap, List.count]
  refine List.countP_congr fun e _ => ?_
  cases e <;> simp [TimerEvent.ran]

/-- The sum does not overflow, or is taken for a later time. -/
theorem le_addTime {now : Int} {d : Fin (2 ^ 63)} (h : now + d < 2 ^ 63) : now + d ≤ addTime now d := by
  unfold addTime int64
  rw [Int.bmod_eq_emod]
  have := d.isLt
  split <;> omega

/-- **A callback is never early.** -/
theorem runs_on_time (hrun : Steps.run step (init clock) as = some t)
    (hadd : Adds clock as id when interval repeat_)
    (hfit : repeat_ = true → t.clock + interval < 2 ^ 63) :
    (∀ m < t.trace.count (.run id), when + m * interval ≤ t.clock) ∧
    (repeat_ = false → t.trace.count (.run id) ≤ 1) := by
  have hruns := service_run hrun
  rw [count_run, ran_run hrun]
  constructor
  · intro m hm
    have hspaced := not_early (g := (interval : Int)) hruns hadd.created (fun p hp now hle => by
      cases hr : repeat_ with
      | false => simp [hr] at hp
      | true =>
        simp only [hr, if_true, Option.some.injEq] at hp
        subst hp
        change now ≤ t.clock at hle
        have := hfit hr
        exact le_addTime (by omega))
    have := hspaced.past m hm
    rwa [nsmul_eq_mul] at this
  · intro hr
    exact fired_le_one hruns hadd.created (by simp [hr])

/-- A timer every 100 microseconds; the first pass comes late, and the second right after it. -/
def everyHundred : List Act :=
  [.addTimer false 8 50 100 true 0, .doPendingFunctors, .runFunctor 1, .tick 200, .handleRead 1,
    .runTimer, .reset 2, .tick 120, .handleRead 1, .runTimer]

theorem runs_on_time_everyHundred : ∃ t, Steps.run step (init 10) everyHundred = some t ∧
    t.trace.count (.run ⟨8, 1⟩) = 2 ∧ Adds 10 everyHundred ⟨8, 1⟩ 50 100 true ∧ 50 + 1 * 100 ≤ t.clock := by
  have hobs : (Steps.run step (init 10) everyHundred).any (fun t =>
      decide (t.trace.count (.run ⟨8, 1⟩) = 2 ∧ t.clock + 100 < 2 ^ 63)) = true := by decide
  obtain ⟨t, ht, hobs⟩ := (Option.any_eq_true _ _).mp hobs
  obtain ⟨hcount, hfit⟩ := of_decide_eq_true hobs
  have hadd : Adds 10 everyHundred ⟨8, 1⟩ 50 100 true :=
    ⟨init 10, false, 0, _, List.mem_cons_self, rfl⟩
  exact ⟨t, ht, hcount, hadd, (runs_on_time ht hadd fun _ => hfit).1 1 (by omega)⟩

/-- **A single timer runs exactly once.** -/
theorem runs_once {p q v w : TimerQueue} {delay drift : Nat} {bs : List Act}
    (hrun : Steps.run step (init clock) as = some p) (hadd : Adds clock as id when interval false)
    (hcancel : .cancelInLoop id ∉ p.trace) (hqueued : id.timer ∉ p.queued) (hdue : when ≤ p.clock)
    (hq : step p (.handleRead delay) = some q) (hv : Steps.run step q bs = some v)
    (hw : step v (.reset drift) = some w) : w.trace.count (.run id) = 1 := by
  have hruns := service_run hrun
  obtain ⟨hp, hnp⟩ := named_run hrun
  have hsq := service_step hp hnp (step_stepped hq)
  have hiq : TimerInv q ∧ Named q :=
    ⟨timerInv_stepped hp (step_stepped hq), hnp.stepped hp (step_stepped hq)⟩
  obtain ⟨hiv, hsv⟩ := refines_from hiq hv
  have hsw := service_step hiv.1 hiv.2 (step_stepped hw)
  have hnot : ¬ Alarms.Cancelled id (labels (init clock) as) := by
    rw [Alarms.Cancelled, ← cancelled_run hrun]
    intro hm
    obtain ⟨e, he, hei⟩ := List.mem_filterMap.mp hm
    cases e with
    | cancelInLoop j =>
      obtain rfl := Option.some.inj hei
      exact hcancel he
    | addTimer j => cases hei
    | run j => cases hei
    | delete j => cases hei
  have hasked : id ∉ p.service.asked := by
    intro hm
    obtain ⟨r, hr, hri⟩ := List.mem_filterMap.mp hm
    obtain ⟨f, hf, rfl⟩ := List.mem_map.mp hr
    cases f with
    | addTimerInLoop a =>
      obtain rfl := Option.some.inj hri
      exact hqueued (mem_queued.mpr hf)
    | cancelInLoop j => cases hri
  have hone := fired_once hruns hadd.created rfl hnot hasked hdue hsq hsv hsw
  -- the callbacks of the whole run
  have hran' : w.trace.filterMap TimerEvent.ran = fired (labels (init clock) as ++
      p.label (.handleRead delay) :: (labels q bs ++
        [v.label (.reset drift)])) := by
    obtain ⟨es, hes, hshow, -⟩ := shows_stepped hp (step_stepped hq)
    obtain ⟨ds, hds, hshow', -⟩ := shows_stepped hiv.1 (step_stepped hw)
    have hmid := observed_from hiq.1 (fun _ _ h => h.1) hv
    rw [hds, List.filterMap_append, hmid, hes, List.filterMap_append, ran_run hrun, hshow, hshow',
      fired,
      List.filterMap_append, List.filterMap_cons_none rfl, List.filterMap_append, List.append_assoc,
      List.append_assoc]
    rfl
  rw [count_run, hran']
  exact hone

/-- A callback adds a timer, and cancels the one that it is. -/
theorem runs_once_cancelsItself : ∃ p q v w, Steps.run step (init 10)
      [.addTimer false 8 50 0 false 0, .doPendingFunctors, .runFunctor 3, .tick 200] = some p ∧
    step p (.handleRead 1) = some q ∧
    Steps.run step q [.runTimer, .addTimer true 16 60 0 false 0, .cancel true ⟨8, 1⟩] = some v ∧
    step v (.reset 2) = some w ∧ w.trace.count (.run ⟨8, 1⟩) = 1 := by
  have hobs : (Steps.run step (init 10)
      [.addTimer false 8 50 0 false 0, .doPendingFunctors, .runFunctor 3, .tick 200]).any (fun p =>
      decide (.cancelInLoop ⟨8, 1⟩ ∉ p.trace ∧ 8 ∉ p.queued ∧ 50 ≤ p.clock) &&
      (step p (.handleRead 1)).any fun q =>
        (Steps.run step q [.runTimer, .addTimer true 16 60 0 false 0, .cancel true ⟨8, 1⟩]).any fun v =>
          (step v (.reset 2)).isSome) = true := by decide
  obtain ⟨p, hp, hobs⟩ := (Option.any_eq_true _ _).mp hobs
  obtain ⟨hok, hobs⟩ := (Bool.and_eq_true _ _).mp hobs
  obtain ⟨hcancel, hqueued, hdue⟩ := of_decide_eq_true hok
  obtain ⟨q, hq, hobs⟩ := (Option.any_eq_true _ _).mp hobs
  obtain ⟨v, hv, hobs⟩ := (Option.any_eq_true _ _).mp hobs
  obtain ⟨w, hw⟩ := Option.isSome_iff_exists.mp hobs
  have hadd : Adds 10 [.addTimer false 8 50 0 false 0, .doPendingFunctors, .runFunctor 3, .tick 200]
      ⟨8, 1⟩ 50 0 false := ⟨init 10, false, 0, _, List.mem_cons_self, rfl⟩
  exact ⟨p, q, v, w, hp, hq, hv, hw, runs_once hp hadd hcancel hqueued hdue hq hv hw⟩

end

end TimerQueue

end SimpleNet
