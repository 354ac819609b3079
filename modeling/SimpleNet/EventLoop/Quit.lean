import SimpleNet.EventLoop.Functors

/-!
# Quitting a loop

`quit()` may be called on any thread.  On another one it sets `quit_` and then writes the eventfd; on
the loop thread it sets `quit_` only.

`quit_heard`: once `quit_` is set in a loop that has passed its `quit_ = false`, the loop is not
left asleep, polls once more at most, and leaves `loop()` after a number of steps that is bounded by
the functors that are queued.
-/

namespace SimpleNet

/-- The loop thread is in `loop()`, past `quit_ = false`. -/
def Phase.inLoop : Phase → Bool
  | .outside | .entered => false
  | _ => true

namespace EventLoop

open Function (update)

variable {φ : Type} {s t u : EventLoop φ} {a : Act φ}

/-- The steps by which the loop thread goes on in `loop()`. -/
def Act.goesOn : Act φ → Bool
  | .test | .poll _ | .handleRead | .doPendingFunctors | .run | .ret | .finish | .leave => true
  | _ => false

def Act.polls : Act φ → Bool
  | .poll _ => true
  | _ => false

def Act.resets : Act φ → Bool
  | .reset => true
  | _ => false

/-- The steps that queue a functor. -/
def Act.queues : Act φ → Bool
  | .queueInLoop _ | .pushBack _ _ => true
  | _ => false

/-- How far the loop thread is from the end of `loop()` when `quit_` is set. -/
def distance (s : EventLoop φ) : Nat :=
  match s.phase with
  | .outside | .entered => 0
  | .test => 1
  | .dropping => 2
  | .functors false => 3 + 2 * s.functors.rest.length
  | .functors true => 4 + 2 * s.functors.rest.length
  | .handling false => 4 + 2 * s.functors.pending.length
  | .handling true => 5 + 2 * s.functors.pending.length
  | .poll => 6 + 2 * s.functors.pending.length

/-- A `wakeup()` has come, or will. -/
def Rung (s : EventLoop φ) : Prop := 0 < s.wakeups ∨ ∃ n, s.threads n = .quit

/-- A loop that sleeps with `quit_` set will wake up. -/
def Heard (s : EventLoop φ) : Prop := s.phase = .poll → s.quit = true → Rung s

theorem Rung.update (h : Rung s) {n : Nat} {p : Pending} (hn : s.threads n = .idle) :
    0 < s.wakeups ∨ ∃ m, update s.threads n p m = .quit := by
  refine h.imp_right fun ⟨m, hm⟩ => ⟨m, ?_⟩
  have hmn : m ≠ n := by
    rintro rfl
    rw [hn] at hm
    cases hm
  rwa [Function.update_of_ne hmn]

theorem heard_stepped (h : Heard s) (hst : Stepped s a t) : Heard t := by
  cases hst with
  | nested | poll | handleRead => exact fun hp hq => by first | exact h hp hq | cases hp
  | loop | reset | stop | doPendingFunctors | run | ret | finish | leave => exact nofun
  | goOn hp hq =>
    intro _ hq'
    rw [show s.quit = true from hq'] at hq
    cases hq
  | @queueInLoop f hu =>
    intro hp
    rw [queueInLoop_phase] at hp
    rw [hp] at hu
    cases hu
  | quit hu =>
    intro hp
    rw [show s.phase = .poll from hp] at hu
    cases hu
  | pushBack hn => exact fun hp hq => (h hp hq).update hn
  | @setQuit n hn => exact fun _ _ => Or.inr ⟨n, Function.update_self _ _ _⟩
  | wakeup => exact fun _ _ => Or.inl (wakeup_pos s)

theorem distance_push {f : φ} (hp : t.phase = s.phase) (hf : t.functors = s.functors.push f) :
    t.distance ≤ s.distance + 2 := by
  unfold distance
  rw [hp, hf]
  cases s.phase with
  | handling woken => cases woken <;> simp <;> omega
  | functors running => cases running <;> simp
  | _ => simp <;> omega

/-- What a step does when `quit_` is set in `loop()`. -/
structure Quits (s : EventLoop φ) (a : Act φ) (t : EventLoop φ) : Prop where
  kept : t.phase.inLoop = true → t.quit = true
  closer : a.goesOn.toNat + t.distance ≤ s.distance + 2 * a.queues.toNat
  asleep : t.phase = .poll → s.phase = .poll ∧ a.polls = false
  polled : a.polls = true → s.phase = .poll

theorem Quits.of_not_polls (ha : a.polls = false) (hk : t.phase.inLoop = true → t.quit = true)
    (hc : a.goesOn.toNat + t.distance ≤ s.distance + 2 * a.queues.toNat)
    (hp : t.phase = .poll → s.phase = .poll) : Quits s a t where
  kept := hk
  closer := hc
  asleep h := ⟨hp h, ha⟩
  polled h := absurd (ha.symm.trans h) Bool.false_ne_true

theorem quits_stepped (hq : s.phase.inLoop = true → s.quit = true) (hr : a.resets = false)
    (hst : Stepped s a t) : Quits s a t := by
  cases hst with
  | nested => exact .of_not_polls rfl hq (by simp [distance, Act.goesOn]) id
  | loop hu hl =>
    exact .of_not_polls rfl (fun h => by cases h) (by simp [distance, Act.goesOn]) fun h => by cases h
  | reset => cases hr
  | stop hp =>
    exact .of_not_polls rfl (fun h => by cases h) (by simp [distance, Act.goesOn, hp])
      fun h => by cases h
  | goOn hp hn =>
    -- `quit_` is set
    rw [hq (by rw [hp]; rfl)] at hn
    cases hn
  | @poll woken hp hw =>
    refine ⟨fun _ => hq (by rw [hp]; rfl), ?_, (fun h => by cases h), fun _ => hp⟩
    cases woken <;> simp [distance, Act.goesOn, Act.queues, hp] <;> omega
  | handleRead hp =>
    refine .of_not_polls rfl (fun _ => hq (by rw [hp]; rfl)) ?_ fun h => by cases h
    simp [distance, Act.goesOn, Act.queues, hp]
    omega
  | doPendingFunctors hp =>
    refine .of_not_polls rfl (fun _ => hq (by rw [hp]; rfl)) ?_ fun h => by cases h
    simp [distance, Act.goesOn, Act.queues, hp, doPendingFunctors]
    omega
  | run hp hfs =>
    refine .of_not_polls rfl (fun _ => hq (by rw [hp]; rfl)) ?_ fun h => by cases h
    simp [distance, Act.goesOn, Act.queues, hp, hfs, Batched.tail]
    omega
  | ret hp =>
    refine .of_not_polls rfl (fun _ => hq (by rw [hp]; rfl)) ?_ fun h => by cases h
    simp [distance, Act.goesOn, Act.queues, hp]
    omega
  | finish hp hfs =>
    refine .of_not_polls rfl (fun _ => hq (by rw [hp]; rfl)) ?_ fun h => by cases h
    simp [distance, Act.goesOn, Act.queues, hp, hfs]
  | leave hp =>
    refine .of_not_polls rfl (fun _ => hq (by rw [hp]; rfl)) ?_ fun h => by cases h
    simp [distance, Act.goesOn, Act.queues, hp]
  | @queueInLoop f hu =>
    have hd := distance_push (queueInLoop_phase s f) (queueInLoop_functors s f)
    have hphase : (s.queueInLoop f).phase = .poll → s.phase = .poll := fun hp => by
      rwa [queueInLoop_phase] at hp
    refine .of_not_polls rfl (fun hp => ?_) (by simpa [Act.goesOn, Act.queues] using hd) hphase
    rw [queueInLoop_phase] at hp
    rw [show (s.queueInLoop f).quit = s.quit by unfold queueInLoop; split <;> rfl]
    exact hq hp
  | quit hu => exact .of_not_polls rfl (fun _ => rfl) (by simp [distance, Act.goesOn]) id
  | @pushBack n f hn =>
    have hd := distance_push (s := s) (t := { s.pushBack f with threads := update s.threads n .queueInLoop })
      (f := f) rfl rfl
    exact .of_not_polls rfl hq (by simpa [Act.goesOn, Act.queues] using hd) id
  | setQuit hn => exact .of_not_polls rfl (fun _ => rfl) (by simp [distance, Act.goesOn]) id
  | wakeup hn => exact .of_not_polls rfl hq (by simp [distance, Act.goesOn, wakeup]) id

/-- A run after `quit_` was set. -/
theorem quits_run : ∀ {as : List (Act φ)} {s t : EventLoop φ},
    (s.phase.inLoop = true → s.quit = true) → (∀ a ∈ as, a.resets = false) →
    Steps.run step s as = some t → (t.phase.inLoop = true → t.quit = true) ∧
      as.countP Act.goesOn + t.distance ≤ s.distance + 2 * as.countP Act.queues ∧
      as.countP Act.polls ≤ if s.phase = .poll then 1 else 0 := by
  intro as
  induction as with
  | nil =>
    intro s t hq _ hrun
    obtain rfl := Option.some.inj hrun
    exact ⟨hq, by simp, Nat.zero_le _⟩
  | cons a as ih =>
    intro s t hq hr hrun
    obtain ⟨u, hu, hrun⟩ := Steps.run_cons_eq_some.mp hrun
    have hstep := quits_stepped hq (hr a List.mem_cons_self) (step_stepped hu)
    obtain ⟨hkept, hclose, hpoll⟩ := ih hstep.kept (fun b hb => hr b (List.mem_cons_of_mem a hb)) hrun
    have hcloser := hstep.closer
    refine ⟨hkept, ?_, ?_⟩
    · rw [List.countP_cons, List.countP_cons]
      cases hg : a.goesOn <;> cases hqs : a.queues <;> simp [hg, hqs] at hcloser ⊢ <;> omega
    · rw [List.countP_cons]
      cases hp : a.polls with
      | false =>
        refine Nat.le_trans hpoll ?_
        split
        · next hup => exact Nat.le_of_eq (if_pos (hstep.asleep hup).1).symm
        · exact Nat.zero_le _
      | true =>
        have hup : u.phase ≠ .poll := fun hup => by simpa [hp] using (hstep.asleep hup).2
        rw [if_pos (hstep.polled hp)]
        rw [if_neg hup] at hpoll
        simp only [if_true]
        omega

/-- **`quit()` is heard.**  With `quit_` set, a loop in `poll` is woken, and `loop()` ends after one
more `poll` at most and a bounded number of steps. -/
theorem quit_heard {as bs : List (Act φ)} (hrun : Steps.run step init as = some s)
    (hq : s.quit = true) (hr : ∀ a ∈ bs, a.resets = false) (hrest : Steps.run step s bs = some t) :
    (t.phase = .poll → Rung t) ∧ (t.phase.inLoop = true → t.quit = true) ∧
    bs.countP Act.polls ≤ (if s.phase = .poll then 1 else 0) ∧
    bs.countP Act.goesOn + t.distance ≤ s.distance + 2 * bs.countP Act.queues := by
  have hinv : ∀ {as : List (Act φ)} {s t : EventLoop φ}, Heard s → Steps.run step s as = some t →
      Heard t := fun h hrun =>
    Steps.run_invariant (fun _ _ _ h hs => heard_stepped h (step_stepped hs)) h hrun
  have hinit : Heard (init : EventLoop φ) := fun hp => by cases hp
  have hheard : Heard t := hinv (hinv hinit hrun) hrest
  obtain ⟨hkept, hclose, hpoll⟩ := quits_run (fun _ => hq) hr hrest
  exact ⟨fun hp => hheard hp (hkept (by rw [hp]; rfl)), hkept, hpoll, hclose⟩

/-- Another thread quits the loop while it sleeps, and a third one queues a functor. -/
def quitAsleep : List (Act Nat) := [.loop, .reset, .test, .setQuit 0]

theorem quit_heard_asleep : ∃ s t, Steps.run step init quitAsleep = some s ∧ s.phase = .poll ∧
    Steps.run step s [.pushBack 1 7, .wakeup 0, .poll true, .handleRead, .doPendingFunctors, .run, .ret,
      .finish, .leave, .test] = some t ∧ t.phase = .outside ∧ 8 ≤ s.distance + 2 := by
  have hobs : (Steps.run step init quitAsleep).any (fun s => decide (s.phase = .poll ∧ s.quit = true) &&
      (Steps.run step s [.pushBack 1 7, .wakeup 0, .poll true, .handleRead, .doPendingFunctors, .run, .ret,
        .finish, .leave, .test]).any fun t => decide (t.phase = .outside)) = true := by decide
  obtain ⟨s, hs, hobs⟩ := (Option.any_eq_true _ _).mp hobs
  obtain ⟨hsp, hobs⟩ := (Bool.and_eq_true _ _).mp hobs
  obtain ⟨hp, hq⟩ := of_decide_eq_true hsp
  obtain ⟨t, ht, hobs⟩ := (Option.any_eq_true _ _).mp hobs
  obtain ⟨-, -, -, hclose⟩ := quit_heard hs hq (by decide) ht
  exact ⟨s, t, hs, hp, ht, of_decide_eq_true hobs, Nat.le_trans (Nat.le_add_right _ _) hclose⟩

end EventLoop

end SimpleNet
