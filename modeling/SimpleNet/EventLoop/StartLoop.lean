import SimpleNet.EventLoop.Basic

/-!
# Starting a loop in a thread of its own

`EventLoopThread::startLoop` and `threadFunc` with the mutex and the condition between them.
Each access to `loop_` and each operation of the mutex and the condition is a step; a wait may
end without a notification.  `loop_` is written under the mutex when it is published, but
`threadFunc` clears it, and `startLoop` reads it for its result, without the mutex.

`startLoop_returns`: `startLoop` returns the loop, and waits only for the notification, in the
runs in which `threadFunc` does not clear `loop_` before `startLoop` has read it; where it does,
`startLoop` never returns the loop.
-/

namespace SimpleNet

/-- Where the thread that calls `startLoop` is. -/
inductive Starter
  /-- before `thread_.start()` -/
  | starting
  | locking
  /-- at `while(loop_ == NULL)` -/
  | testing
  /-- in `cond_.wait()` -/
  | waiting
  /-- woken, without the mutex -/
  | relocking
  /-- the loop is left -/
  | unlocking
  /-- at `return loop_` -/
  | returning
  /-- `loop_` was read; `true` if it was not `NULL` -/
  | returned (loop_ : Bool)
  deriving DecidableEq, Repr

/-- It has the mutex. -/
def Starter.holds : Starter → Bool
  | .testing | .unlocking => true
  | _ => false

/-- Where the new thread is in `threadFunc`. -/
inductive Threading
  | notStarted
  /-- the loop is constructed; `callback_(&loop)` may run -/
  | callback
  /-- the mutex is locked -/
  | locked
  /-- `loop_ = &loop` -/
  | published
  /-- `cond_.notify()` -/
  | notified
  /-- it has given the mutex back -/
  | unlocked
  /-- in `loop.loop()` -/
  | looping
  /-- `loop.loop()` has returned -/
  | returned
  /-- `loop_ = NULL` -/
  | cleared
  /-- the loop is destroyed -/
  | finished
  deriving DecidableEq, Repr

/-- It has the mutex. -/
def Threading.holds : Threading → Bool
  | .locked | .published | .notified => true
  | _ => false

/-- `loop_` points to the loop. -/
def Threading.publishes : Threading → Bool
  | .published | .notified | .unlocked | .looping | .returned => true
  | _ => false

/-- `cond_.notify()` is still to come. -/
def Threading.notifies : Threading → Bool
  | .callback | .locked | .published => true
  | _ => false

def Threading.atEnd : Threading → Bool
  | .cleared | .finished => true
  | _ => false

theorem Threading.notifies_of_not {t : Threading} (hn : t ≠ .notStarted) (hh : t.holds = false)
    (hp : t.publishes = false) (ho : t.atEnd = false) : t.notifies = true := by
  cases t with
  | notStarted => exact absurd rfl hn
  | callback => rfl
  | locked => cases hh
  | published | notified | unlocked | looping | returned => cases hp
  | cleared | finished => cases ho

/-- Whose the mutex is. -/
inductive Holder
  | none | starter | thread
  deriving DecidableEq, Repr

structure StartLoop (φ : Type) where
  loop : EventLoop φ
  /-- `loop_ != NULL` -/
  loop_ : Bool
  mutex : Holder
  starter : Starter
  thread : Threading

namespace StartLoop

variable {φ : Type}

def init : StartLoop φ where
  loop := .init
  loop_ := false
  mutex := .none
  starter := .starting
  thread := .notStarted

/-- The steps of the two threads, and of others that use the loop. -/
inductive Act (φ : Type)
  /-- `thread_.start()` -/
  | start
  | lock
  | test
  /-- `cond_.wait()` ends, also by itself -/
  | wake
  | relock
  | unlock
  /-- `return loop_` -/
  | ret
  /-- a step of the new thread in `callback_` and in `loop()`, or of another thread -/
  | inLoop (a : EventLoop.Act φ)
  | threadLock
  /-- `loop_ = &loop` -/
  | publish
  | notify
  | threadUnlock
  /-- `loop()` is called by `threadFunc` -/
  | enter
  /-- `loop()` has left its while loop and returns -/
  | leave
  /-- `loop_ = NULL` -/
  | clear
  /-- the end of `threadFunc` -/
  | destroy
  deriving DecidableEq, Repr

/-- Who may use the loop: other threads while it exists, its own thread in `callback_` and in
`loop()`. -/
def uses (s : StartLoop φ) : EventLoop.Act φ → Bool
  | .loop => false
  | .pushBack .. | .setQuit _ | .wakeup _ => s.thread != .notStarted && s.thread != .finished
  | _ => s.thread == .callback || s.thread == .looping && s.loop.looping

def step (s : StartLoop φ) : Act φ → Option (StartLoop φ)
  | .start =>
    if s.starter = .starting then some { s with starter := .locking, thread := .callback } else none
  | .lock =>
    if s.starter = .locking ∧ s.mutex = .none then
      some { s with starter := .testing, mutex := .starter }
    else none
  | .test =>
    if s.starter = .testing then
      some (if s.loop_ then { s with starter := .unlocking }
        else { s with starter := .waiting, mutex := .none })
    else none
  | .wake => if s.starter = .waiting then some { s with starter := .relocking } else none
  | .relock =>
    if s.starter = .relocking ∧ s.mutex = .none then
      some { s with starter := .testing, mutex := .starter }
    else none
  | .unlock =>
    if s.starter = .unlocking then some { s with starter := .returning, mutex := .none } else none
  | .ret => if s.starter = .returning then some { s with starter := .returned s.loop_ } else none
  | .inLoop a => if s.uses a then (s.loop.step a).map ({ s with loop := · }) else none
  | .threadLock =>
    if s.thread = .callback ∧ s.mutex = .none then some { s with thread := .locked, mutex := .thread }
    else none
  | .publish =>
    if s.thread = .locked then some { s with thread := .published, loop_ := true } else none
  | .notify =>
    if s.thread = .published then
      some { s with
        thread := .notified
        starter := if s.starter = .waiting then .relocking else s.starter }
    else none
  | .threadUnlock =>
    if s.thread = .notified then some { s with thread := .unlocked, mutex := .none } else none
  | .enter =>
    if s.thread = .unlocked then
      (s.loop.step .loop).map fun l => { s with loop := l, thread := .looping }
    else none
  | .leave =>
    if s.thread = .looping ∧ s.loop.looping = false then some { s with thread := .returned }
    else none
  | .clear =>
    if s.thread = .returned then some { s with thread := .cleared, loop_ := false } else none
  | .destroy => if s.thread = .cleared then some { s with thread := .finished } else none

/-- What each step does. -/
inductive Stepped (s : StartLoop φ) : Act φ → StartLoop φ → Prop
  | start (hs : s.starter = .starting) :
      Stepped s .start { s with starter := .locking, thread := .callback }
  | lock (hs : s.starter = .locking) (hm : s.mutex = .none) :
      Stepped s .lock { s with starter := .testing, mutex := .starter }
  | found (hs : s.starter = .testing) (hl : s.loop_ = true) :
      Stepped s .test { s with starter := .unlocking }
  | wait (hs : s.starter = .testing) (hl : s.loop_ = false) :
      Stepped s .test { s with starter := .waiting, mutex := .none }
  | wake (hs : s.starter = .waiting) : Stepped s .wake { s with starter := .relocking }
  | relock (hs : s.starter = .relocking) (hm : s.mutex = .none) :
      Stepped s .relock { s with starter := .testing, mutex := .starter }
  | unlock (hs : s.starter = .unlocking) :
      Stepped s .unlock { s with starter := .returning, mutex := .none }
  | ret (hs : s.starter = .returning) : Stepped s .ret { s with starter := .returned s.loop_ }
  | inLoop (a : EventLoop.Act φ) (l : EventLoop φ) : Stepped s (.inLoop a) { s with loop := l }
  | threadLock (ht : s.thread = .callback) (hm : s.mutex = .none) :
      Stepped s .threadLock { s with thread := .locked, mutex := .thread }
  | publish (ht : s.thread = .locked) :
      Stepped s .publish { s with thread := .published, loop_ := true }
  | notify (ht : s.thread = .published) : Stepped s .notify { s with
      thread := .notified
      starter := if s.starter = .waiting then .relocking else s.starter }
  | threadUnlock (ht : s.thread = .notified) :
      Stepped s .threadUnlock { s with thread := .unlocked, mutex := .none }
  | enter (l : EventLoop φ) (ht : s.thread = .unlocked) :
      Stepped s .enter { s with loop := l, thread := .looping }
  | leave (ht : s.thread = .looping) : Stepped s .leave { s with thread := .returned }
  | clear (ht : s.thread = .returned) :
      Stepped s .clear { s with thread := .cleared, loop_ := false }
  | destroy (ht : s.thread = .cleared) : Stepped s .destroy { s with thread := .finished }

section

variable {s t : StartLoop φ} {a : Act φ}

theorem step_stepped (hst : step s a = some t) : Stepped s a t := by
  cases a with
  | test =>
    simp only [step, Option.ite_none_right_eq_some, Option.some.injEq] at hst
    obtain ⟨hs, rfl⟩ := hst
    split
    · next hl => exact .found hs hl
    · next hl => exact .wait hs ((Bool.not_eq_true _).mp hl)
  | inLoop a =>
    simp only [step, Option.ite_none_right_eq_some, Option.map_eq_some_iff] at hst
    obtain ⟨-, l, -, rfl⟩ := hst
    exact .inLoop a l
  | enter =>
    simp only [step, Option.ite_none_right_eq_some, Option.map_eq_some_iff] at hst
    obtain ⟨ht, l, -, rfl⟩ := hst
    exact .enter l ht
  | _ =>
    simp only [step, Option.ite_none_right_eq_some, Option.some.injEq] at hst
    obtain ⟨hg, rfl⟩ := hst
    first
    | exact .start hg
    | exact .lock hg.1 hg.2
    | exact .wake hg
    | exact .relock hg.1 hg.2
    | exact .unlock hg
    | exact .ret hg
    | exact .threadLock hg.1 hg.2
    | exact .publish hg
    | exact .notify hg
    | exact .threadUnlock hg
    | exact .leave hg.1
    | exact .clear hg
    | exact .destroy hg

/-! ### The loop is returned -/

/-- `startLoop` returns the loop, and waits only for the notification. -/
structure Returns (s : StartLoop φ) : Prop where
  result : ∀ r, s.starter = .returned r → r = true
  waits : s.starter = .waiting → s.thread.notifies = true
  /-- it does not wait for a thread that has finished -/
  atEnd : ¬ (s.starter = .waiting ∧ s.loop_ = false ∧ s.thread = .finished)

/-- `threadFunc` clears `loop_` only when `startLoop` has read its result. -/
def ClearsLate (s : StartLoop φ) : Act φ → Prop
  | .clear => s.starter = .returned true ∨ s.starter = .returned false
  | _ => True

instance (s : StartLoop φ) : (a : Act φ) → Decidable (ClearsLate s a)
  | .clear => inferInstanceAs (Decidable (_ ∨ _))
  | .start | .lock | .test | .wake | .relock | .unlock | .ret | .inLoop _ | .threadLock | .publish
  | .notify | .threadUnlock | .enter | .leave | .destroy => .isTrue trivial

structure Inv (s : StartLoop φ) : Prop where
  starter : s.mutex = .starter ↔ s.starter.holds = true
  thread : s.mutex = .thread ↔ s.thread.holds = true
  started : s.thread = .notStarted ↔ s.starter = .starting
  loop_ : s.loop_ = s.thread.publishes
  waits : s.starter = .waiting → s.thread.notifies = true
  found : s.starter = .unlocking ∨ s.starter = .returning → s.loop_ = true
  result : ∀ r, s.starter = .returned r → r = true
  atEnd : s.thread.atEnd = true → ∃ r, s.starter = .returned r

theorem inv_init : Inv (init : StartLoop φ) := by
  refine ⟨?_, ?_, ?_, rfl, ?_, ?_, ?_, ?_⟩ <;> simp [init, Starter.holds, Threading.holds, Threading.atEnd]

theorem Inv.returns (h : Inv s) : Returns s := by
  refine ⟨h.result, h.waits, ?_⟩
  rintro ⟨hw, -, hf⟩
  have := h.waits hw
  rw [hf] at this
  cases this

/-- The starter goes on. -/
theorem Inv.starter_step (h : Inv s) (hl : t.loop_ = s.loop_) (ht : t.thread = s.thread)
    (hm : t.mutex = .starter ↔ t.starter.holds = true) (hm' : t.mutex = .thread ↔ s.mutex = .thread)
    (hs : s.starter ≠ .starting ∧ t.starter ≠ .starting)
    (hw : t.starter = .waiting → t.thread.notifies = true)
    (hf : t.starter = .unlocking ∨ t.starter = .returning → t.loop_ = true)
    (hr : ∀ r, t.starter = .returned r → r = true) (ho : ∀ r, s.starter ≠ .returned r) : Inv t where
  starter := hm
  thread := by rw [hm', ht, h.thread]
  started := by rw [ht, h.started]; exact iff_of_false hs.1 hs.2
  loop_ := by rw [hl, ht, h.loop_]
  waits := hw
  found := hf
  result := hr
  atEnd hend := by
    rw [ht] at hend
    obtain ⟨r, hr⟩ := h.atEnd hend
    exact absurd hr (ho r)

/-- The new thread goes on, with what it does to `loop_` and the mutex. -/
theorem Inv.thread_step (h : Inv s) (hs : t.starter = s.starter)
    (hm : t.mutex = .starter ↔ s.mutex = .starter)
    (hm' : t.mutex = .thread ↔ t.thread.holds = true) (hn : s.thread ≠ .notStarted)
    (hn' : t.thread ≠ .notStarted) (hl : t.loop_ = t.thread.publishes)
    (hw : s.starter = .waiting → s.thread.notifies = true → t.thread.notifies = true)
    (hf : s.starter = .unlocking ∨ s.starter = .returning → s.loop_ = true → t.loop_ = true)
    (ho : t.thread.atEnd = true → ∃ r, s.starter = .returned r) : Inv t where
  starter := by rw [hm, hs, h.starter]
  thread := hm'
  started := by
    rw [hs, ← h.started]
    exact iff_of_false hn' hn
  loop_ := hl
  waits hsw := by
    rw [hs] at hsw
    exact hw hsw (h.waits hsw)
  found hsf := by
    rw [hs] at hsf
    exact hf hsf (h.found hsf)
  result r hr := h.result r (hs ▸ hr)
  atEnd hend := hs ▸ ho hend

/-- The new thread goes on without the mutex, after the notification. -/
theorem Inv.unlocked_step (h : Inv s) (hs : t.starter = s.starter) (hm : t.mutex = s.mutex)
    (hh : s.thread.holds = false) (hh' : t.thread.holds = false) (hn : s.thread ≠ .notStarted)
    (hn' : t.thread ≠ .notStarted) (hno : s.thread.notifies = false)
    (hl : t.loop_ = t.thread.publishes)
    (hf : s.starter = .unlocking ∨ s.starter = .returning → s.loop_ = true → t.loop_ = true)
    (ho : t.thread.atEnd = true → ∃ r, s.starter = .returned r) : Inv t := by
  have hfree : s.mutex ≠ .thread := fun hm => by simpa [hh] using h.thread.mp hm
  refine h.thread_step hs (by rw [hm]) ?_ hn hn' hl ?_ hf ho
  · rw [hm, hh']
    exact iff_of_false hfree (by simp)
  · intro _ hnot
    rw [hno] at hnot
    cases hnot

theorem inv_stepped (h : Inv s) (hok : ClearsLate s a) (hst : Stepped s a t) : Inv t := by
  cases hst with
  | start hs =>
    have hn := h.started.mpr hs
    have hl := h.loop_
    have hm := h.thread
    have hm' := h.starter
    rw [hn] at hl hm
    rw [hs] at hm'
    exact ⟨by simpa [Starter.holds] using hm', by simpa [Threading.holds] using hm, by simp, hl,
      by simp, by simp, by simp, by simp [Threading.atEnd]⟩
  | lock hs hm =>
    refine h.starter_step rfl rfl (by simp [Starter.holds]) (by simp [hm]) (by simp [hs]) ?_ ?_ ?_ ?_ <;>
      simp [hs]
  | found hs hl =>
    refine h.starter_step rfl rfl (by simp [Starter.holds, h.starter, hs]) (by simp) (by simp [hs])
      ?_ (fun _ => hl) ?_ ?_ <;> simp [hs]
  | wait hs hl =>
    have hm : s.mutex = .starter := h.starter.mpr (by rw [hs]; rfl)
    refine h.starter_step rfl rfl (by simp [Starter.holds]) (by simp [hm]) (by simp [hs]) ?_ ?_ ?_ ?_
    · intro _
      -- the thread has not got the mutex, and has not finished
      refine Threading.notifies_of_not ?_ ?_ (h.loop_.symm.trans hl) ?_
      · rw [ne_eq, h.started, hs]
        simp
      · rw [← Bool.not_eq_true, ← h.thread, hm]
        simp
      · rw [← Bool.not_eq_true]
        intro hend
        obtain ⟨r, hr⟩ := h.atEnd hend
        rw [hs] at hr
        cases hr
    · simp
    · simp
    · simp [hs]
  | wake hs =>
    refine h.starter_step rfl rfl (by simp [Starter.holds, h.starter, hs]) (by simp) (by simp [hs])
      ?_ ?_ ?_ ?_ <;> simp [hs]
  | relock hs hm =>
    refine h.starter_step rfl rfl (by simp [Starter.holds]) (by simp [hm]) (by simp [hs]) ?_ ?_ ?_ ?_ <;>
      simp [hs]
  | unlock hs =>
    have hm : s.mutex = .starter := h.starter.mpr (by rw [hs]; rfl)
    refine h.starter_step rfl rfl (by simp [Starter.holds]) (by simp [hm]) (by simp [hs]) ?_
      (fun _ => h.found (Or.inl hs)) ?_ ?_ <;> simp [hs]
  | ret hs =>
    have hl := h.found (Or.inr hs)
    refine h.starter_step rfl rfl (by simp [Starter.holds, h.starter, hs]) (by simp) (by simp [hs])
      ?_ ?_ ?_ ?_ <;> simp [hs, hl]
  | inLoop a l => exact ⟨h.starter, h.thread, h.started, h.loop_, h.waits, h.found, h.result, h.atEnd⟩
  | threadLock ht hm =>
    refine h.thread_step rfl (by simp [hm]) (by simp [Threading.holds]) (by simp [ht]) (by simp)
      (h.loop_.trans ?_) (by simp [Threading.notifies]) (fun _ hl => hl) (by simp [Threading.atEnd])
    rw [ht]
    rfl
  | publish ht =>
    have hm : s.mutex = .thread := h.thread.mpr (by rw [ht]; rfl)
    exact h.thread_step rfl Iff.rfl (by simp [Threading.holds, hm]) (by simp [ht]) (by simp) rfl
      (by simp [Threading.notifies]) (fun _ _ => rfl) (by simp [Threading.atEnd])
  | notify ht =>
    have hm : s.mutex = .thread := h.thread.mpr (by rw [ht]; rfl)
    have hl : s.loop_ = true := by rw [h.loop_, ht]; rfl
    by_cases hw : s.starter = .waiting
    · rw [if_pos hw]
      exact ⟨by simp [hm, Starter.holds], by simp [hm, Threading.holds], by simp, hl, by simp,
        by simp, by simp, by simp [Threading.atEnd]⟩
    · rw [if_neg hw]
      exact h.thread_step rfl Iff.rfl (by simp [Threading.holds, hm]) (by simp [ht]) (by simp) hl
        (fun hs => absurd hs hw) (fun _ hl => hl) (by simp [Threading.atEnd])
  | threadUnlock ht =>
    have hm : s.mutex = .thread := h.thread.mpr (by rw [ht]; rfl)
    refine h.thread_step rfl (by simp [hm]) (by simp [Threading.holds]) (by simp [ht]) (by simp)
      (h.loop_.trans ?_) (by simp [ht, Threading.notifies]) (fun _ hl => hl) (by simp [Threading.atEnd])
    rw [ht]
    rfl
  | enter _ ht | leave ht =>
    have hl : s.loop_ = true := by rw [h.loop_, ht]; rfl
    exact h.unlocked_step rfl rfl (by rw [ht]; rfl) rfl (by simp [ht]) (by simp) (by rw [ht]; rfl) hl
      (fun _ => id) (by simp [Threading.atEnd])
  | clear ht =>
    have hr : ∃ r, s.starter = .returned r := hok.elim (fun h => ⟨_, h⟩) fun h => ⟨_, h⟩
    refine h.unlocked_step rfl rfl (by rw [ht]; rfl) rfl (by simp [ht]) (by simp) (by rw [ht]; rfl)
      rfl ?_ (fun _ => hr)
    obtain ⟨r, hr⟩ := hr
    simp [hr]
  | destroy ht =>
    have hl : s.loop_ = false := by rw [h.loop_, ht]; rfl
    exact h.unlocked_step rfl rfl (by rw [ht]; rfl) rfl (by simp [ht]) (by simp) (by rw [ht]; rfl) hl
      (fun _ => id) (fun _ => h.atEnd (by rw [ht]; rfl))

/-! ### It goes on until it has -/

/-- How far `startLoop` is from its result. -/
def distance (s : StartLoop φ) : Nat :=
  10 * (match s.thread with
    | .notStarted => 5 | .callback => 4 | .locked => 3 | .published => 2 | .notified => 1 | _ => 0) +
  match s.starter with
    | .starting => 7 | .locking => 6 | .relocking => 6 | .testing => 5 | .waiting => 4
    | .unlocking => 3 | .returning => 2 | .returned _ => 0

/-- The new thread gives the mutex back. -/
theorem exists_thread_step (h : Inv s) (hm : s.mutex = .thread) (hs : s.starter ≠ .waiting) :
    ∃ a t, ClearsLate s a ∧ step s a = some t ∧ distance t < distance s := by
  have hh := h.thread.mp hm
  cases ht : s.thread with
  | locked => exact ⟨.publish, _, trivial, if_pos ht, by simp [distance, ht]⟩
  | published => exact ⟨.notify, _, trivial, if_pos ht, by simp [distance, ht, hs]⟩
  | notified => exact ⟨.threadUnlock, _, trivial, if_pos ht, by simp [distance, ht]⟩
  | _ =>
    rw [ht] at hh
    cases hh

theorem exists_step (h : Inv s) (hr : ∀ r, s.starter ≠ .returned r) :
    ∃ a t, ClearsLate s a ∧ step s a = some t ∧ distance t < distance s := by
  cases hs : s.starter with
  | starting =>
    have ht := h.started.mpr hs
    exact ⟨.start, _, trivial, if_pos hs, by simp [distance, hs, ht]⟩
  | locking =>
    cases hm : s.mutex with
    | none => exact ⟨.lock, _, trivial, if_pos ⟨hs, hm⟩, by simp [distance, hs]⟩
    | starter => simpa [hs, Starter.holds] using h.starter.mp hm
    | thread => exact exists_thread_step h hm (by simp [hs])
  | relocking =>
    cases hm : s.mutex with
    | none => exact ⟨.relock, _, trivial, if_pos ⟨hs, hm⟩, by simp [distance, hs]⟩
    | starter => simpa [hs, Starter.holds] using h.starter.mp hm
    | thread => exact exists_thread_step h hm (by simp [hs])
  | testing =>
    refine ⟨.test, _, trivial, if_pos hs, ?_⟩
    split <;> simp [distance, hs]
  | waiting =>
    have hn := h.waits hs
    cases ht : s.thread with
    | callback =>
      have hm : s.mutex = .none := by
        cases hm : s.mutex with
        | none => rfl
        | starter => simpa [hs, Starter.holds] using h.starter.mp hm
        | thread => simpa [ht, Threading.holds] using h.thread.mp hm
      exact ⟨.threadLock, _, trivial, if_pos ⟨ht, hm⟩, by simp [distance, ht]⟩
    | locked => exact ⟨.publish, _, trivial, if_pos ht, by simp [distance, ht]⟩
    | published => exact ⟨.notify, _, trivial, if_pos ht, by simp [distance, ht, hs]⟩
    | _ =>
      rw [ht] at hn
      cases hn
  | unlocking => exact ⟨.unlock, _, trivial, if_pos hs, by simp [distance, hs]⟩
  | returning => exact ⟨.ret, _, trivial, if_pos hs, by simp [distance, hs]⟩
  | returned r => exact absurd hs (hr r)

theorem exists_returned : ∀ {n : Nat} {s : StartLoop φ}, Inv s → distance s < n →
    ∃ as t, Steps.run (Steps.guarded ClearsLate step) s as = some t ∧ t.starter = .returned true := by
  intro n
  induction n with
  | zero =>
    intro s _ hn
    cases hn
  | succ n ih =>
    intro s h hn
    by_cases hr : ∀ r, s.starter ≠ .returned r
    · obtain ⟨a, t, hok, hst, hlt⟩ := exists_step h hr
      obtain ⟨as, u, hrun, hu⟩ := ih (inv_stepped h hok (step_stepped hst)) (by omega)
      exact ⟨a :: as, u, Steps.run_cons_eq_some.mpr ⟨t, Steps.guarded_eq_some.mpr ⟨hok, hst⟩, hrun⟩, hu⟩
    · simp only [not_forall, not_not] at hr
      obtain ⟨r, hr⟩ := hr
      exact ⟨[], s, rfl, h.result r hr ▸ hr⟩

/-- `loop_` is `NULL` for good, and was not returned. -/
structure Lost (s : StartLoop φ) : Prop where
  atEnd : s.thread.atEnd = true
  loop_ : s.loop_ = false
  starter : s.starter ≠ .starting ∧ s.starter ≠ .returned true

theorem lost_stepped (h : Lost s) (hst : Stepped s a t) : Lost t := by
  have ho := h.atEnd
  cases hst with
  | start hs => exact absurd hs h.starter.1
  | ret hs => exact ⟨ho, h.loop_, by simp [h.loop_]⟩
  | found hs hl =>
    rw [h.loop_] at hl
    cases hl
  | lock | wait | wake | relock | unlock => exact ⟨ho, h.loop_, by simp⟩
  | inLoop => exact ⟨ho, h.loop_, h.starter⟩
  | clear ht => exact ⟨rfl, rfl, h.starter⟩
  | destroy ht => exact ⟨rfl, h.loop_, h.starter⟩
  | threadLock ht | publish ht | notify ht | threadUnlock ht | enter l ht | leave ht =>
    rw [ht] at ho
    cases ho

theorem started_stepped (h : s.thread = .notStarted ↔ s.starter = .starting) (hst : Stepped s a t) :
    t.thread = .notStarted ↔ t.starter = .starting := by
  cases hst with
  | start hs => simp
  | lock hs | found hs | wait hs | wake hs | relock hs | unlock hs | ret hs => simp [h, hs]
  | inLoop a l => exact h
  | notify ht =>
    have hn : s.starter ≠ .starting := by simp [← h, ht]
    split <;> simp [hn]
  | threadLock ht | publish ht | threadUnlock ht | enter l ht | leave ht | clear ht | destroy ht =>
    have hn : s.starter ≠ .starting := by simp [← h, ht]
    simp [hn]

/-- **`startLoop` returns the loop** in every run that clears `loop_` late, and in no run that
clears it early. -/
theorem startLoop_returns :
    (∀ (as : List (Act φ)) t, Steps.run (Steps.guarded ClearsLate step) init as = some t →
      Returns t ∧ ∃ bs u, Steps.run (Steps.guarded ClearsLate step) t bs = some u ∧
        u.starter = .returned true) ∧
    ∀ (as bs : List (Act φ)) s t u, Steps.run step init as = some s → ¬ ClearsLate s .clear →
      step s .clear = some t → Steps.run step t bs = some u → u.starter ≠ .returned true := by
  refine ⟨?_, ?_⟩
  · intro as t hrun
    have h : Inv t := by
      refine Steps.run_invariant ?_ inv_init hrun
      intro s a u h hs
      obtain ⟨hok, hs⟩ := Steps.guarded_eq_some.mp hs
      exact inv_stepped h hok (step_stepped hs)
    exact ⟨h.returns, exists_returned h (Nat.lt_succ_self _)⟩
  · intro as bs s t u hs hno hst hu
    have hstarted : s.thread = .notStarted ↔ s.starter = .starting :=
      Steps.run_invariant (I := fun s => s.thread = .notStarted ↔ s.starter = .starting)
        (fun _ _ _ h hs => started_stepped h (step_stepped hs)) (by simp [init]) hs
    have hlost : Lost t := by
      cases step_stepped hst with
      | clear ht =>
        refine ⟨rfl, rfl, ?_, fun hr => hno (Or.inl hr)⟩
        show s.starter ≠ .starting
        simp [← hstarted, ht]
    have hlost : Lost u := Steps.run_invariant (fun _ _ _ h hs => lost_stepped h (step_stepped hs))
      hlost hu
    exact hlost.starter.2

end

/-- The loop runs until a functor of `callback_` quits it. -/
def quitsSoon : List (Act Nat) :=
  [.start, .inLoop (.queueInLoop 0), .threadLock, .publish, .notify, .threadUnlock, .enter,
    .inLoop .reset, .inLoop .test, .inLoop (.poll false), .inLoop .doPendingFunctors, .inLoop .run,
    .inLoop .quit, .inLoop .ret, .inLoop .finish, .inLoop .leave, .inLoop .test, .leave]

theorem startLoop_returns_quitsSoon : ∃ t s u v, Steps.run (Steps.guarded ClearsLate step) init
      (quitsSoon ++ [.lock, .test, .unlock, .ret, .clear, .destroy]) = some t ∧
    t.starter = .returned true ∧ Returns t ∧ Steps.run step init quitsSoon = some s ∧
    step s .clear = some u ∧ Steps.run step u [.lock, .test, .destroy] = some v ∧
    v.starter ≠ .returned true := by
  have hlate : (Steps.run (Steps.guarded ClearsLate step) init
      (quitsSoon ++ [.lock, .test, .unlock, .ret, .clear, .destroy])).any
      (fun t => decide (t.starter = .returned true)) = true := by decide
  have hearly : (Steps.run step init quitsSoon).any (fun s =>
      decide (¬ ClearsLate s .clear) && (step s .clear).any fun u =>
        (Steps.run step u [.lock, .test, .destroy]).isSome) = true := by decide
  obtain ⟨t, ht, hlate⟩ := (Option.any_eq_true _ _).mp hlate
  obtain ⟨s, hs, hearly⟩ := (Option.any_eq_true _ _).mp hearly
  obtain ⟨hno, hearly⟩ := (Bool.and_eq_true _ _).mp hearly
  obtain ⟨u, hu, hv⟩ := (Option.any_eq_true _ _).mp hearly
  obtain ⟨v, hv⟩ := Option.isSome_iff_exists.mp hv
  exact ⟨t, s, u, v, ht, of_decide_eq_true hlate, (startLoop_returns.1 _ t ht).1, hs, hu, hv,
    startLoop_returns.2 _ _ s u v hs (of_decide_eq_true hno) hu hv⟩

/-- `startLoop` waits for a thread that has finished, or returns `NULL`. -/
theorem startLoop_lost : ∃ t u, Steps.run step init
      (quitsSoon ++ [.clear, .destroy, .lock, .test]) = some t ∧ t.starter = .waiting ∧
    t.loop_ = false ∧ t.thread = .finished ∧
    Steps.run step init (quitsSoon ++ [.lock, .test, .unlock, .clear, .ret]) = some u ∧
    u.starter = .returned false := by
  have hwait : (Steps.run step init (quitsSoon ++ [.clear, .destroy, .lock, .test])).any (fun t =>
      decide (t.starter = .waiting ∧ t.loop_ = false ∧ t.thread = .finished)) = true := by decide
  have hnull : (Steps.run step init (quitsSoon ++ [.lock, .test, .unlock, .clear, .ret])).any
      (fun u => decide (u.starter = .returned false)) = true := by decide
  obtain ⟨t, ht, hwait⟩ := (Option.any_eq_true _ _).mp hwait
  obtain ⟨u, hu, hnull⟩ := (Option.any_eq_true _ _).mp hnull
  obtain ⟨h1, h2, h3⟩ := of_decide_eq_true hwait
  exact ⟨t, u, ht, h1, h2, h3, hu, of_decide_eq_true hnull⟩

end StartLoop

end SimpleNet
