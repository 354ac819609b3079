import SimpleNet.Client.Coherent

/-!
# When a client can be asked to connect

`startInLoop` asserts that the connector is `kDisconnected`.  It is when no attempt has been made
since `restart()`, or the last one has failed: `Settled` says this with the fate of its socket.
After a success the state stays `kConnected`, whether the socket is handed on or closed at once,
until `restart()`; so `connect()` is wrong after a connection that was not retried, and it makes a
retry timer wrong that still waits (`connected_stays`).

`startInLoop_disconnected`: where `connect()` is called only when the last attempt has failed and no
retry timer waits, the assertion holds.  The timers and `restart()` then take care of themselves: a
timer waits alone and without an attempt (`TimerInv`), and a lost connection leaves none.
-/

namespace SimpleNet

open Function (update)

namespace Connector

/-- The socket of the last attempt since `restart()`, if any, has been closed without having been
connected. -/
def Settled (s : Connector) : Prop :=
  ∀ fd ∈ s.lastSocket, .close fd ∈ s.trace ∧ .connected fd ∉ s.trace

instance (s : Connector) : Decidable s.Settled :=
  inferInstanceAs (Decidable (∀ fd ∈ s.lastSocket, _))

/-- `state_` and the socket of the last attempt. -/
structure AttemptInv (s : Connector) : Prop where
  disconnected : s.state = .kDisconnected → s.Settled
  connecting : s.state = .kConnecting → ∃ fd, s.lastSocket = some fd ∧
    (∀ c ∈ s.channel, c.fd = fd) ∧ .close fd ∉ s.trace ∧ .connected fd ∉ s.trace
  connected : s.state = .kConnected → ∃ fd, s.lastSocket = some fd ∧ .connected fd ∈ s.trace
  starting : s.pc = .starting ∨ s.pc = .calling → s.state = .kDisconnected
  testing : ∀ fd, s.pc = .testing fd → s.state = .kConnected ∧ fd < s.numFds
  last : ∀ fd ∈ s.lastSocket, fd < s.numFds
  fresh : ∀ fd, s.numFds ≤ fd → .close fd ∉ s.trace ∧ .connected fd ∉ s.trace

/-- The assertion of `startInLoop` has not failed, and if no other one has, the state tells what
has become of the last attempt. -/
structure Startable (s : Connector) : Prop where
  failed : s.failed ≠ some .startInLoop
  inv : s.failed = none → AttemptInv s

section

variable {s t : Connector} {fd n : Nat} {e : ConnectorEvent}

/-- The connector is `kDisconnected` exactly when the last attempt has failed. -/
theorem AttemptInv.settled_iff (h : AttemptInv s) : s.Settled ↔ s.state = .kDisconnected := by
  refine ⟨?_, h.disconnected⟩
  intro hs
  cases hst : s.state with
  | kDisconnected => rfl
  | kConnecting =>
    obtain ⟨fd, hl, -, hc, -⟩ := h.connecting hst
    exact absurd (hs fd hl).1 hc
  | kConnected =>
    obtain ⟨fd, hl, hc⟩ := h.connected hst
    exact absurd hc (hs fd hl).2

/-- What else is recorded does not matter. -/
theorem AttemptInv.emit (h : AttemptInv s) (hcl : ∀ fd, e ≠ .close fd)
    (hcn : ∀ fd, e ≠ .connected fd) : AttemptInv (s.emit e) := by
  have hclose : ∀ fd, .close fd ∈ s.trace ++ [e] ↔ .close fd ∈ s.trace := fun fd => by
    simp [(hcl fd).symm]
  have hconn : ∀ fd, .connected fd ∈ s.trace ++ [e] ↔ .connected fd ∈ s.trace := fun fd => by
    simp [(hcn fd).symm]
  refine ⟨?_, ?_, ?_, h.starting, h.testing, h.last, ?_⟩
  · intro hs fd hl
    have := h.disconnected hs fd hl
    exact ⟨(hclose fd).mpr this.1, fun hc => this.2 ((hconn fd).mp hc)⟩
  · intro hs
    obtain ⟨fd, hl, hch, h1, h2⟩ := h.connecting hs
    exact ⟨fd, hl, hch, fun hc => h1 ((hclose fd).mp hc), fun hc => h2 ((hconn fd).mp hc)⟩
  · intro hs
    obtain ⟨fd, hl, hc⟩ := h.connected hs
    exact ⟨fd, hl, (hconn fd).mpr hc⟩
  · intro fd hf
    have := h.fresh fd hf
    exact ⟨fun hc => this.1 ((hclose fd).mp hc), fun hc => this.2 ((hconn fd).mp hc)⟩

theorem startable_startInLoop (h : AttemptInv s) (hf : s.failed = none)
    (hs : s.state = .kDisconnected) : Startable s.startInLoop := by
  rw [startInLoop, if_pos hs]
  refine ⟨by simp [hf], fun _ => { h with starting := fun _ => hs, testing := by simp }⟩

theorem startable_start (h : AttemptInv s) (hf : s.failed = none) (hs : s.state = .kDisconnected) :
    Startable s.start := by
  have he := h.emit (e := .start) (by simp) (by simp)
  exact startable_startInLoop { he with } hf hs

theorem startable_restart (h : AttemptInv s) (hf : s.failed = none) (hpc : s.pc = .idle) :
    Startable s.restart := by
  refine startable_startInLoop ?_ hf rfl
  exact {
    disconnected := fun _ fd hl => by cases hl
    connecting := by simp
    connected := by simp
    starting := fun _ => rfl
    testing := by simp [hpc]
    last := by simp
    fresh := h.fresh }

/-- The last attempt fails. -/
theorem attemptInv_retry (hl : s.lastSocket = some fd) (hlt : fd < s.numFds)
    (hc : .connected fd ∉ s.trace)
    (hfresh : ∀ fd, s.numFds ≤ fd → .close fd ∉ s.trace ∧ .connected fd ∉ s.trace) :
    AttemptInv (s.retry fd) where
  disconnected _ d hd := by
    obtain rfl := Option.some.inj (hl.symm.trans hd)
    exact ⟨List.mem_append_right _ List.mem_cons_self, by simpa [Connector.retry, Connector.emit] using hc⟩
  connecting := by simp [Connector.retry]
  connected := by simp [Connector.retry]
  starting _ := rfl
  testing := by simp [Connector.retry]
  last d hd := by
    obtain rfl := Option.some.inj (hl.symm.trans hd)
    exact hlt
  fresh d hd := by
    have := hfresh d hd
    have hne : d ≠ fd := Nat.ne_of_gt (Nat.lt_of_lt_of_le hlt hd)
    simpa [Connector.retry, Connector.emit, hne] using this

/-- The channel of the attempt leaves the poller, and its socket is closed. -/
theorem startable_removed_retry (h : AttemptInv s) (hf : s.failed = none)
    (hs : s.state = .kConnecting) {c : ConnectorChannel} (hc : s.channel = some c)
    (x : ConnectorState) :
    Startable (({ s with state := x, channel := some { c with registered := false } }.queueInLoop
      .resetChannel).retry c.fd) := by
  obtain ⟨fd, hl, hch, -, hcn⟩ := h.connecting hs
  obtain rfl : c.fd = fd := hch c hc
  refine ⟨by simp [retry, Connector.emit, Connector.queueInLoop, hf], ?_⟩
  intro _
  exact attemptInv_retry hl (h.last _ hl) hcn h.fresh

theorem startable_remove_retry (h : AttemptInv s) (hf : s.failed = none)
    (hs : s.state = .kConnecting) (x : ConnectorState) :
    Startable ({ s with state := x }.removeAndResetChannel retry) := by
  obtain hc | ⟨c, hc⟩ := Option.eq_none_or_eq_some s.channel
  · rw [removeAndResetChannel_none (by exact hc)]
    exact ⟨by simp, by simp⟩
  · rw [removeAndResetChannel_some (s := { s with state := x }) hc]
    exact startable_removed_retry h hf hs hc x

theorem startable_handleError (h : AttemptInv s) (hf : s.failed = none) : Startable s.handleError := by
  unfold handleError
  split
  · next hs => exact startable_remove_retry h hf hs s.state
  · exact ⟨by simp [hf], fun _ => h⟩

theorem failed_handleError {c : ConnectorChannel} (hc : s.channel = some c) :
    s.handleError.failed = s.failed := by
  unfold handleError
  split
  · rw [removeAndResetChannel_some hc]
    rfl
  · rfl

theorem startable_handleWrite (h : AttemptInv s) (hf : s.failed = none) (err selfConnect : Bool) :
    Startable (s.handleWrite err selfConnect) := by
  unfold handleWrite
  split
  · next hs =>
    cases hc : s.channel with
    | none =>
      rw [removeAndResetChannel_none hc]
      exact ⟨by simp, by simp⟩
    | some c =>
      rw [removeAndResetChannel_some hc]
      have hr := startable_removed_retry h hf hs hc s.state
      split
      · exact hr
      · split
        · exact hr
        · obtain ⟨fd, hl, hch, -, -⟩ := h.connecting hs
          obtain rfl : c.fd = fd := hch c hc
          refine ⟨by simp [Connector.emit, Connector.queueInLoop, hf], ?_⟩
          intro _
          exact {
            disconnected := by simp
            connecting := by simp
            connected := fun _ => ⟨c.fd, hl, by simp [Connector.emit]⟩
            starting := by simp
            testing := fun d hd => by
              obtain rfl := ConnectorPc.testing.inj hd
              exact ⟨rfl, h.last _ hl⟩
            last := h.last
            fresh := fun d hd => by
              have hne : d ≠ c.fd := Nat.ne_of_gt (Nat.lt_of_lt_of_le (h.last _ hl) hd)
              simpa [Connector.emit, Connector.queueInLoop, hne] using h.fresh d hd }
  · split
    · exact ⟨by simp [hf], fun _ => h⟩
    · exact ⟨by simp, by simp⟩

theorem startable_stopInLoop (h : AttemptInv s) (hf : s.failed = none) (n : Nat) :
    Startable (s.stopInLoop n) := by
  have he : AttemptInv (s.emit (.stopInLoop n)) := h.emit (by simp) (by simp)
  unfold stopInLoop
  simp only
  split
  · next hs => exact startable_remove_retry he hf hs .kDisconnected
  · exact ⟨by simp [Connector.emit, hf], fun _ => he⟩

theorem startable_connectSocket (h : AttemptInv s) (hf : s.failed = none) (hpc : s.pc = .calling)
    (savedErrno : ConnectErrno) : Startable (s.connectSocket savedErrno) := by
  have hs : s.state = .kDisconnected := h.starting (Or.inr hpc)
  obtain ⟨hcl, hcn⟩ := h.fresh s.numFds (Nat.le_refl _)
  have hcl' : .close s.numFds ∉ (s.emit (.connect s.numFds)).trace := by
    simpa [Connector.emit] using hcl
  have hcn' : .connected s.numFds ∉ (s.emit (.connect s.numFds)).trace := by
    simpa [Connector.emit] using hcn
  have hfresh : ∀ fd, s.numFds + 1 ≤ fd → .close fd ∉ (s.emit (.connect s.numFds)).trace ∧
      .connected fd ∉ (s.emit (.connect s.numFds)).trace := fun fd hfd => by
    simpa [Connector.emit] using h.fresh fd (Nat.le_of_succ_le hfd)
  have hr := attemptInv_retry (s := { s.emit (.connect s.numFds) with
    numFds := s.numFds + 1, lastSocket := some s.numFds }) rfl (Nat.lt_succ_self _) hcn' hfresh
  unfold connectSocket
  simp only
  split
  · unfold connecting
    simp only
    split
    · refine ⟨by simp [Connector.emit, hf], ?_⟩
      intro _
      exact {
        disconnected := by simp
        connecting := fun _ => ⟨s.numFds, rfl, by simp, hcl', hcn'⟩
        connected := by simp
        starting := by simp
        testing := by simp
        last := by simp
        fresh := hfresh }
    · exact ⟨by simp, by simp⟩
  · exact ⟨by simp [retry, Connector.emit, hf], fun _ => hr⟩
  · refine ⟨by simp [Connector.emit, hf], ?_⟩
    intro _
    -- as after `retry`; the state was `kDisconnected` before
    exact {
      disconnected := fun _ => hr.disconnected rfl
      connecting := by simp [Connector.emit, hs]
      connected := by simp [Connector.emit, hs]
      starting := by simp
      testing := by simp
      last := hr.last
      fresh := hr.fresh }

theorem startable_resume (h : AttemptInv s) (hf : s.failed = none) (savedErrno : ConnectErrno) :
    Startable (s.resume savedErrno) := by
  unfold resume
  split
  · exact ⟨by simp [hf], fun _ => h⟩
  · next hpc =>
    have hs := h.starting (Or.inl hpc)
    refine ⟨by simp [hf], fun _ => { h with starting := fun _ => hs, testing := ?_ }⟩
    intro d hd
    simp only at hd
    split at hd <;> cases hd
  · next hpc => exact startable_connectSocket h hf hpc savedErrno
  · refine ⟨by simp [hf], fun _ => { h with starting := fun hd => ?_, testing := fun d hd => ?_ }⟩
    all_goals simp only at hd
    all_goals split at hd <;> simp at hd
  · have he := h.emit (e := .runAfter s.retryDelayMs) (by simp) (by simp)
    exact ⟨by simp [runAfter, Connector.emit, hf],
      fun _ => { he with starting := by simp [runAfter], testing := by simp [runAfter] }⟩
  · next fd hpc =>
    split
    · exact ⟨by simp [hf], fun _ => { h with starting := by simp, testing := by simp }⟩
    · obtain ⟨hs, hlt⟩ := h.testing fd hpc
      obtain ⟨d, hl, hcn⟩ := h.connected hs
      refine ⟨by simp [Connector.emit, hf], ?_⟩
      intro _
      exact {
        disconnected := by simp [Connector.emit, hs]
        connecting := by simp [Connector.emit, hs]
        connected := fun _ => ⟨d, hl, List.mem_append_left _ hcn⟩
        starting := by simp
        testing := by simp
        last := h.last
        fresh := fun d hd => by
          have hne : d ≠ fd := Nat.ne_of_gt (Nat.lt_of_lt_of_le hlt hd)
          simpa [Connector.emit, hne] using h.fresh d hd }
  · next fd hpc =>
    have he := h.emit (e := .newConnectionCallback fd) (by simp) (by simp)
    exact ⟨by simp [Connector.emit, hf],
      fun _ => { he with starting := by simp, testing := by simp }⟩

theorem startable_resetChannel (h : AttemptInv s) (hf : s.failed = none) :
    Startable s.resetChannel := by
  have he := h.emit (e := .resetChannel s.channel) (by simp) (by simp)
  refine ⟨by simp [resetChannel, Connector.emit, hf], fun _ => { he with connecting := ?_ }⟩
  intro hs
  obtain ⟨fd, hl, -, hc⟩ := he.connecting hs
  refine ⟨fd, hl, ?_, hc⟩
  intro c hc'
  cases hc'

theorem startable_handleEvent {c : ConnectorChannel} (h : Startable s) (hf : s.failed = none)
    (hc : s.channel = some c) (pollErr pollOut err selfConnect : Bool) :
    Startable (s.handleEvent pollErr pollOut err selfConnect) := by
  have he := startable_handleError (h.inv hf) hf
  unfold handleEvent
  cases pollErr <;> cases pollOut
  · exact h
  · exact startable_handleWrite (h.inv hf) hf err selfConnect
  · exact he
  · have hf' : s.handleError.failed = none := (failed_handleError hc).trans hf
    exact startable_handleWrite (he.inv hf') hf' err selfConnect

/-- A retry timer waits alone, and while it does no attempt is under way. -/
structure TimerInv (s : Connector) : Prop where
  one : s.timers.length ≤ 1
  idle : s.timers ≠ [] → s.state = .kDisconnected ∧ s.pc = .idle

theorem timerInv_of_nil (ht : s.timers = []) : TimerInv s :=
  ⟨by simp [ht], fun hn => absurd ht hn⟩

/-- A timer that fires was the only one, and one is set at the end of an attempt. -/
theorem timerInv_stepped {a : Act} (ha : a.ofLoop = true) (h : TimerInv s) (htidy : Tidy s)
    (hq : .startInLoop ∉ s.functors.queue) (hst : Stepped s a t) : TimerInv t := by
  rcases timers_stepped ha hst with ⟨hne, ht⟩ | ⟨ms, hms, rfl, ht⟩ | ⟨hpc, rfl⟩
  · refine ⟨ht ▸ h.one, fun hn => ?_⟩
    obtain ⟨hs, hpc⟩ := h.idle (ht ▸ hn)
    have hquiet := quiet_stepped (by simp [hs]) (by simp [hpc, ConnectorPc.passed]) ha hst
    refine ⟨hquiet.state.trans hs, (hquiet.pc hpc).resolve_right ?_⟩
    rintro (⟨ms, hms⟩ | hm)
    · exact hne ms hms
    · exact hq hm
  · apply timerInv_of_nil
    have hl := List.length_erase_of_mem hms
    have := h.one
    rw [ht, ← List.length_eq_zero_iff]
    omega
  · have hnil : s.timers = [] := by
      by_contra hn
      rw [(h.idle hn).2] at hpc
      cases hpc
    refine ⟨by simp [runAfter, hnil], fun _ => ⟨?_, rfl⟩⟩
    exact htidy.disconnected (by simp [hpc])

/-- `startInLoop` is right at a retry timer when no attempt is under way. -/
theorem startable_stepped {a : Act} (ha : a.ofLoop = true) (h : Startable s) (hf : s.failed = none)
    (hq : .startInLoop ∉ s.functors.queue) (htimers : TimerInv s) (hst : Stepped s a t) :
    Startable t := by
  have hi := h.inv hf
  cases hst with
  | start hpc | stop n hpc | restart hpc | startFrom k | stopFrom k n | queueFrom k f hf => cases ha
  | resume savedErrno hpc => exact startable_resume hi hf savedErrno
  | handleEvent pollErr pollOut err selfConnect c hpc hr hc =>
    exact startable_handleEvent h hf hc pollErr pollOut err selfConnect
  | timer ms hpc hr hms =>
    exact startable_startInLoop { hi with } hf (htimers.idle (List.ne_nil_of_mem hms)).1
  | doPendingFunctors hpc hr => exact ⟨h.failed, fun _ => { hi with }⟩
  | runFunctor f fs hpc hr =>
    have hpop : AttemptInv { s with functors := s.functors.tail } := { hi with }
    cases f with
    | startInLoop => exact absurd (Batched.mem_queue_of_rest hr) hq
    | stopInLoop n => exact startable_stopInLoop hpop hf n
    | resetChannel => exact startable_resetChannel hpop hf

end

end Connector

namespace TcpClient

/-- `connect()` is called only when the last attempt has failed and no retry timer waits. -/
def StartOk (s : TcpClient) : Act → Prop
  | .connect => s.connector.Settled ∧ s.connector.timers = []
  | _ => True

instance (s : TcpClient) : (a : Act) → Decidable (StartOk s a)
  | .connect => inferInstanceAs (Decidable (_ ∧ _))
  | .start | .disconnect | .stop | .enableRetry | .stopFrom _ | .stopConnector _ | .queueFrom _
  | .removeConnection | .restart | .connector _ => .isTrue trivial

/-- What the runs of `startInLoop_disconnected` keep. -/
structure StartInv (s : TcpClient) : Prop where
  connector : s.connector.Startable
  coherent : Coherent s
  timers : s.connector.TimerInv
  /-- `start()` is about to find the connector as `connect()` did -/
  connecting : s.connecting = true → s.connector.state = .kDisconnected ∧ s.connector.timers = []
  /-- `start()` is called on the loop's thread only -/
  queue : .startInLoop ∉ s.connector.functors.queue
  threads : ∀ k, s.connector.threads k ≠ some .startInLoop

variable {s t : TcpClient}

/-- A connector that is connected has no retry timer. -/
theorem StartInv.timers_of_connected (h : StartInv s) (hs : s.connector.state = .kConnected) :
    s.connector.timers = [] := by
  by_contra hn
  rw [(h.timers.idle hn).1] at hs
  cases hs

theorem startInv_connector {a : Connector.Act} (h : StartInv s)
    (hst : step s (.connector a) = some t) : StartInv t := by
  have hcoherent := coherent_step h.coherent hst
  obtain ⟨ha, hfree, hs, -, hcn, -, -⟩ := step_connector hst
  obtain ⟨hf, hs⟩ := Connector.step_stepped hs
  have hl := Connector.loopStep_stepped ha hs
  refine ⟨Connector.startable_stepped ha h.connector hf h.queue h.timers hs, hcoherent,
    Connector.timerInv_stepped ha h.timers h.coherent.tidy h.queue hs, ?_, ?_, ?_⟩
  · intro hn
    rw [hcn, hfree.1] at hn
    cases hn
  · intro hm
    exact h.queue ((hl.queue _ hm).resolve_right (by simp))
  · intro k
    rw [hl.threads]
    exact h.threads k

theorem startInv_step {a : Act} (h : StartInv s) (hok : StartOk s a) (hst : step s a = some t) :
    StartInv t := by
  have hcoherent := coherent_step h.coherent hst
  have hpush : ∀ n, .startInLoop ∉ (s.connector.functors.push (.stopInLoop n)).queue := fun n => by
    simpa using h.queue
  have hthreads : ∀ k x, x ≠ some ConnectorTask.startInLoop →
      ∀ j, update s.connector.threads k x j ≠ some .startInLoop := by
    intro k x hx j hj
    exact (update_eq_some hj).elim hx (h.threads j)
  -- what is recorded of the calls does not matter
  have hemit : ∀ e, (∀ fd, e ≠ .close fd) → (∀ fd, e ≠ .connected fd) → s.connector.failed = none →
      (s.connector.emit e).AttemptInv := fun e h1 h2 hf => (h.connector.inv hf).emit h1 h2
  cases a with
  | connector a => exact startInv_connector h hst
  | connect =>
    cases step_stepped hst with
    | connect hpc hfree hf =>
      refine ⟨⟨h.connector.failed, hemit .called (by simp) (by simp)⟩, hcoherent, { h.timers with },
        fun _ => ⟨(h.connector.inv hf).settled_iff.mp hok.1, hok.2⟩, h.queue, h.threads⟩
  | start =>
    cases step_stepped hst with
    | start hcn hpc hf =>
      obtain ⟨hs, ht⟩ := h.connecting hcn
      have hc := Connector.startable_start (h.connector.inv hf) hf hs
      exact ⟨hc, hcoherent, Connector.timerInv_of_nil ((Connector.timers_startInLoop _).trans ht),
        nofun, by simpa [Connector.start] using h.queue, by simpa [Connector.start] using h.threads⟩
  | disconnect =>
    cases step_stepped hst with
    | disconnect => exact { h with coherent := hcoherent }
  | stop =>
    cases step_stepped hst with
    | stop hfree =>
      exact ⟨⟨h.connector.failed, fun hf => { hemit (.stop s.numStops) (by simp) (by simp) hf with }⟩,
        hcoherent, { h.timers with }, h.connecting, hpush _, h.threads⟩
  | enableRetry =>
    cases step_stepped hst with
    | enableRetry => exact { h with coherent := hcoherent }
  | stopFrom k =>
    cases step_stepped hst with
    | stopFrom => exact { h with coherent := hcoherent }
  | stopConnector k =>
    cases step_stepped hst with
    | stopConnector _ n hk =>
      exact ⟨⟨h.connector.failed, fun hf => { h.connector.inv hf with }⟩, hcoherent,
        { h.timers with }, h.connecting, h.queue, hthreads k _ (by simp)⟩
  | queueFrom k =>
    cases step_stepped hst with
    | queueFrom _ n hk =>
      exact ⟨⟨h.connector.failed, fun hf => { hemit (.stop n) (by simp) (by simp) hf with }⟩,
        hcoherent, { h.timers with }, h.connecting, hpush n, hthreads k _ (by simp)⟩
  | removeConnection =>
    cases step_stepped hst with
    | removeConnection hpc hfree hc => exact { h with coherent := hcoherent }
  | restart =>
    cases step_stepped hst with
    | restart hr hpc hf =>
      have hc := Connector.startable_restart (h.connector.inv hf) hf hpc
      have ht := h.timers_of_connected (h.coherent.restarting hr).2.1
      refine ⟨hc, hcoherent, Connector.timerInv_of_nil ((Connector.timers_startInLoop _).trans ht),
        fun hcn => ?_, by simpa [Connector.restart] using h.queue,
        by simpa [Connector.restart] using h.threads⟩
      rw [(h.coherent.connecting hcn).1] at hr
      cases hr

/-- **`startInLoop` asserts a true thing** in every run whose steps are `StartOk`. -/
theorem startInLoop_disconnected {as : List Act}
    (hrun : Steps.run (Steps.guarded StartOk step) init as = some t) :
    t.connector.failed ≠ some .startInLoop := by
  have hinv : StartInv t := Steps.run_invariant (I := StartInv) (fun s a u h hs => by
    obtain ⟨hok, hs⟩ := Steps.guarded_eq_some.mp hs
    exact startInv_step h hok hs) ?_ hrun
  · exact hinv.connector.failed
  · refine ⟨⟨by simp [init, Connector.init], ?_⟩, coherent_init, Connector.timerInv_of_nil rfl, nofun,
      by simp [init, Connector.init, Batched.empty, Batched.queue], by simp [init, Connector.init]⟩
    intro _
    constructor <;> simp [init, Connector.init, Connector.Settled]

/-- A refused attempt and its retry; the connection is lost and made again; `stop()`. -/
def lostAndFound : List Act :=
  [.enableRetry, .connect, .start, .connector (.resume .none), .connector (.resume .ECONNREFUSED),
    .connector (.resume .none), .connector (.resume .none), .connector (.timer 500)] ++ connects ++
    [.connector .doPendingFunctors, .connector .runFunctor, .removeConnection, .restart] ++ connects ++
    [.stop, .connector .doPendingFunctors, .connector .runFunctor, .connector .runFunctor]

theorem startInLoop_disconnected_lostAndFound :
    ∃ t, Steps.run (Steps.guarded StartOk step) init lostAndFound = some t ∧
      .newConnectionCallback 2 ∈ t.connector.trace ∧ t.connector.failed ≠ some .startInLoop := by
  have hobs : (Steps.run (Steps.guarded StartOk step) init lostAndFound).any
      (fun t => decide (.newConnectionCallback 2 ∈ t.connector.trace)) = true := by decide
  obtain ⟨t, ht, hobs⟩ := (Option.any_eq_true _ _).mp hobs
  exact ⟨t, ht, of_decide_eq_true hobs, startInLoop_disconnected ht⟩

/-- The connection is lost with `retry_` off, and the user calls `connect()`. -/
def lostThenConnect : List Act :=
  [.connect, .start] ++ connects ++ [.removeConnection, .connect, .start]

/-- The attempt succeeds after `stop()` and before its `stopInLoop`, and the user calls
`connect()`. -/
def stoppedThenConnect : List Act :=
  [.connect, .start, .connector (.resume .none), .connector (.resume .EINPROGRESS), .stop,
    .connector (.handleEvent false true false false), .connector (.resume .none), .connect, .start]

/-- `stop()` and `connect()` while a retry timer waits; it fires during the new attempt. -/
def staleTimer : List Act :=
  [.connect, .start, .connector (.resume .none), .connector (.resume .ECONNREFUSED),
    .connector (.resume .none), .connector (.resume .none), .stop, .connect, .start,
    .connector (.resume .none), .connector (.resume .EINPROGRESS), .connector (.timer 500)]

/-- `startInLoop` is executed in another state after a lost connection, after a stopped one, and
by a stale timer. -/
theorem connected_stays :
    (∃ t, Steps.run step init lostThenConnect = some t ∧
        t.connector.failed = some .startInLoop) ∧
      (∃ t, Steps.run step init stoppedThenConnect = some t ∧
        t.connector.failed = some .startInLoop) ∧
      ∃ t, Steps.run step init staleTimer = some t ∧ t.connector.failed = some .startInLoop := by
  have hobs : ∀ as ∈ [lostThenConnect, stoppedThenConnect, staleTimer],
      (Steps.run step init as).any (fun t => decide (t.connector.failed = some .startInLoop)) = true := by
    decide
  have hfails : ∀ as ∈ [lostThenConnect, stoppedThenConnect, staleTimer],
      ∃ t, Steps.run step init as = some t ∧ t.connector.failed = some .startInLoop := by
    intro as has
    obtain ⟨t, ht, hobs⟩ := (Option.any_eq_true _ _).mp (hobs as has)
    exact ⟨t, ht, of_decide_eq_true hobs⟩
  refine ⟨hfails _ ?_, hfails _ ?_, hfails _ ?_⟩
  all_goals simp only [List.mem_cons, true_or, or_true]

end TcpClient

end SimpleNet
