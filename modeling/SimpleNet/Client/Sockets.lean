import SimpleNet.Client.Connector

/-!
# The sockets of a connector

Each descriptor of `connect()` is closed or handed on once, by the one place that has it: the
channel while it is in the poller, then `handleWrite`.  The channel itself is destroyed later, by
a functor; `connecting()` comes too early when `start()`, `restart()` or a retry timer slips in
between (`connecting_too_early`), and `restart()` during an attempt forgets its descriptor.

`sockets_linear`: where neither happens, the connector owns its descriptor and its channel
linearly.
-/

namespace SimpleNet

open Function (update)

/-- The event is not about a descriptor or a channel. -/
def ConnectorEvent.silent : ConnectorEvent → Bool
  | .connect _ | .close _ | .newConnectionCallback _ | .resetChannel _ => false
  | _ => true

namespace Connector

/-- The descriptor is neither closed nor handed on. -/
def Outstanding (s : Connector) (fd : Nat) : Prop :=
  .connect fd ∈ s.trace ∧ .close fd ∉ s.trace ∧ .newConnectionCallback fd ∉ s.trace

/-- The attempt with this descriptor goes on: its channel waits for an event, or `handleWrite`
has not come to its end. -/
def InAttempt (s : Connector) (fd : Nat) : Prop :=
  s.state = .kConnecting ∧ s.channel = some ⟨fd, true⟩ ∨ s.pc = .testing fd ∨ s.pc = .handing fd

/-- The connector owns its descriptor and its channel linearly. -/
structure OwnsLinearly (s : Connector) : Prop where
  outstanding : ∀ a b, s.Outstanding a → s.Outstanding b → a = b
  /-- a descriptor is closed or handed on, and this once -/
  once : ∀ fd, s.trace.count (.close fd) + s.trace.count (.newConnectionCallback fd) ≤ 1
  /-- it is one of the two once its attempt has ended -/
  ended : ∀ fd, s.Outstanding fd → s.InAttempt fd
  /-- `connecting()` has not been entered with a channel -/
  channel : s.failed ≠ some .connecting
  /-- no channel has been destroyed while it was in the poller -/
  reset : ∀ fd, .resetChannel (some ⟨fd, true⟩) ∉ s.trace

/-- Where `connect()` does not get in the way of an earlier attempt: none is going on at
`restart()`, and no `resetChannel` of the last one still waits when the new one begins. -/
def SocketOk (s : Connector) : Act → Prop
  | .restart => s.state ≠ .kConnecting
  | .resume savedErrno =>
    s.pc = .calling → savedErrno.case = .connecting → .resetChannel ∉ s.functors.queue
  | _ => True

instance (s : Connector) : (a : Act) → Decidable (SocketOk s a)
  | .restart => inferInstanceAs (Decidable (_ ≠ _))
  | .resume _ => inferInstanceAs (Decidable (_ → _ → _))
  | .start | .stop _ | .startFrom _ | .stopFrom _ _ | .queueFrom _ | .handleEvent _ _ _ _ | .timer _
  | .doPendingFunctors | .runFunctor => .isTrue trivial

/-! ### The account of a descriptor -/

/-- How often the descriptor was closed or handed on. -/
def spent (s : Connector) (fd : Nat) : Nat :=
  s.trace.count (.close fd) + s.trace.count (.newConnectionCallback fd)

/-- The code that has the descriptor. -/
def holding (s : Connector) : Option Nat :=
  match s.pc with
  | .testing fd | .handing fd => some fd
  | _ => (s.channel.filter (·.registered)).map ConnectorChannel.fd

/-- A channel that is no longer in the poller waits for its end. -/
def stale (s : Connector) : Nat := if s.channel.any (!·.registered) then 1 else 0

structure SocketInv (s : Connector) : Prop where
  account : ∀ fd, s.spent fd + (if s.holding = some fd then 1 else 0) = if fd < s.numFds then 1 else 0
  created : ∀ fd, .connect fd ∈ s.trace → fd < s.numFds
  registered : s.state = .kConnecting ↔ ∃ fd, s.channel = some ⟨fd, true⟩
  resets : s.functors.queue.count .resetChannel = s.stale
  threads : ∀ k, s.threads k ≠ some .resetChannel
  pc : s.pc ≠ .idle → s.state ≠ .kConnecting
  calling : s.pc = .starting ∨ s.pc = .calling → s.state = .kDisconnected
  failed : s.failed ≠ some .connecting
  reset : ∀ fd, .resetChannel (some ⟨fd, true⟩) ∉ s.trace

section

variable {s t : Connector} {fd n : Nat} {e : ConnectorEvent}

theorem spent_emit : (s.emit e).spent fd = s.spent fd +
    ((if e = .close fd then 1 else 0) + if e = .newConnectionCallback fd then 1 else 0) := by
  simp only [spent, emit, List.count_append, List.count_singleton, beq_iff_eq]
  omega

/-- Without a registered channel, only `handleWrite` has a descriptor. -/
theorem SocketInv.not_registered (h : SocketInv s) (hs : s.state ≠ .kConnecting) :
    (s.channel.filter (·.registered)).map ConnectorChannel.fd = none := by
  rw [Option.map_eq_none_iff, Option.filter_eq_none_iff]
  rintro ⟨fd, r⟩ hc hr
  exact hs (h.registered.mpr ⟨fd, by rw [hc, show r = true from hr]⟩)

theorem SocketInv.emit (h : SocketInv s) (he : e.silent = true) : SocketInv (s.emit e) where
  account fd := by
    rw [spent_emit]
    have h1 : e ≠ .close fd := by
      rintro rfl
      cases he
    have h2 : e ≠ .newConnectionCallback fd := by
      rintro rfl
      cases he
    rw [if_neg h1, if_neg h2]
    exact h.account fd
  created fd hm := by
    rcases List.mem_append.mp hm with hm | hm
    · exact h.created fd hm
    · rw [← List.mem_singleton.mp hm] at he
      cases he
  registered := h.registered
  resets := h.resets
  threads := h.threads
  pc := h.pc
  calling := h.calling
  failed := h.failed
  reset fd hm := by
    rcases List.mem_append.mp hm with hm | hm
    · exact h.reset fd hm
    · rw [← List.mem_singleton.mp hm] at he
      cases he

theorem socketInv_startInLoop (h : SocketInv s) (hpc : s.pc = .idle) : SocketInv s.startInLoop := by
  unfold startInLoop
  split
  · next hs =>
    have hh : holding { s with pc := .starting } = s.holding := by
      rw [holding, holding, hpc]
    exact ⟨fun fd => hh ▸ h.account fd, h.created, h.registered, h.resets, h.threads,
      fun _ => (by rw [hs]; simp), fun _ => hs, h.failed, h.reset⟩
  · exact ⟨h.account, h.created, h.registered, h.resets, h.threads, h.pc, h.calling, by simp, h.reset⟩

/-- `connect_` and the functors of `start` and `stop` do not matter. -/
theorem SocketInv.queueInLoop (h : SocketInv s) {f : ConnectorTask} (hf : f ≠ .resetChannel) :
    SocketInv (s.queueInLoop f) := by
  refine ⟨h.account, h.created, h.registered, ?_, h.threads, h.pc, h.calling, h.failed, h.reset⟩
  rw [Connector.queueInLoop, Batched.count_push, if_neg hf]
  exact h.resets

theorem socketInv_restart (h : SocketInv s) (hpc : s.pc = .idle) (hs : s.state ≠ .kConnecting) :
    SocketInv s.restart := by
  refine socketInv_startInLoop ⟨h.account, h.created, ?_, h.resets, h.threads, fun _ => by simp,
    fun _ => rfl, h.failed, h.reset⟩ hpc
  have := h.registered
  simp only [reduceCtorEq, false_iff]
  exact fun hc => hs (this.mpr hc)

/-- The channel leaves the poller, and its descriptor is closed. -/
theorem socketInv_remove_retry (h : SocketInv s) (hpc : s.pc = .idle)
    (hc : s.channel = some ⟨fd, true⟩) (x : ConnectorState) :
    SocketInv (({ s with state := x, channel := some ⟨fd, false⟩ }.queueInLoop .resetChannel).retry
      fd) where
  account d := by
    have ha := h.account d
    have hh : s.holding = some fd := by rw [holding, hpc, hc]; rfl
    rw [hh] at ha
    show (s.emit (.close fd)).spent d + (if none = some d then 1 else 0) =
      if d < s.numFds then 1 else 0
    rw [spent_emit]
    by_cases hd : fd = d
    · subst hd
      simpa using ha
    · simpa [hd] using ha
  created d hm := by
    rcases List.mem_append.mp hm with hm | hm
    · exact h.created d hm
    · cases List.mem_singleton.mp hm
  registered := by
    show ConnectorState.kDisconnected = _ ↔ ∃ d, some _ = _
    simp
  resets := by
    have hr := h.resets
    show (s.functors.push _).queue.count _ = 1
    rw [Batched.count_push, if_pos rfl, hr, stale, hc]
    rfl
  threads := h.threads
  pc _ := by
    show ConnectorState.kDisconnected ≠ _
    simp
  calling _ := rfl
  failed := h.failed
  reset d hm := by
    rcases List.mem_append.mp hm with hm | hm
    · exact h.reset d hm
    · cases List.mem_singleton.mp hm

/-- The channel leaves the poller, and `handleWrite` has its descriptor. -/
theorem socketInv_remove_connected (h : SocketInv s) (hpc : s.pc = .idle)
    (hc : s.channel = some ⟨fd, true⟩) :
    SocketInv { ({ s with channel := some ⟨fd, false⟩ }.queueInLoop .resetChannel).emit
      (.connected fd) with state := .kConnected, pc := .testing fd } where
  account d := by
    have ha := h.account d
    have hh : s.holding = some fd := by rw [holding, hpc, hc]; rfl
    rw [hh] at ha
    show (s.emit (.connected fd)).spent d + (if some fd = some d then 1 else 0) =
      if d < s.numFds then 1 else 0
    rw [spent_emit]
    simpa using ha
  created d hm := by
    rcases List.mem_append.mp hm with hm | hm
    · exact h.created d hm
    · cases List.mem_singleton.mp hm
  registered := by
    show ConnectorState.kConnected = _ ↔ ∃ d, some _ = _
    simp
  resets := by
    have hr := h.resets
    show (s.functors.push _).queue.count _ = 1
    rw [Batched.count_push, if_pos rfl, hr, stale, hc]
    rfl
  threads := h.threads
  pc _ := by simp
  calling hcase := by simp at hcase
  failed := h.failed
  reset d hm := by
    rcases List.mem_append.mp hm with hm | hm
    · exact h.reset d hm
    · cases List.mem_singleton.mp hm

theorem socketInv_handleError (h : SocketInv s) (hpc : s.pc = .idle) :
    SocketInv s.handleError ∧ (s.state = .kConnecting → s.handleError.state = .kDisconnected) := by
  unfold handleError
  split
  · next hs =>
    obtain ⟨fd, hc⟩ := h.registered.mp hs
    rw [removeAndResetChannel_some hc]
    exact ⟨socketInv_remove_retry h hpc hc s.state, fun _ => rfl⟩
  · next hs => exact ⟨h, fun h' => absurd h' hs⟩

theorem socketInv_handleWrite (h : SocketInv s) (hpc : s.state = .kConnecting → s.pc = .idle)
    (err selfConnect : Bool) : SocketInv (s.handleWrite err selfConnect) := by
  unfold handleWrite
  split
  · next hs =>
    obtain ⟨fd, hc⟩ := h.registered.mp hs
    rw [removeAndResetChannel_some hc]
    split
    · exact socketInv_remove_retry h (hpc hs) hc s.state
    · split
      · exact socketInv_remove_retry h (hpc hs) hc s.state
      · exact socketInv_remove_connected h (hpc hs) hc
  · split
    · exact h
    · exact ⟨h.account, h.created, h.registered, h.resets, h.threads, h.pc, h.calling, by simp,
        h.reset⟩

theorem socketInv_stopInLoop (h : SocketInv s) (hpc : s.pc = .idle) (n : Nat) :
    SocketInv (s.stopInLoop n) := by
  have he : SocketInv (s.emit (.stopInLoop n)) := h.emit rfl
  unfold stopInLoop
  simp only
  split
  · next hs =>
    obtain ⟨fd, hc⟩ := he.registered.mp hs
    rw [removeAndResetChannel_some (s := { s.emit (.stopInLoop n) with state := .kDisconnected }) hc]
    exact socketInv_remove_retry he hpc hc .kDisconnected
  · exact he

theorem connecting_eq (hc : s.channel = none) : s.connecting fd =
    { s with state := .kConnecting, channel := some ⟨fd, true⟩, pc := .idle } := by
  rw [connecting]
  exact if_pos (by rw [hc]; rfl)

/-- A channel that is not in the poller has its `resetChannel` in the queue. -/
theorem SocketInv.channel_eq_none (h : SocketInv s) (hs : s.state ≠ .kConnecting)
    (hq : .resetChannel ∉ s.functors.queue) : s.channel = none := by
  have hstale : s.stale = 0 := by rw [← h.resets, List.count_eq_zero.mpr hq]
  cases hc : s.channel with
  | none => rfl
  | some c =>
    obtain ⟨fd, r⟩ := c
    cases r with
    | true => exact absurd (h.registered.mpr ⟨fd, hc⟩) hs
    | false =>
      rw [stale, hc] at hstale
      cases hstale

/-- Before `connect()` every descriptor has been closed or handed on. -/
theorem SocketInv.spent_calling (h : SocketInv s) (hpc : s.pc = .calling) (d : Nat) :
    s.spent d = if d < s.numFds then 1 else 0 := by
  have ha := h.account d
  have hnone : s.holding = none := by
    rw [holding, hpc]
    exact h.not_registered (by simp [h.calling (Or.inr hpc)])
  rw [hnone] at ha
  simpa using ha

theorem SocketInv.created_connect (h : SocketInv s) {d : Nat}
    (hm : .connect d ∈ s.trace ++ [.connect s.numFds]) : d < s.numFds + 1 := by
  rcases List.mem_append.mp hm with hm | hm
  · exact Nat.lt_succ_of_lt (h.created d hm)
  · rw [ConnectorEvent.connect.inj (List.mem_singleton.mp hm)]
    exact Nat.lt_succ_self _

theorem SocketInv.reset_connect (h : SocketInv s) (d : Nat) :
    .resetChannel (some ⟨d, true⟩) ∉ s.trace ++ [.connect s.numFds] := by
  intro hm
  rcases List.mem_append.mp hm with hm | hm
  · exact h.reset d hm
  · cases List.mem_singleton.mp hm

/-- The channel gets the new descriptor. -/
theorem socketInv_connecting (h : SocketInv s) (hpc : s.pc = .calling)
    (hok : .resetChannel ∉ s.functors.queue) :
    SocketInv ({ s.emit (.connect s.numFds) with
      numFds := s.numFds + 1
      lastSocket := some s.numFds }.connecting s.numFds) := by
  have hch := h.channel_eq_none (by simp [h.calling (Or.inr hpc)]) hok
  rw [connecting_eq (by exact hch)]
  refine ⟨?_, fun d hm => h.created_connect hm, by simp, ?_, h.threads, fun hn => absurd rfl hn,
    fun hn => by simp at hn, h.failed, h.reset_connect⟩
  · intro d
    show (s.emit (.connect s.numFds)).spent d + (if some s.numFds = some d then 1 else 0) =
      if d < s.numFds + 1 then 1 else 0
    rw [spent_emit, h.spent_calling hpc]
    by_cases hd : s.numFds = d
    · subst hd
      simp
    · simp only [reduceCtorEq, if_false, Nat.add_zero, Option.some.injEq, hd]
      split <;> split <;> omega
  · have := h.resets
    rw [stale, hch] at this
    exact this

/-- The new descriptor is closed at once. -/
theorem socketInv_closed (h : SocketInv s) (hpc : s.pc = .calling) {x : ConnectorState}
    {y : ConnectorPc} (hx : x = .kDisconnected) (hy : y = .idle ∨ y = .retrying) :
    SocketInv { { s.emit (.connect s.numFds) with
      numFds := s.numFds + 1
      lastSocket := some s.numFds }.emit (.close s.numFds) with
        state := x
        pc := y } := by
  have hs : s.state = .kDisconnected := h.calling (Or.inr hpc)
  have hmem : ∀ {e : ConnectorEvent}, e ≠ .close s.numFds →
      e ∈ s.trace ++ [.connect s.numFds] ++ [.close s.numFds] → e ∈ s.trace ++ [.connect s.numFds] := by
    intro e he hm
    exact (List.mem_append.mp hm).resolve_right fun hm => he (List.mem_singleton.mp hm)
  subst hx
  refine ⟨?_, fun d hm => h.created_connect (hmem (by simp) hm), hs ▸ h.registered, h.resets, h.threads,
    fun _ hk => (by cases hk), fun _ => rfl, h.failed, fun d hm => h.reset_connect d (hmem (by simp) hm)⟩
  intro d
  have hnone : (s.channel.filter (·.registered)).map ConnectorChannel.fd = none :=
    h.not_registered (by simp [hs])
  have hhold : holding { { s.emit (.connect s.numFds) with
      numFds := s.numFds + 1
      lastSocket := some s.numFds }.emit (.close s.numFds) with
        state := .kDisconnected
        pc := y } = none := by
    rcases hy with rfl | rfl
    · exact hnone
    · exact hnone
  rw [hhold]
  show ((s.emit (.connect s.numFds)).emit (.close s.numFds)).spent d + (if none = some d then 1 else 0) =
    if d < s.numFds + 1 then 1 else 0
  rw [spent_emit, spent_emit, h.spent_calling hpc]
  by_cases hd : s.numFds = d
  · subst hd
    simp
  · simp only [reduceCtorEq, if_false, Nat.add_zero, ConnectorEvent.close.injEq, hd]
    split <;> split <;> omega

/-- `connect()`, when the last channel is not in the way. -/
theorem socketInv_connectSocket (h : SocketInv s) (hpc : s.pc = .calling) {savedErrno : ConnectErrno}
    (hok : savedErrno.case = .connecting → .resetChannel ∉ s.functors.queue) :
    SocketInv (s.connectSocket savedErrno) := by
  unfold connectSocket
  simp only
  split
  · next hcase => exact socketInv_connecting h hpc (hok hcase)
  · exact socketInv_closed h hpc rfl (Or.inr rfl)
  · exact socketInv_closed h hpc (h.calling (Or.inr hpc)) (Or.inl rfl)

/-- A change of `pc` among places without a descriptor. -/
theorem SocketInv.move (h : SocketInv s) {y : ConnectorPc}
    (hx : s.pc = .starting ∨ s.pc = .retrying ∨ s.pc = .scheduling)
    (hy : y = .idle ∨ y = .calling ∧ s.pc = .starting ∨ y = .scheduling) :
    SocketInv { s with pc := y } := by
  have hne : s.state ≠ .kConnecting := h.pc (by rcases hx with hx | hx | hx <;> simp [hx])
  have hh : holding { s with pc := y } = s.holding := by
    rw [holding, holding]
    rcases hx with hx | hx | hx <;> rw [hx] <;> rcases hy with rfl | ⟨rfl, -⟩ | rfl <;> rfl
  refine ⟨fun fd => hh ▸ h.account fd, h.created, h.registered, h.resets, h.threads, fun _ => hne,
    ?_, h.failed, h.reset⟩
  intro hc
  rcases hy with rfl | ⟨rfl, hx⟩ | rfl
  · simp at hc
  · exact h.calling (Or.inl hx)
  · simp at hc

/-- `handleWrite` closes its descriptor or hands it on. -/
theorem SocketInv.spend (h : SocketInv s) (hpc : s.pc = .testing fd ∨ s.pc = .handing fd)
    (he : e = .close fd ∨ e = .newConnectionCallback fd) :
    SocketInv { s.emit e with pc := .idle } := by
  have hne : s.state ≠ .kConnecting := h.pc (by rcases hpc with hpc | hpc <;> simp [hpc])
  have hh : s.holding = some fd := by
    rw [holding]
    rcases hpc with hpc | hpc <;> rw [hpc]
  refine ⟨?_, ?_, h.registered, h.resets, h.threads, fun _ => hne, fun hn => (by simp at hn),
    h.failed, ?_⟩
  · intro d
    have ha := h.account d
    show (s.emit e).spent d +
      (if (s.channel.filter (·.registered)).map ConnectorChannel.fd = some d then 1 else 0) =
        if d < s.numFds then 1 else 0
    rw [h.not_registered hne, spent_emit]
    rw [hh] at ha
    rcases he with rfl | rfl
    · simpa using ha
    · simpa using ha
  · intro d hm
    exact h.created d ((List.mem_append.mp hm).resolve_right (by rcases he with rfl | rfl <;> simp))
  · intro d hm
    exact h.reset d ((List.mem_append.mp hm).resolve_right (by rcases he with rfl | rfl <;> simp))

theorem socketInv_resume (h : SocketInv s) {savedErrno : ConnectErrno}
    (hok : SocketOk s (.resume savedErrno)) : SocketInv (s.resume savedErrno) := by
  unfold resume
  split
  · exact h
  · next hpc =>
    refine h.move (Or.inl hpc) ?_
    split
    · exact Or.inr (Or.inl ⟨rfl, hpc⟩)
    · exact Or.inl rfl
  · next hpc => exact socketInv_connectSocket h hpc (hok hpc)
  · next hpc =>
    refine h.move (Or.inr (Or.inl hpc)) ?_
    split
    · exact Or.inr (Or.inr rfl)
    · exact Or.inl rfl
  · next hpc =>
    have hm := (h.move (Or.inr (Or.inr hpc)) (Or.inl rfl)).emit (e := .runAfter s.retryDelayMs) rfl
    exact ⟨hm.account, hm.created, hm.registered, hm.resets, hm.threads, hm.pc, hm.calling, hm.failed,
      hm.reset⟩
  · next fd hpc =>
    split
    · have hne := h.pc (by simp [hpc])
      have hh : s.holding = some fd := by rw [holding, hpc]
      exact ⟨fun d => (show s.spent d + (if some fd = some d then 1 else 0) = _ from hh ▸ h.account d),
        h.created, h.registered, h.resets, h.threads, fun _ => hne, fun hn => (by simp at hn), h.failed,
        h.reset⟩
    · exact h.spend (Or.inl hpc) (Or.inl rfl)
  · next fd hpc => exact h.spend (Or.inr hpc) (Or.inr rfl)

/-- A functor is taken off the queue. -/
def pop (s : Connector) : Connector := { s with functors := s.functors.tail }

theorem SocketInv.pop (h : SocketInv s) {f : ConnectorTask} {fs : List ConnectorTask}
    (hr : s.functors.rest = f :: fs) (hf : f ≠ .resetChannel) : SocketInv s.pop := by
  refine ⟨h.account, h.created, h.registered, ?_, h.threads, h.pc, h.calling, h.failed, h.reset⟩
  have := h.resets
  rw [Batched.count_of_rest hr, if_neg hf] at this
  exact this

theorem socketInv_resetChannel (h : SocketInv s) (hpc : s.pc = .idle) {fs : List ConnectorTask}
    (hr : s.functors.rest = .resetChannel :: fs) : SocketInv s.pop.resetChannel := by
  have hcount := h.resets
  rw [Batched.count_of_rest hr, if_pos rfl] at hcount
  obtain ⟨fd, hc⟩ : ∃ fd, s.channel = some ⟨fd, false⟩ := by
    unfold stale at hcount
    split at hcount
    · next hany =>
      obtain ⟨⟨fd, r⟩, hc, hf⟩ := (Option.any_eq_true _ _).mp hany
      exact ⟨fd, by rw [hc, show r = false by simpa using hf]⟩
    · omega
  have hstale : s.stale = 1 := by rw [stale, hc]; rfl
  have hhold : s.holding = none := by rw [holding, hpc, hc]; rfl
  refine ⟨?_, ?_, ?_, ?_, h.threads, h.pc, h.calling, h.failed, ?_⟩
  · intro d
    have ha := h.account d
    rw [hhold] at ha
    have hh : holding (Connector.resetChannel s.pop) = none := by
      rw [holding, show (Connector.resetChannel s.pop).pc = .idle from hpc]
      rfl
    rw [hh]
    show (s.emit (.resetChannel s.channel)).spent d + (if none = some d then 1 else 0) =
      if d < s.numFds then 1 else 0
    rw [spent_emit]
    simpa using ha
  · intro d hm
    exact h.created d ((List.mem_append.mp hm).resolve_right (by simp))
  · have := h.registered
    rw [hc] at this
    show s.state = _ ↔ ∃ d, none = some _
    simpa using this
  · show s.functors.tail.queue.count _ = 0
    omega
  · intro d hm
    rcases List.mem_append.mp hm with hm | hm
    · exact h.reset d hm
    · have := ConnectorEvent.resetChannel.inj (List.mem_singleton.mp hm)
      rw [show s.pop.channel = some ⟨fd, false⟩ from hc] at this
      simp at this

theorem socketInv_handleEvent (h : SocketInv s) (hpc : s.pc = .idle)
    (pollErr pollOut err selfConnect : Bool) :
    SocketInv (s.handleEvent pollErr pollOut err selfConnect) := by
  unfold handleEvent
  simp only
  have he := socketInv_handleError h hpc
  cases pollErr <;> cases pollOut
  · exact h
  · exact socketInv_handleWrite h (fun _ => hpc) err selfConnect
  · exact he.1
  · -- after `handleError` the connector is not connecting
    have hne : s.handleError.state ≠ .kConnecting := by
      by_cases hk : s.state = .kConnecting
      · rw [he.2 hk]
        simp
      · rw [handleError, if_neg hk]
        exact hk
    exact socketInv_handleWrite he.1 (fun hs => absurd hs hne) err selfConnect

theorem socketInv_stepped {a : Act} (h : SocketInv s) (hok : SocketOk s a) (hst : Stepped s a t) :
    SocketInv t := by
  have hthreads : ∀ k x, x ≠ some ConnectorTask.resetChannel →
      ∀ j, update s.threads k x j ≠ some .resetChannel := by
    intro k x hx j hj
    exact (update_eq_some hj).elim hx (h.threads j)
  cases hst with
  | start hpc =>
    have he := h.emit (e := .start) rfl
    exact socketInv_startInLoop ⟨he.account, he.created, he.registered, he.resets, he.threads, he.pc,
      he.calling, he.failed, he.reset⟩ hpc
  | stop n hpc =>
    have hq := h.queueInLoop (f := .stopInLoop n) (by simp)
    exact ⟨hq.account, hq.created, hq.registered, hq.resets, hq.threads, hq.pc, hq.calling, hq.failed,
      hq.reset⟩
  | restart hpc => exact socketInv_restart h hpc hok
  | startFrom k =>
    have he := h.emit (e := .start) rfl
    exact ⟨he.account, he.created, he.registered, he.resets, hthreads k _ (by simp), he.pc, he.calling,
      he.failed, he.reset⟩
  | stopFrom k n =>
    exact ⟨h.account, h.created, h.registered, h.resets, hthreads k _ (by simp), h.pc, h.calling,
      h.failed, h.reset⟩
  | queueFrom k f hf =>
    have hq := h.queueInLoop (f := f) fun he => h.threads k (he ▸ hf)
    exact ⟨hq.account, hq.created, hq.registered, hq.resets, hthreads k _ (by simp), hq.pc, hq.calling,
      hq.failed, hq.reset⟩
  | resume savedErrno hpc => exact socketInv_resume h hok
  | handleEvent pollErr pollOut err selfConnect c hpc hr hc =>
    exact socketInv_handleEvent h hpc pollErr pollOut err selfConnect
  | timer ms hpc =>
    exact socketInv_startInLoop ⟨h.account, h.created, h.registered, h.resets, h.threads, h.pc,
      h.calling, h.failed, h.reset⟩ hpc
  | doPendingFunctors hpc hr =>
    refine ⟨h.account, h.created, h.registered, ?_, h.threads, h.pc, h.calling, h.failed, h.reset⟩
    rw [Batched.queue_swap hr]
    exact h.resets
  | runFunctor f fs hpc hr =>
    cases f with
    | startInLoop => exact socketInv_startInLoop (h.pop hr (by simp)) hpc
    | stopInLoop n => exact socketInv_stopInLoop (h.pop hr (by simp)) hpc n
    | resetChannel => exact socketInv_resetChannel h hpc hr

theorem ownsLinearly_of_inv (h : SocketInv s) : OwnsLinearly s := by
  have hheld : ∀ d, s.Outstanding d → s.holding = some d := by
    rintro d ⟨hc, hcl, hn⟩
    have ha := h.account d
    rw [spent, List.count_eq_zero.mpr hcl, List.count_eq_zero.mpr hn, if_pos (h.created d hc)] at ha
    by_contra hd
    rw [if_neg hd] at ha
    omega
  refine ⟨?_, ?_, ?_, h.failed, h.reset⟩
  · intro a b ha hb
    exact Option.some.inj ((hheld a ha).symm.trans (hheld b hb))
  · intro d
    have ha := h.account d
    show s.spent d ≤ 1
    split at ha <;> split at ha <;> omega
  · intro d hd
    have hh := hheld d hd
    unfold holding at hh
    split at hh
    · next fd hpc =>
      obtain rfl := Option.some.inj hh
      exact Or.inr (Or.inl hpc)
    · next fd hpc =>
      obtain rfl := Option.some.inj hh
      exact Or.inr (Or.inr hpc)
    · obtain ⟨⟨fd, r⟩, hf, rfl⟩ := Option.map_eq_some_iff.mp hh
      obtain ⟨hc, hr⟩ := Option.filter_eq_some_iff.mp hf
      obtain rfl : r = true := hr
      exact Or.inl ⟨h.registered.mpr ⟨fd, hc⟩, hc⟩

/-- **The sockets are owned linearly** in every run whose steps are `SocketOk`. -/
theorem sockets_linear {as : List Act}
    (hrun : Steps.run (Steps.guarded SocketOk step) init as = some t) : OwnsLinearly t := by
  refine ownsLinearly_of_inv (Steps.run_invariant (I := SocketInv) ?_ ?_ hrun)
  · intro s a u h hs
    obtain ⟨hok, hs⟩ := Steps.guarded_eq_some.mp hs
    exact socketInv_stepped h hok (step_stepped hs).2
  · exact ⟨fun fd => by simp [init, spent, holding], by simp [init], by simp [init], rfl, by simp [init],
      by simp [init], by simp [init], by simp [init], by simp [init]⟩

/-- The first attempt is refused at once, the second fails later, the third succeeds. -/
def thirdTime : List Act :=
  [.start, .resume .none, .resume .ECONNREFUSED, .resume .none, .resume .none, .timer 500,
    .resume .none, .resume .EINPROGRESS, .handleEvent true true true false, .resume .none, .resume .none,
    .doPendingFunctors, .runFunctor, .timer 1000, .resume .none, .resume .EINPROGRESS,
    .handleEvent false true false false, .resume .none, .resume .none, .doPendingFunctors, .runFunctor]

theorem sockets_linear_thirdTime : ∃ t, Steps.run (Steps.guarded SocketOk step) init thirdTime = some t ∧
    t.numFds = 3 ∧ .newConnectionCallback 2 ∈ t.trace ∧ OwnsLinearly t := by
  have hobs : (Steps.run (Steps.guarded SocketOk step) init thirdTime).any
      (fun t => decide (t.numFds = 3 ∧ .newConnectionCallback 2 ∈ t.trace)) = true := by decide
  obtain ⟨t, ht, hobs⟩ := (Option.any_eq_true _ _).mp hobs
  obtain ⟨h1, h2⟩ := of_decide_eq_true hobs
  exact ⟨t, ht, h1, h2, sockets_linear ht⟩

/-- An attempt fails, and `start()` is called before the loop runs `resetChannel`. -/
def startAgain : List Act :=
  [.start, .resume .none, .resume .EINPROGRESS, .handleEvent true false true false, .resume .none,
    .resume .none, .start, .resume .none, .resume .EINPROGRESS]

/-- `restart()` during an attempt. -/
def restartTwice : List Act :=
  [.start, .resume .none, .resume .EINPROGRESS, .restart, .resume .none, .resume .ECONNREFUSED]

/-- A second `connecting()` comes before the end of the first channel; and `restart()` leaves the
descriptor of the attempt that was going on. -/
theorem connecting_too_early :
    (∃ t, Steps.run step init startAgain = some t ∧ ¬ OwnsLinearly t) ∧
      ∃ t, Steps.run step init restartTwice = some t ∧ ¬ OwnsLinearly t := by
  have hobs1 : (Steps.run step init startAgain).any
      (fun t => decide (t.failed = some .connecting)) = true := by decide
  have hobs2 : (Steps.run step init restartTwice).any (fun t => decide
      ((.connect 0 ∈ t.trace ∧ .close 0 ∉ t.trace ∧ .newConnectionCallback 0 ∉ t.trace) ∧
        t.state = .kDisconnected ∧ t.pc = .retrying)) = true := by decide
  obtain ⟨t, ht, hobs1⟩ := (Option.any_eq_true _ _).mp hobs1
  obtain ⟨u, hu, hobs2⟩ := (Option.any_eq_true _ _).mp hobs2
  obtain ⟨hout, hs, hpc⟩ := of_decide_eq_true hobs2
  refine ⟨⟨t, ht, fun h => h.channel (of_decide_eq_true hobs1)⟩, u, hu, ?_⟩
  intro h
  rcases h.ended 0 hout with ⟨hk, -⟩ | hk | hk
  · rw [hs] at hk
    cases hk
  · rw [hpc] at hk
    cases hk
  · rw [hpc] at hk
    cases hk

end

end Connector

end SimpleNet
