import SimpleNet.Dispatch.Basic
import SimpleNet.Lib.Snapshot
import SimpleNet.Lib.Run

/-!
# The walk over the active channels

`poll` fills `activeChannels_` before any handler runs, and `loop()` goes through it with raw
pointers.  A channel that is removed in between must therefore be the one being handled or not
be in the list, which is what `removeChannel` asserts.

The handlers of the library keep to it: a connector removes only its channel that is being
handled, a server or client that is told of a close queues `connectDestroyed`, and functors run
when no event is being handled.  `~TcpServer` does not: it calls `connectDestroyed` through
`runInLoop`, which on the loop's thread is at once (`removes_active`).

* `dispatch_registered`: if no handler destroys a server that has another active channel, the
  assertion never fails and every channel is in the poller when its `handleEvent` is called.
-/

namespace SimpleNet

namespace Dispatch

/-! ### Code that may fail an assertion -/

/-- `P` holds afterwards, or an assertion other than that of `EventLoop::removeChannel` has
failed. -/
def Sat {α : Type} (P : α → Prop) : Except Stop α → Prop
  | .ok a => P a
  | .error e => e ≠ .assertion .removeActive

section

variable {α β : Type} {P P' : α → Prop} {Q : β → Prop}

theorem Sat.bind {x : Except Stop α} {f : α → Except Stop β} (hx : Sat P x)
    (hf : ∀ a, P a → Sat Q (f a)) : Sat Q (x >>= f) := by
  cases x with
  | ok a => exact hf a hx
  | error e => exact hx

theorem Sat.mono {x : Except Stop α} (hx : Sat P x) (h : ∀ a, P a → P' a) : Sat P' x := by
  cases x with
  | ok a => exact h a hx
  | error e => exact hx

theorem sat_check {x : Stop} {p : Prop} [Decidable p] (hx : x ≠ .assertion .removeActive) :
    Sat (fun _ => p) (check x p) := by
  unfold check
  split
  · next hp => exact hp
  · exact hx

end

/-! ### The invariant -/

/-- What a frame relies on. -/
def Frame.Ok (r : Reactor ChannelName) : Frame → Prop
  | .onClose ch | .onError ch | .onRead ch | .onWrite ch | .handled ch =>
    r.currentActiveChannel = some ch
  | .remove c => r.Removable (.connection c)
  | .destroying sv rest => r.Removable (.acceptor sv) ∧ ∀ c ∈ rest, r.Removable (.connection c)
  | .user | .closeCallback _ | .expired _ => True

/-- The walk over the active channels. -/
def walk (s : Dispatch) (todo : List ChannelName) : Snapshot ChannelName :=
  ⟨s.reactor.activeChannels, s.reactor.currentActiveChannel, todo⟩

structure Inv (s : Dispatch) : Prop where
  mapped : s.reactor.Mapped
  events : ∀ todo, s.phase = .events todo →
    s.reactor.eventHandling = true ∧ (s.walk todo).Sound s.reactor.HasChannel
  quiet : (∀ todo, s.phase ≠ .events todo) →
    s.reactor.eventHandling = false ∧ s.reactor.currentActiveChannel = none
  frames : ∀ f ∈ s.frames, f.Ok s.reactor
  /-- a channel of a connector that is in the poller is its `channel_` -/
  owner : ∀ k n, s.reactor.HasChannel (.connector k n) → (s.clients k).channel = some n
  single : ∀ k m n, .connector k m ∈ s.reactor.activeChannels →
    .connector k n ∈ s.reactor.activeChannels → m = n
  handled : ∀ p ∈ s.handled, p.2 = true
  running : s.stopped = none

section

variable {s t : Dispatch} {ch : ChannelName} {r : Reactor ChannelName}

/-- What the invariant does not speak of may change. -/
theorem Inv.congr (h : Inv s) (hr : t.reactor = s.reactor) (hp : t.phase = s.phase)
    (hf : ∀ f ∈ t.frames, f ∈ s.frames ∨ f.Ok s.reactor)
    (hc : ∀ k n, s.reactor.HasChannel (.connector k n) → (t.clients k).channel = some n)
    (hh : t.handled = s.handled) (hs : t.stopped = s.stopped) : Inv t where
  mapped := by rw [hr]; exact h.mapped
  events todo ht := by
    rw [hp] at ht
    unfold walk
    rw [hr]
    exact h.events todo ht
  quiet hq := by
    rw [hp] at hq
    rw [hr]
    exact h.quiet hq
  frames f hf' := by
    rw [hr]
    exact (hf f hf').elim (h.frames f) id
  owner k n hk := by
    rw [hr] at hk
    exact hc k n hk
  single := by rw [hr]; exact h.single
  handled := by rw [hh]; exact h.handled
  running := hs.trans h.running

theorem Inv.push (h : Inv s) {l : List Frame} (hl : ∀ f ∈ l, f.Ok s.reactor) : Inv (s.push l) := by
  refine h.congr rfl rfl ?_ h.owner rfl rfl
  intro f hf
  rcases List.mem_append.mp hf with hf | hf
  · exact Or.inr (hl f hf)
  · exact Or.inl hf

theorem Inv.setConn (h : Inv s) (c : Nat) (x : Conn) : Inv (s.setConn c x) :=
  h.congr rfl rfl (fun _ => Or.inl) h.owner rfl rfl

theorem Inv.setServer (h : Inv s) (sv : Nat) (x : Server) : Inv (s.setServer sv x) :=
  h.congr rfl rfl (fun _ => Or.inl) h.owner rfl rfl

theorem Inv.queueInLoop (h : Inv s) (f : Functor) : Inv (s.queueInLoop f) :=
  h.congr rfl rfl (fun _ => Or.inl) h.owner rfl rfl

theorem Inv.runAfter (h : Inv s) (x : TimerCallback) : Inv (s.runAfter x) :=
  h.congr rfl rfl (fun _ => Or.inl) h.owner rfl rfl

theorem Inv.newConn (h : Inv s) (x : CloseCallback) (here : Bool) : Inv (s.newConn x here) :=
  h.congr rfl rfl (fun _ => Or.inl) h.owner rfl rfl

theorem Inv.setClient_of (h : Inv s) (k : Nat) (x : Client)
    (hx : ∀ n, s.reactor.HasChannel (.connector k n) → x.channel = some n) : Inv (s.setClient k x) := by
  refine h.congr rfl rfl (fun _ => Or.inl) (fun j n hj => ?_) rfl rfl
  by_cases hjk : j = k
  · subst hjk; simpa [Dispatch.setClient] using hx n hj
  · simpa [Dispatch.setClient, hjk] using h.owner j n hj

theorem Inv.setClient (h : Inv s) (k : Nat) (x : Client) (hx : x.channel = (s.clients k).channel) :
    Inv (s.setClient k x) :=
  h.setClient_of k x fun n hn => hx.trans (h.owner k n hn)

theorem Frame.Ok.around {f : Frame} {r t : Reactor ChannelName} (hf : f.Ok r)
    (h : Reactor.Around ch r t) : f.Ok t := by
  cases f with
  | onClose | onError | onRead | onWrite | handled => exact h.currentActiveChannel.trans hf
  | remove c => exact h.removable.mpr hf
  | destroying sv rest => exact ⟨h.removable.mpr hf.1, fun c hc => h.removable.mpr (hf.2 c hc)⟩
  | user | closeCallback | expired => trivial

/-- An operation of a channel has changed the reactor. -/
structure Ran (ch : ChannelName) (s t : Dispatch) : Prop where
  around : Reactor.Around ch s.reactor t.reactor
  eq : t = { s with reactor := t.reactor }

theorem Inv.setReactor (h : Inv s) (ha : Reactor.Around ch s.reactor r) (hm : r.Mapped)
    (hs : ∀ todo, s.phase = .events todo → (s.walk todo).Sound r.HasChannel)
    (ho : ∀ k n, r.HasChannel (.connector k n) → (s.clients k).channel = some n) :
    Inv { s with reactor := r } where
  mapped := hm
  events todo ht := by
    have hw : walk { s with reactor := r } todo = s.walk todo := by
      unfold walk
      rw [ha.activeChannels, ha.currentActiveChannel]
    rw [hw]
    exact ⟨ha.eventHandling.trans (h.events todo ht).1, hs todo ht⟩
  quiet hq := ⟨ha.eventHandling.trans (h.quiet hq).1, ha.currentActiveChannel.trans (h.quiet hq).2⟩
  frames f hf := (h.frames f hf).around ha
  owner := ho
  single := by
    show ∀ k m n, _ ∈ r.activeChannels → _ ∈ r.activeChannels → m = n
    rw [ha.activeChannels]
    exact h.single
  handled := h.handled
  running := h.running

/-- **An update of a channel.** -/
theorem sat_update (h : Inv s) {op : Reactor.Op} (hop : op ≠ .remove)
    (hch : ∀ k n, ch = .connector k n → (s.clients k).channel = some n) :
    Sat (fun t => Inv t ∧ Ran ch s t) (s.exec ch op) := by
  unfold exec
  rw [Reactor.exec_of_ne_remove _ _ hop]
  cases he : s.reactor.channelUpdate ch (op.mask (s.reactor.chan ch).events) with
  | error a =>
    rintro ⟨⟩
    simpa using Reactor.channelUpdate_error he
  | ok r =>
    obtain ⟨ha, hm, hc⟩ := Reactor.channelUpdate_ok h.mapped he
    have hlive : ∀ d, s.reactor.HasChannel d → r.HasChannel d := by
      intro d hd
      by_cases hdc : d = ch
      · exact hdc ▸ hc
      · exact (ha.others d hdc).mpr hd
    refine ⟨h.setReactor ha hm (fun todo ht => ((h.events todo ht).2).mono hlive) ?_, ha, rfl⟩
    intro k n hk
    by_cases hdc : .connector k n = ch
    · exact hch k n hdc.symm
    · exact h.owner k n ((ha.others _ hdc).mp hk)

/-- **A removal**, where the walk allows it. -/
theorem sat_remove (h : Inv s) (hr : s.reactor.Removable ch) :
    Sat (fun t => Inv t ∧ Ran ch s t ∧ ¬ t.reactor.HasChannel ch) (s.exec ch .remove) := by
  unfold exec
  rw [show s.reactor.exec ch .remove = s.reactor.remove ch from rfl]
  cases he : s.reactor.remove ch with
  | error a =>
    rintro ⟨⟩
    exact Reactor.remove_ne_active hr he
  | ok r =>
    obtain ⟨-, ha, hm, hc⟩ := Reactor.remove_removed h.mapped he
    refine ⟨h.setReactor ha hm ?_ ?_, ⟨ha, rfl⟩, hc⟩
    · intro todo ht
      obtain ⟨hh, hs⟩ := h.events todo ht
      exact hs.remove (hr hh) fun d hd hl => (ha.others d hd).mpr hl
    · intro k n hk
      have hne : .connector k n ≠ ch := by
        rintro rfl
        exact hc hk
      exact h.owner k n ((ha.others _ hne).mp hk)

theorem sat_update_inv (h : Inv s) {op : Reactor.Op} (hop : op ≠ .remove)
    (hch : ∀ k n, ch ≠ .connector k n) : Sat Inv (s.exec ch op) :=
  (sat_update h hop fun k n he => absurd he (hch k n)).mono fun _ ht => ht.1

/-! ### Connections -/

theorem ok_user (r : Reactor ChannelName) : ∀ f ∈ [Frame.user], f.Ok r := by
  simp [Frame.Ok]

theorem sat_connectEstablished (h : Inv s) (c : Nat) : Sat Inv (s.connectEstablished c) := by
  unfold connectEstablished
  refine Sat.bind (sat_check (by simp)) fun _ _ => ?_
  refine Sat.bind (sat_update_inv (h.setConn c _) (by simp) (by simp)) fun t ht => ?_
  exact ht.push (ok_user _)

theorem sat_connectDestroyed (h : Inv s) {c : Nat} (hr : s.reactor.Removable (.connection c)) :
    Sat Inv (s.connectDestroyed c) := by
  unfold connectDestroyed
  split
  · refine Sat.bind (sat_update (h.setConn c _) (by simp) (by simp)) fun t ⟨ht, hran⟩ => ?_
    have hr' : t.reactor.Removable (.connection c) := hran.around.removable.mpr hr
    exact ht.push (by simpa [Frame.Ok] using hr')
  · exact h.push (by simpa [Frame.Ok] using hr)

theorem sat_handleClose (h : Inv s) (c : Nat) : Sat Inv (s.handleClose c) := by
  unfold handleClose
  refine Sat.bind (sat_check (by simp)) fun _ _ => ?_
  refine Sat.bind (sat_update_inv (h.setConn c _) (by simp) (by simp)) fun t ht => ?_
  exact ht.push (by simp [Frame.Ok])

theorem sat_connHandleRead (h : Inv s) (o : Answers) (c : Nat) : Sat Inv (s.connHandleRead o c) := by
  unfold connHandleRead
  split
  · exact h.push (ok_user _)
  · exact sat_handleClose h c
  · exact h

theorem sat_connHandleWrite (h : Inv s) (o : Answers) (c : Nat) :
    Sat Inv (s.connHandleWrite o c) := by
  unfold connHandleWrite
  split
  · split
    · exact sat_update_inv h (by simp) (by simp)
    · exact h
  · exact h

theorem sat_sendInLoop (h : Inv s) (o : Answers) (c : Nat) : Sat Inv (s.sendInLoop o c) := by
  unfold sendInLoop
  split
  · exact h
  · split
    · exact sat_update_inv h (by simp) (by simp)
    · exact h

theorem sat_startReadInLoop (h : Inv s) (c : Nat) : Sat Inv (s.startReadInLoop c) := by
  unfold startReadInLoop
  split
  · refine Sat.bind (sat_update_inv h (by simp) (by simp)) fun t ht => ?_
    exact ht.setConn c _
  · exact h

theorem sat_stopReadInLoop (h : Inv s) (c : Nat) : Sat Inv (s.stopReadInLoop c) := by
  unfold stopReadInLoop
  split
  · refine Sat.bind (sat_update_inv h (by simp) (by simp)) fun t ht => ?_
    exact ht.setConn c _
  · exact h

theorem inv_forceClose (h : Inv s) (c : Nat) : Inv (s.forceClose c) := by
  unfold forceClose
  split
  · exact (h.setConn c _).queueInLoop _
  · exact h

theorem sat_forceCloseInLoop (h : Inv s) (c : Nat) : Sat Inv (s.forceCloseInLoop c) := by
  unfold forceCloseInLoop
  split
  · exact sat_handleClose h c
  · exact h

theorem inv_forceCloseWithDelay (h : Inv s) (c : Nat) : Inv (s.forceCloseWithDelay c) := by
  unfold forceCloseWithDelay
  split
  · exact (h.setConn c _).runAfter _
  · exact h

/-! ### Servers -/

theorem sat_serverNewConnection (h : Inv s) (sv : Nat) : Sat Inv (s.serverNewConnection sv) := by
  simp only [serverNewConnection]
  split
  · exact sat_connectEstablished ((h.newConn _ _).setServer sv _) _
  · exact (h.newConn _ _).setServer sv _

theorem sat_acceptorHandleRead (h : Inv s) (o : Answers) (sv : Nat) :
    Sat Inv (s.acceptorHandleRead o sv) := by
  unfold acceptorHandleRead
  split
  · exact sat_serverNewConnection h sv
  · exact h

theorem sat_removeConnectionInLoop (h : Inv s) (sv c : Nat) :
    Sat Inv (s.removeConnectionInLoop sv c) := by
  unfold removeConnectionInLoop
  refine Sat.bind (sat_check (by simp)) fun _ _ => ?_
  refine Sat.bind (sat_check (by simp)) fun _ _ => ?_
  simp only
  split
  · exact (h.setServer sv _).queueInLoop _
  · exact h.setServer sv _

theorem sat_acceptorDtor (h : Inv s) {sv : Nat} (hr : s.reactor.Removable (.acceptor sv)) :
    Sat Inv (s.acceptorDtor sv) := by
  unfold acceptorDtor
  refine Sat.bind (sat_update h (by simp) (by simp)) fun t ⟨ht, hran⟩ => ?_
  refine Sat.bind (sat_remove ht (hran.around.removable.mpr hr)) fun u ⟨hu, _, _⟩ => ?_
  exact Sat.bind (sat_check (by simp)) fun _ _ => hu

theorem sat_destroyConnection (h : Inv s) {c : Nat} (hr : s.reactor.Removable (.connection c)) :
    Sat Inv (s.destroyConnection c) := by
  unfold destroyConnection
  split
  · exact sat_connectDestroyed h hr
  · exact h

/-! ### Clients -/

theorem inv_retry (h : Inv s) (k : Nat) : Inv (s.retry k) := by
  have h' := h.setClient k { s.clients k with state := .kDisconnected } rfl
  unfold retry
  simp only
  split
  · exact h'.runAfter _
  · exact h'

theorem sat_connecting (h : Inv s) (k : Nat) : Sat Inv (s.connecting k) := by
  unfold connecting
  refine Sat.bind (sat_check (by simp)) fun _ hnull => ?_
  -- no channel of the connector is in the poller, so the new one may be its `channel_`
  have h' := h.setClient_of k { s.clients k with
      state := .kConnecting, channel := some (s.clients k).numChannels
      numChannels := (s.clients k).numChannels + 1 } fun n hn => by
    rw [h.owner k n hn] at hnull
    cases hnull
  refine (sat_update h' (by simp) ?_).mono fun _ ht => ht.1
  rintro j n ⟨⟩
  simp [setClient]

theorem sat_startInLoop (h : Inv s) (o : Answers) (k : Nat) : Sat Inv (s.startInLoop o k) := by
  unfold startInLoop
  refine Sat.bind (sat_check (by simp)) fun _ _ => ?_
  split
  · split
    · exact sat_connecting h k
    · exact inv_retry h k
    · exact h
  · exact h

theorem sat_removeAndResetChannel (h : Inv s) {k : Nat}
    (hr : ∀ n, (s.clients k).channel = some n → s.reactor.Removable (.connector k n)) :
    Sat Inv (s.removeAndResetChannel k) := by
  unfold removeAndResetChannel
  split
  · simp [Sat]
  · next n hn =>
    have hown : ∀ j m, ChannelName.connector k n = .connector j m →
        (s.clients j).channel = some m := by
      rintro j m ⟨⟩
      exact hn
    refine Sat.bind (sat_update h (by simp) hown) fun t ⟨ht, hran⟩ => ?_
    have hrem : t.reactor.Removable (.connector k n) := hran.around.removable.mpr (hr n hn)
    refine Sat.bind (sat_remove ht hrem) fun u ⟨hu, _, _⟩ => ?_
    exact hu.queueInLoop _

theorem sat_resetChannel (h : Inv s) (k : Nat) : Sat Inv (s.resetChannel k) := by
  unfold resetChannel
  split
  · exact h
  · next n hn =>
    refine Sat.bind (sat_check (by simp)) fun _ hdtor => ?_
    refine h.setClient_of k _ fun m hm => ?_
    rw [h.owner k m hm] at hn
    obtain rfl := Option.some.inj hn
    exact absurd hm hdtor.2.2

theorem sat_stopInLoop (h : Inv s) (hq : s.reactor.eventHandling = false) (k : Nat) :
    Sat Inv (s.stopInLoop k) := by
  unfold stopInLoop
  split
  · have h' := h.setClient k { s.clients k with state := .kDisconnected } rfl
    refine Sat.bind (sat_removeAndResetChannel h' fun n _ hh => ?_) fun t ht => ?_
    · rw [show (s.setClient k _).reactor = s.reactor from rfl, hq] at hh
      cases hh
    · exact inv_retry ht k
  · exact h

theorem sat_clientNewConnection (h : Inv s) (k : Nat) : Sat Inv (s.clientNewConnection k) := by
  unfold clientNewConnection
  refine Sat.bind (sat_check (by simp)) fun _ _ => ?_
  exact sat_connectEstablished ((h.newConn _ _).setClient k _ (by rfl)) _

theorem sat_connectorHandleWrite (h : Inv s) (o : Answers) {k : Nat}
    (hr : ∀ n, (s.clients k).channel = some n → s.reactor.Removable (.connector k n)) :
    Sat Inv (s.connectorHandleWrite o k) := by
  unfold connectorHandleWrite
  split
  · refine Sat.bind (sat_removeAndResetChannel h hr) fun t ht => ?_
    split
    · exact inv_retry ht k
    · have ht' := ht.setClient k { t.clients k with state := .kConnected } rfl
      simp only
      split
      · exact sat_clientNewConnection ht' k
      · exact ht'
  · exact Sat.bind (sat_check (by simp)) fun _ _ => h

theorem sat_connectorHandleError (h : Inv s) {k : Nat}
    (hr : ∀ n, (s.clients k).channel = some n → s.reactor.Removable (.connector k n)) :
    Sat Inv (s.connectorHandleError k) := by
  unfold connectorHandleError
  split
  · exact Sat.bind (sat_removeAndResetChannel h hr) fun t ht => inv_retry ht k
  · exact h

theorem sat_clientRemoveConnection (h : Inv s) (o : Answers) (k c : Nat) :
    Sat Inv (s.clientRemoveConnection o k c) := by
  unfold clientRemoveConnection
  refine Sat.bind (sat_check (by simp)) fun _ _ => ?_
  refine Sat.bind (sat_check (by simp)) fun _ _ => ?_
  have h' := (h.setClient k { s.clients k with connection := none } rfl).queueInLoop
    (.connectDestroyed c)
  simp only
  split
  · exact sat_startInLoop (h'.setClient k _ (by rfl)) o k
  · exact h'

theorem inv_destroyClient (h : Inv s) (o : Answers) (k : Nat) : Inv (s.destroyClient o k) := by
  have h' := h.setClient k { s.clients k with life := .destroyed } rfl
  simp only [destroyClient]
  split
  · next c hc =>
    split
    · exact inv_forceClose (h'.setConn c _) c
    · exact h'.setConn c _
  · exact (h'.setClient k _ (by rfl)).queueInLoop _

theorem sat_closeCallback (h : Inv s) (o : Answers) (c : Nat) : Sat Inv (s.closeCallback o c) := by
  unfold closeCallback
  split
  · exact sat_removeConnectionInLoop h _ c
  · exact h
  · exact sat_clientRemoveConnection h o _ c
  · exact h.queueInLoop _

/-! ### The handlers of a channel -/

theorem Inv.current_mem (h : Inv s) (hh : s.reactor.eventHandling = true)
    (hc : s.reactor.currentActiveChannel = some ch) : ch ∈ s.reactor.activeChannels := by
  by_cases hp : ∃ todo, s.phase = .events todo
  · obtain ⟨todo, hp⟩ := hp
    exact ((h.events todo hp).2.current ch hc).1
  · rw [(h.quiet fun todo ht => hp ⟨todo, ht⟩).1] at hh
    cases hh

/-- While a channel of a connector is handled, no other channel of it is active. -/
theorem Inv.connector_removable (h : Inv s) {k m : Nat}
    (hc : s.reactor.currentActiveChannel = some (.connector k m)) (n : Nat) :
    s.reactor.Removable (.connector k n) := by
  intro hh
  by_cases hn : .connector k n ∈ s.reactor.activeChannels
  · left
    rw [hc, h.single k m n (h.current_mem hh hc) hn]
  · exact Or.inr hn

theorem sat_onClose (h : Inv s) (ch : ChannelName) : Sat Inv (s.onClose ch) := by
  cases ch with
  | connection c => exact sat_handleClose h c
  | user n => exact h.push (ok_user _)
  | wakeup | timerfd | acceptor sv | connector k n => exact h

theorem sat_onError (h : Inv s) (hc : s.reactor.currentActiveChannel = some ch) :
    Sat Inv (s.onError ch) := by
  cases ch with
  | connector k m => exact sat_connectorHandleError h fun n _ => h.connector_removable hc n
  | user n => exact h.push (ok_user _)
  | wakeup | timerfd | acceptor sv | connection c => exact h

theorem sat_onRead (h : Inv s) (o : Answers) (ch : ChannelName) : Sat Inv (s.onRead o ch) := by
  cases ch with
  | timerfd =>
    have h' : Inv { s with timers := s.timers.diff o.expired } :=
      h.congr rfl rfl (fun _ => Or.inl) h.owner rfl rfl
    exact h'.push (by simp [Frame.Ok])
  | acceptor sv => exact sat_acceptorHandleRead h o sv
  | connection c => exact sat_connHandleRead h o c
  | user n => exact h.push (ok_user _)
  | wakeup | connector k n => exact h

theorem sat_onWrite (h : Inv s) (o : Answers) (hc : s.reactor.currentActiveChannel = some ch) :
    Sat Inv (s.onWrite o ch) := by
  cases ch with
  | connection c => exact sat_connHandleWrite h o c
  | connector k m => exact sat_connectorHandleWrite h o fun n _ => h.connector_removable hc n
  | user n => exact h.push (ok_user _)
  | wakeup | timerfd | acceptor sv => exact h

theorem sat_runTimer (h : Inv s) (o : Answers) (x : TimerCallback) : Sat Inv (s.runTimer o x) := by
  cases x with
  | user => exact h.push (ok_user _)
  | startInLoop k => exact sat_startInLoop h o k
  | forceClose c => exact inv_forceClose h c

/-- A functor runs when no event is being handled, so it may remove any channel. -/
theorem sat_runFunctor (h : Inv s) (o : Answers) (hq : s.reactor.eventHandling = false)
    (f : Functor) : Sat Inv (s.runFunctor o f) := by
  cases f with
  | user => exact h.push (ok_user _)
  | connectEstablished c => exact sat_connectEstablished h c
  | connectDestroyed c =>
    refine sat_connectDestroyed h fun hh => ?_
    rw [hq] at hh
    cases hh
  | forceCloseInLoop c => exact sat_forceCloseInLoop h c
  | sendInLoop c => exact sat_sendInLoop h o c
  | startReadInLoop c => exact sat_startReadInLoop h c
  | stopReadInLoop c => exact sat_stopReadInLoop h c
  | removeConnectionInLoop sv c => exact sat_removeConnectionInLoop h sv c
  | startInLoop k => exact sat_startInLoop h o k
  | stopInLoop k => exact sat_stopInLoop h hq k
  | resetChannel k => exact sat_resetChannel h k

/-- What the tests of `handleEventWithGuard` choose between. -/
theorem sat_ite {p : Prop} [Decidable p] (h : Inv s) {x : Except Stop Dispatch} (hx : Sat Inv x) :
    Sat Inv (if p then x else .ok s) := by
  split
  · exact hx
  · exact h

/-- The flag of the channel that is being handled. -/
theorem Inv.setFlag (h : Inv s) (ch : ChannelName) (b : Bool) : Inv { s with
    reactor := s.reactor.setChan ch { s.reactor.chan ch with eventHandling := b } } := by
  have hlive := fun d => Reactor.hasChannel_setChan (r := s.reactor) ch d
    { s.reactor.chan ch with eventHandling := b } rfl
  refine h.setReactor (Reactor.around_setChan ch { s.reactor.chan ch with eventHandling := b } rfl)
    (h.mapped.setChan ch _ rfl fun hi => hi) ?_ ?_
  · intro todo ht
    exact (h.events todo ht).2.mono fun d hd => (hlive d).mpr hd
  · intro k n hk
    exact h.owner k n ((hlive _).mp hk)

/-- **The rest of a frame.** -/
theorem sat_resume (h : Inv s) {o : Answers} {f : Frame} (hf : f.Ok s.reactor)
    {x : Except Stop Dispatch} (hx : s.resume o f = some x) : Sat Inv x := by
  cases f with
  | user => cases hx
  | onClose ch =>
    obtain rfl := Option.some.inj hx
    exact sat_ite h (sat_onClose h ch)
  | onError ch =>
    obtain rfl := Option.some.inj hx
    exact sat_ite h (sat_onError h hf)
  | onRead ch =>
    simp only [resume] at hx
    split at hx
    · cases hx
    · obtain rfl := Option.some.inj hx
      exact sat_ite h (sat_onRead h o ch)
  | onWrite ch =>
    obtain rfl := Option.some.inj hx
    exact sat_ite h (sat_onWrite h o hf)
  | handled ch =>
    obtain rfl := Option.some.inj hx
    exact h.setFlag ch false
  | closeCallback c =>
    obtain rfl := Option.some.inj hx
    exact sat_closeCallback h o c
  | remove c =>
    obtain rfl := Option.some.inj hx
    exact (sat_remove h hf).mono fun _ ht => ht.1
  | destroying sv rest =>
    cases rest with
    | nil =>
      obtain rfl := Option.some.inj hx
      exact sat_acceptorDtor h hf.1
    | cons c rest =>
      simp only [resume] at hx
      split at hx
      · next ho =>
        obtain rfl := Option.some.inj hx
        have hrest : (Frame.destroying sv ((c :: rest).erase o.conn)).Ok s.reactor :=
          ⟨hf.1, fun d hd => hf.2 d (List.mem_of_mem_erase hd)⟩
        refine sat_destroyConnection (h.push ?_) (hf.2 o.conn ho)
        simpa using hrest
      · cases hx
  | expired rest =>
    cases rest with
    | nil =>
      obtain rfl := Option.some.inj hx
      exact h
    | cons x' rest =>
      obtain rfl := Option.some.inj hx
      exact sat_runTimer (h.push (by simp [Frame.Ok])) o x'

/-! ### The loop -/

/-- **The next active channel** is in the poller. -/
theorem inv_handleEvent (h : Inv s) {todo : List ChannelName} (hp : s.phase = .events (ch :: todo)) :
    Inv (s.handleEvent ch todo) := by
  obtain ⟨hh, hs⟩ := h.events _ hp
  obtain ⟨hc, hs⟩ := hs.visit rfl
  have h' : Inv { s with
      reactor := { s.reactor with currentActiveChannel := some ch }
      phase := .events todo
      frames := [.onClose ch, .onError ch, .onRead ch, .onWrite ch, .handled ch]
      handled := s.handled ++ [(ch, decide (s.reactor.HasChannel ch))] } := by
    refine ⟨h.mapped, ?_, ?_, by simp [Frame.Ok], h.owner, h.single, ?_, h.running⟩
    · rintro todo' ⟨⟩
      exact ⟨hh, hs⟩
    · intro hq
      exact absurd rfl (hq todo)
    · intro p hm
      rcases List.mem_append.mp hm with hm | hm
      · exact h.handled p hm
      · rw [List.mem_singleton.mp hm]
        exact decide_eq_true hc
  exact h'.setFlag ch true

theorem inv_eventsDone (h : Inv s) (hf : s.frames = []) : Inv s.eventsDone where
  mapped := h.mapped
  events := nofun
  quiet _ := ⟨rfl, rfl⟩
  frames f hm := by
    rw [show s.eventsDone.frames = s.frames from rfl, hf] at hm
    cases hm
  owner := h.owner
  single := h.single
  handled := h.handled
  running := h.running

theorem sat_go (h : Inv s) {o : Answers} {x : Except Stop Dispatch} (hx : s.go o = some x) :
    Sat Inv x := by
  unfold go at hx
  split at hx
  · next f fs hf =>
    have hpop : Inv { s with frames := fs } :=
      h.congr rfl rfl (fun g hg => Or.inl (by rw [hf]; exact List.mem_cons_of_mem f hg)) h.owner rfl rfl
    exact sat_resume hpop (h.frames f (by rw [hf]; exact List.mem_cons_self)) hx
  · cases hx
  · next hp =>
    obtain rfl := Option.some.inj hx
    exact inv_handleEvent h hp
  · next hf hp =>
    obtain rfl := Option.some.inj hx
    exact inv_eventsDone h hf
  · next hf hp hr =>
    obtain rfl := Option.some.inj hx
    have htail : Inv { s with functors := s.functors.tail } :=
      h.congr rfl rfl (fun _ => Or.inl) h.owner rfl rfl
    exact sat_runFunctor htail o (h.quiet fun todo ht => by rw [hp] at ht; cases ht).1 _
  · next hf hp hr =>
    obtain rfl := Option.some.inj hx
    have hq := h.quiet fun todo ht => by rw [hp] at ht; cases ht
    exact ⟨h.mapped, nofun, fun _ => hq, h.frames, h.owner, h.single, h.handled, h.running⟩

/-- **`poll` takes a snapshot** of channels that are in the poller. -/
theorem sat_poll (h : Inv s) (hp : s.phase = .poll) (hf : s.frames = []) {evs : List (Int × Mask)}
    {x : Except Stop Dispatch} (hx : s.poll evs = some x) : Sat Inv x := by
  obtain ⟨l, hl, rfl⟩ := Option.map_eq_some_iff.mp hx
  obtain ⟨hn, hlive⟩ := h.mapped.epollWait hl
  obtain ⟨-, hc⟩ := h.quiet fun todo ht => by rw [hp] at ht; cases ht
  cases hr : { s.reactor with activeChannels := [] }.fillActiveChannels l with
  | error a =>
    obtain ⟨t, ht⟩ := Reactor.fillActiveChannels_ok
      (r := { s.reactor with activeChannels := [] }) fun p hm => hlive p.2 (List.mem_map_of_mem hm)
    rw [ht] at hr
    cases hr
  | ok r =>
    obtain ⟨hsame, hact, hcur⟩ := Reactor.fillActiveChannels_same hr
    simp only [List.nil_append] at hact
    have hchan : ∀ c, r.HasChannel c ↔ s.reactor.HasChannel c := hsame.hasChannel
    have htake : walk { s with reactor := { r with eventHandling := true } } r.activeChannels =
        Snapshot.take (l.map Prod.snd) := by
      simp [walk, Snapshot.take, hact, hcur, hc]
    refine ⟨hsame.mapped h.mapped, ?_, ?_, ?_, ?_, ?_, h.handled, h.running⟩
    · rintro todo ⟨⟩
      refine ⟨rfl, ?_⟩
      have hs := Snapshot.sound_take hn fun c hm => (hchan c).mpr (hlive c hm)
      rwa [← htake] at hs
    · intro hq
      exact absurd rfl (hq r.activeChannels)
    · intro f hm
      rw [show _ = s.frames from rfl, hf] at hm
      cases hm
    · intro k n hk
      exact h.owner k n ((hchan _).mp hk)
    · intro k m n hm hn'
      rw [show _ = l.map Prod.snd from hact] at hm hn'
      have h1 := h.owner k m (hlive _ hm)
      rw [h.owner k n (hlive _ hn')] at h1
      exact (Option.some.inj h1).symm

/-! ### User code -/

/-- The channels of a server. -/
def channelsOf (s : Dispatch) (sv : Nat) : List ChannelName :=
  .acceptor sv :: (s.servers sv).connections.map .connection

/-- User code destroys no server, and removes no channel of its own, that the walk still meets:
each of these channels is the one being handled or is not active. -/
def Spares (s : Dispatch) : Act → Prop
  | .call (.destroyServer sv) _ => ∀ ch ∈ s.channelsOf sv, s.reactor.Removable ch
  | .call (.channel n .remove) _ => s.reactor.Removable (.user n)
  | _ => True

instance (s : Dispatch) : (a : Act) → Decidable (s.Spares a)
  | .call c _ => match c with
    | .destroyServer sv =>
      inferInstanceAs (Decidable (∀ ch ∈ s.channelsOf sv, s.reactor.Removable ch))
    | .channel n op => match op with
      | .remove => inferInstanceAs (Decidable (s.reactor.Removable (.user n)))
      | .enableReading | .disableReading | .enableWriting | .disableWriting | .disableAll =>
        .isTrue trivial
    | .newServer _ _ | .startServer _ | .newClient _ | .enableRetry _ | .connect _ | .disconnect _
    | .stop _ | .destroyClient _ | .send _ | .shutdown _ | .forceClose _ | .forceCloseWithDelay _
    | .startRead _ | .stopRead _ | .queueInLoop => .isTrue trivial
  | .poll _ | .leave | .go _ | .ret | .other _ => .isTrue trivial

theorem sat_call (h : Inv s) {c : Call} {o : Answers} (hs : s.Spares (.call c o)) :
    Sat Inv (s.call o c) := by
  cases c with
  | newServer sv n => exact h.setServer sv _
  | startServer sv =>
    simp only [call]
    split
    · exact h
    · exact sat_update_inv (h.setServer sv _) (by simp) (by simp)
  | destroyServer sv =>
    have hall : ∀ ch ∈ s.channelsOf sv, s.reactor.Removable ch := hs
    refine (h.setServer sv _).push ?_
    simp only [List.mem_singleton, forall_eq]
    refine ⟨hall _ List.mem_cons_self, fun c hc => ?_⟩
    exact hall _ (List.mem_cons_of_mem _ (List.mem_map_of_mem hc))
  | newClient k => exact h.setClient k _ (by rfl)
  | enableRetry k => exact h.setClient k _ (by rfl)
  | connect k => exact sat_startInLoop (h.setClient k _ (by rfl)) o k
  | disconnect k =>
    have h' := h.setClient k { s.clients k with connect := false } rfl
    simp only [call]
    split
    · exact h'.setConn _ _
    · exact h'
  | stop k => exact (h.setClient k _ (by rfl)).queueInLoop _
  | destroyClient k => exact inv_destroyClient h o k
  | send c =>
    simp only [call]
    split
    · exact sat_sendInLoop h o c
    · exact h
  | shutdown c => exact h.setConn c _
  | forceClose c => exact inv_forceClose h c
  | forceCloseWithDelay c => exact inv_forceCloseWithDelay h c
  | startRead c => exact sat_startReadInLoop h c
  | stopRead c => exact sat_stopReadInLoop h c
  | queueInLoop => exact h.queueInLoop _
  | channel n op =>
    by_cases hop : op = .remove
    · subst hop
      exact (sat_remove h hs).mono fun _ ht => ht.1
    · exact sat_update_inv h hop (by simp)

theorem inv_other (h : Inv s) {x : Other} (hx : s.other x = some t) : Inv t := by
  cases x with
  | queueInLoop f =>
    simp only [other] at hx
    split at hx
    · obtain rfl := Option.some.inj hx
      exact h.queueInLoop f
    · cases hx
  | newConnection =>
    obtain rfl := Option.some.inj hx
    exact (h.newConn _ _).queueInLoop _
  | setState c =>
    obtain rfl := Option.some.inj hx
    exact h.setConn c _
  | connect k b | connecting k b =>
    obtain rfl := Option.some.inj hx
    exact h.setClient k _ (by rfl)

theorem sat_act (h : Inv s) {a : Act} (hs : s.Spares a) {x : Except Stop Dispatch}
    (hx : s.act a = some x) : Sat Inv x := by
  cases a with
  | poll evs =>
    simp only [act] at hx
    split at hx
    · next hp => exact sat_poll h hp.1 hp.2 hx
    · cases hx
  | leave =>
    simp only [act] at hx
    split at hx
    · obtain rfl := Option.some.inj hx
      exact h.push (ok_user _)
    · cases hx
  | go o => exact sat_go h hx
  | call c o =>
    simp only [act] at hx
    split at hx
    · obtain rfl := Option.some.inj hx
      exact sat_call h hs
    · cases hx
  | ret =>
    simp only [act] at hx
    split at hx
    · obtain rfl := Option.some.inj hx
      exact h.congr rfl rfl (fun f hf => Or.inl (List.mem_of_mem_tail hf)) h.owner rfl rfl
    · cases hx
  | other x' =>
    obtain ⟨t, ht, rfl⟩ := Option.map_eq_some_iff.mp hx
    exact inv_other h ht

end

/-! ### Runs -/

theorem inv_init (fd : ChannelName → Int) : Inv (init fd) where
  mapped _ _ _ he := by cases he
  events := nofun
  quiet _ := ⟨rfl, rfl⟩
  frames := ok_user _
  owner _ _ hk := by cases hk
  single _ _ _ hm := absurd hm List.not_mem_nil
  handled := by simp [init]
  running := rfl

theorem sat_start (fd : ChannelName → Int) : Sat Inv (start fd) := by
  unfold start
  refine Sat.bind (sat_update_inv (inv_init fd) (by simp) (by simp)) fun s hs => ?_
  exact sat_update_inv hs (by simp) (by simp)

/-- What holds also where a run has ended. -/
structure Spared (s : Dispatch) : Prop where
  handled : ∀ p ∈ s.handled, p.2 = true
  stopped : s.stopped ≠ some (.assertion .removeActive)
  inv : s.stopped = none → Inv s

theorem Inv.spared {s : Dispatch} (h : Inv s) : Spared s :=
  ⟨h.handled, by rw [h.running]; simp, fun _ => h⟩

theorem spared_step {s t : Dispatch} {a : Act} (h : Spared s)
    (hst : Steps.guarded Spares step s a = some t) : Spared t := by
  obtain ⟨hs, hst⟩ := Steps.guarded_eq_some.mp hst
  unfold step at hst
  split at hst
  · cases hst
  · next hn =>
    have hi : Inv s := h.inv (by simpa using hn)
    obtain ⟨x, hx, rfl⟩ := Option.map_eq_some_iff.mp hst
    have hsat := sat_act hi hs hx
    cases x with
    | ok t => exact Inv.spared hsat
    | error e => exact ⟨hi.handled, fun he => hsat (Option.some.inj he), nofun⟩

/-- **No dispatch to a removed channel.**  Where user code in a handler destroys a server (or
removes a channel of its own) only if none of its channels is active, the channel being handled
apart, the assertion of `removeChannel` never fails, and each channel on which `handleEvent`
is called is in the poller at that moment. -/
theorem dispatch_registered {fd : ChannelName → Int} {s₀ s : Dispatch} {as : List Act}
    (hstart : start fd = .ok s₀)
    (hrun : Steps.run (Steps.guarded Spares step) s₀ as = some s) :
    s.stopped ≠ some (.assertion .removeActive) ∧ ∀ p ∈ s.handled, p.2 = true := by
  have h₀ : Inv s₀ := by
    have := sat_start fd
    rwa [hstart] at this
  have h := Steps.run_invariant (fun _ _ _ => spared_step) h₀.spared hrun
  exact ⟨h.stopped, h.handled⟩

/-- Where the walk still meets a connection's channel, its removal ends the run. -/
theorem remove_active_fails {s : Dispatch} {c : Nat} {fs : List Frame} (hn : s.stopped = none)
    (hf : s.frames = .remove c :: fs)
    (hmask : (s.reactor.chan (.connection c)).events = kNoneEvent)
    (hact : ¬ s.reactor.Removable (.connection c)) (o : Answers) :
    ∃ t, step s (.go o) = some t ∧ t.stopped = some (.assertion .removeActive) := by
  obtain ⟨hh, hact⟩ := Classical.not_imp.mp hact
  have hfail : s.reactor.remove (.connection c) = .error .removeActive := by
    rw [Reactor.remove, Assertion.check_of (by simp [Channel.isNoneEvent, hmask])]
    simp only [bind, Except.bind, Reactor.removeChannel, Reactor.setChan, hh, if_true,
      Assertion.check_of_not hact]
  have hx : act s (.go o) = some (.error (.assertion .removeActive)) := by
    simp only [act, go, hf, resume, exec]
    rw [show s.reactor.exec (.connection c) .remove = _ from hfail]
  refine ⟨{ s with stopped := some (.assertion .removeActive) }, ?_, rfl⟩
  rw [step, if_neg (by simp [hn]), hx]
  rfl

/-- Descriptors of a loop with one server. -/
def oneServerFd : ChannelName → Int
  | .timerfd => 3
  | .wakeup => 4
  | .acceptor _ => 5
  | .connection c => 7 + c
  | .connector _ _ | .user _ => 6

/-- A server is made and accepts a connection. -/
def oneServer : List Act :=
  [.call (.newServer 0 0) {}, .call (.startServer 0) {}, .ret,
    .poll [(5, POLLIN)], .go {}, .go {}, .go {}, .go {}, .ret, .go {}, .go {}, .go {}, .go {}]

/-- The message callback of the connection destroys the server, then the timer is handled. -/
def messageDestroys : List Act :=
  oneServer ++ [.poll [(7, POLLIN), (3, POLLIN)], .go {}, .go {}, .go {}, .go {},
    .call (.destroyServer 0) {}, .go {}, .ret, .go {}, .go {}, .ret, .go {}, .go {}, .go {}]

/-- A timer's callback destroys the server whose connection is still to be handled. -/
def timerDestroys : List Act :=
  oneServer ++ [.poll [(3, POLLIN), (7, POLLIN)], .go {}, .go {}, .go {}, .go { expired := [.user] },
    .go {}, .call (.destroyServer 0) {}, .go {}, .ret, .go {}]

theorem dispatch_registered_message : ∃ s₀ s, start oneServerFd = .ok s₀ ∧
    Steps.run (Steps.guarded Spares step) s₀ messageDestroys = some s ∧
      s.stopped ≠ some (.assertion .removeActive) ∧ ∀ p ∈ s.handled, p.2 = true := by
  obtain ⟨s, hs⟩ := Option.isSome_iff_exists.mp (show ((start oneServerFd).toOption.bind fun s₀ =>
    Steps.run (Steps.guarded Spares step) s₀ messageDestroys).isSome = true by decide +kernel)
  obtain ⟨s₀, h₀, hrun⟩ := Option.bind_eq_some_iff.mp hs
  have hstart := Steps.toOption_eq_some.mp h₀
  exact ⟨s₀, s, hstart, hrun, dispatch_registered hstart hrun⟩

/-- **Not in every run.**  The destructor removes the channel of its connection, which is active
and not the one being handled. -/
theorem removes_active : ∃ s₀ s, start oneServerFd = .ok s₀ ∧
    Steps.run step s₀ timerDestroys = some s ∧ s.stopped = some (.assertion .removeActive) := by
  have hrun : ((start oneServerFd).toOption.bind fun s₀ => Steps.run step s₀ timerDestroys).any
      (fun s => decide (s.stopped = some (.assertion .removeActive))) = true := by decide +kernel
  obtain ⟨s, hs, hstop⟩ := (Option.any_eq_true _ _).mp hrun
  obtain ⟨s₀, h₀, hrun⟩ := Option.bind_eq_some_iff.mp hs
  exact ⟨s₀, s, Steps.toOption_eq_some.mp h₀, hrun, of_decide_eq_true hstop⟩

end Dispatch

end SimpleNet
