import SimpleNet.Client.Coherent

/-!
# The end of a connector

A `Connector` is held by its client, by the retry timers and by the one-second timer that the
destructor of the client starts.  The functors it queues hold nothing: they are bound to a raw
`this`, and `~Connector` asserts that the channel has gone as well.  Without a connection the
destructor calls `stop()`, and the functor of this stop may queue another one, so the second
has to outlast two rounds of `doPendingFunctors` (`released_early`).  With a connection it only
gives up its reference, and in the connection callback the channel of the attempt is still there.

`released_idle`: where `doPendingFunctors` has been called often enough, since the destructor, when
the last timer that holds the connector is taken, and since the connection was made when a client
with a connection is destroyed, the connector is destroyed without a channel and without functors.
`released_in_time`: it has been, where the functors take less than the second.
-/

namespace SimpleNet

namespace Connector

section

variable {s t : Connector} {a : Act}

/-- An attempt that is going on will be stopped. -/
def Stopping (s : Connector) : Prop :=
  s.state = .kConnecting → ∃ n, .stopInLoop n ∈ s.functors.queue

theorem stopping_startInLoop (h : Stopping s) : Stopping s.startInLoop := by
  unfold startInLoop
  split
  · exact h
  · exact h

theorem stopping_of_ne (h : s.state ≠ .kConnecting) : Stopping s := fun hs => absurd hs h

/-- The code after a failed attempt. -/
theorem removeAndResetChannel_state {c : ConnectorChannel} (hc : s.channel = some c)
    (x : ConnectorState) :
    ({ s with state := x }.removeAndResetChannel retry).state = .kDisconnected := by
  rw [removeAndResetChannel_some (s := { s with state := x }) hc]
  rfl

theorem stopInLoop_state (n : Nat) : (s.stopInLoop n).state ≠ .kConnecting := by
  by_cases hs : s.state = .kConnecting
  · rw [stopInLoop_connecting hs]
    obtain hc | ⟨c, hc⟩ := Option.eq_none_or_eq_some s.channel
    · rw [removeAndResetChannel_none (by exact hc)]
      simp
    · rw [removeAndResetChannel_state (s := s.emit (.stopInLoop n)) hc]
      simp
  · rw [stopInLoop_of_ne hs]
    exact hs

theorem handleWrite_state {c : ConnectorChannel} (hc : s.channel = some c) (err selfConnect : Bool) :
    (s.handleWrite err selfConnect).state ≠ .kConnecting := by
  unfold handleWrite
  split
  · rw [removeAndResetChannel_some hc]
    split
    · simp [retry]
    · split
      · simp [retry]
      · simp
  · next hs =>
    split
    · exact hs
    · exact hs

theorem channel_handleError {c : ConnectorChannel} (hc : s.channel = some c) :
    ∃ c', s.handleError.channel = some c' := by
  unfold handleError
  split
  · rw [removeAndResetChannel_some hc]
    exact ⟨_, rfl⟩
  · exact ⟨c, hc⟩

theorem stopping_handleEvent (h : Stopping s) {c : ConnectorChannel} (hc : s.channel = some c)
    (pollErr pollOut err selfConnect : Bool) :
    Stopping (s.handleEvent pollErr pollOut err selfConnect) := by
  have herr : Stopping s.handleError := by
    by_cases hk : s.state = .kConnecting
    · exact stopping_of_ne (by rw [handleError_connecting hc hk]; simp)
    · rw [handleError_state hk]
      exact h
  unfold handleEvent
  cases pollErr <;> cases pollOut
  · exact h
  · exact stopping_of_ne (handleWrite_state hc err selfConnect)
  · exact herr
  · obtain ⟨c', hc'⟩ := channel_handleError hc
    exact stopping_of_ne (handleWrite_state hc' err selfConnect)

theorem stopping_stepped (h : Stopping s) (hp : s.pc.passed = false) (ha : a.ofLoop = true)
    (hst : Stepped s a t) : Stopping t := by
  cases hst with
  | start | stop | restart | startFrom | stopFrom | queueFrom => cases ha
  | resume savedErrno hpc =>
    obtain ⟨hs, hf⟩ := resume_of_not_passed hp savedErrno
    rw [Stopping, hs, hf]
    exact h
  | handleEvent pollErr pollOut err selfConnect c hpc hr hc =>
    exact stopping_handleEvent h hc pollErr pollOut err selfConnect
  | timer ms hpc => exact stopping_startInLoop h
  | doPendingFunctors hpc hr =>
    intro hs
    obtain ⟨n, hn⟩ := h hs
    exact ⟨n, by rwa [Batched.queue_swap hr]⟩
  | runFunctor f fs hpc hr =>
    have htail : (∀ n, f ≠ .stopInLoop n) → Stopping { s with functors := s.functors.tail } := by
      intro hf hs
      obtain ⟨n, hn⟩ := h hs
      rw [Batched.queue_of_rest hr] at hn
      exact ⟨n, (List.mem_cons.mp hn).resolve_left fun he => hf n he.symm⟩
    cases f with
    | startInLoop => exact stopping_startInLoop (htail (by simp))
    | stopInLoop n =>
      -- this functor ends the attempt itself
      exact stopping_of_ne (stopInLoop_state n)
    | resetChannel => exact htail (by simp)

/-- A connector without work gets none. -/
theorem queue_stepped (hs : s.state ≠ .kConnecting) (hp : s.pc.passed = false)
    (hq : s.functors.queue = []) (ha : a.ofLoop = true) (hst : Stepped s a t) :
    t.functors.queue = [] := by
  obtain ⟨hrest, hpending⟩ := List.append_eq_nil_iff.mp hq
  rcases (quiet_stepped hs hp ha hst).functors with he | ⟨-, hr, he⟩ | ⟨-, he⟩
  · rw [he, hq]
  · rw [he, Batched.queue_swap hr, hq]
  · rw [he, Batched.queue, Batched.tail, hrest, hpending]
    rfl

end

end Connector

/-! ### The client and its destructor -/

namespace TcpClient

/-- The step is one of the loop's thread. -/
def Act.onLoop : Act → Bool
  | .stopFrom _ | .stopConnector _ | .queueFrom _ => false
  | .connect | .start | .disconnect | .stop | .enableRetry | .removeConnection | .restart
  | .connector _ => true

/-- The step needs no client. -/
def Act.ofConnector : Act → Bool
  | .connector _ => true
  | .connect | .start | .disconnect | .stop | .enableRetry | .removeConnection | .restart
  | .stopFrom _ | .stopConnector _ | .queueFrom _ => false

/-- The step may come while `TimerQueue::handleRead` runs its callbacks. -/
def Act.inPass : Act → Bool
  | .connector .doPendingFunctors | .connector (.handleEvent _ _ _ _) | .removeConnection => false
  | .connect | .start | .disconnect | .stop | .enableRetry | .restart | .stopFrom _
  | .stopConnector _ | .queueFrom _ | .connector _ => true

/-- A retry timer fires. -/
def Act.fires : Act → Bool
  | .connector (.timer _) => true
  | _ => false

end TcpClient

/-- A client and its connector up to the end of both.  `rounds` and `attempting` are history: they
count the calls of `doPendingFunctors` since `stop()`, since the connection was made or since the
destructor. -/
structure ClientLife where
  client : TcpClient
  /-- the destructor of the client has not run -/
  alive : Bool
  /-- when the timer of `detailremoveConnector` expires -/
  removal : Option Nat
  /-- how many timers with a reference `handleRead` has taken and not yet deleted -/
  expired : Nat
  /-- in microseconds -/
  now : Nat
  /-- the connector has been destroyed -/
  destroyed : Bool
  rounds : Nat
  /-- an attempt was under way at the first of them -/
  attempting : Bool

namespace ClientLife

def init : ClientLife where
  client := .init
  alive := true
  removal := none
  expired := 0
  now := 0
  destroyed := false
  rounds := 0
  attempting := false

/-- Something holds the connector: the client, the one-second timer, a retry timer, or a timer
that has been taken. -/
def Held (s : ClientLife) : Prop :=
  s.alive = true ∨ s.removal ≠ none ∨ s.client.connector.timers ≠ [] ∨ s.expired ≠ 0

instance (s : ClientLife) : Decidable s.Held := inferInstanceAs (Decidable (_ ∨ _))

/-- A reference has gone. -/
def release (s : ClientLife) : ClientLife := if s.Held then s else { s with destroyed := true }

/-- `TcpClient::~TcpClient`. -/
def dtor (s : ClientLife) : ClientLife :=
  if s.client.connection.isSome then { s with alive := false }.release
  else
    let c := s.client.connector.stop s.client.numStops
    { s with
      client := { s.client with connector := c, numStops := s.client.numStops + 1 }
      removal := some (s.now + 1000000)
      alive := false
      rounds := 0
      attempting := false }

/-- What is counted at a step of the client. -/
def count (s : ClientLife) : TcpClient.Act → ClientLife
  | .stop => { s with rounds := 0, attempting := false }
  | .connector .doPendingFunctors =>
    { s with
      rounds := s.rounds + 1
      attempting := if s.rounds = 0 then s.client.connector.state = .kConnecting else s.attempting }
  | .connector (.resume _) =>
    match s.client.connector.pc with
    | .handing _ => { s with rounds := 0, attempting := false }
    | _ => s
  | _ => s

inductive Act
  /-- a step of the client or, once there is none, of the connector -/
  | client (a : TcpClient.Act)
  | dtor
  /-- `handleRead` takes the one-second timer, whose callback does nothing -/
  | expire
  /-- the end of `handleRead`: `reset` deletes what it has taken -/
  | reset
  /-- time goes by, in functors and handlers of others as well -/
  | tick (d : Nat)
  deriving DecidableEq, Repr

def step (s : ClientLife) (a : Act) : Option ClientLife :=
  if s.client.connector.failed.isSome ∨ s.destroyed then none else
  match a with
  | .client a =>
    if a.onLoop ∧ (s.alive ∨ a.ofConnector) ∧ (s.expired = 0 ∨ a.inPass) then
      (s.client.step a).map fun c =>
        { s.count a with client := c, expired := s.expired + if a.fires then 1 else 0 }
    else none
  | .dtor =>
    if s.alive ∧ s.client.connector.pc = .idle ∧ s.client.Free then some s.dtor else none
  | .expire =>
    if s.removal.any (· ≤ s.now) ∧ s.client.connector.pc = .idle ∧
        s.client.connector.functors.rest = [] then
      some { s with removal := none, expired := s.expired + 1 }
    else none
  | .reset =>
    if s.expired ≠ 0 ∧ s.client.connector.pc = .idle then some { s with expired := 0 }.release
    else none
  | .tick d => some { s with now := s.now + d }

/-- How many rounds the functors need: that of `stopInLoop`, and if it ends an attempt, that of
`resetChannel`. -/
def needed (s : ClientLife) : Nat := if s.attempting then 2 else 1

/-- That many calls of `doPendingFunctors` have begun, and what the last of them found has run. -/
def Served (s : ClientLife) : Prop :=
  s.needed < s.rounds ∨ s.needed = s.rounds ∧ s.client.connector.functors.rest = []

instance (s : ClientLife) : Decidable s.Served := inferInstanceAs (Decidable (_ ∨ _))

/-- The rounds have gone by when the last timer that holds the connector is taken, and when a client
is destroyed whose connection is live. -/
def Waits (s : ClientLife) : Act → Prop
  | .dtor => s.client.connection ≠ none → s.client.connector.timers = [] → s.Served
  | .expire => s.client.connector.timers = [] → s.Served
  | .client (.connector (.timer ms)) => s.alive = false → s.removal = none →
    s.client.connector.timers.erase ms = [] → s.Served
  | _ => True

instance (s : ClientLife) : (a : Act) → Decidable (s.Waits a)
  | .dtor => inferInstanceAs (Decidable (_ → _ → _))
  | .expire => inferInstanceAs (Decidable (_ → _))
  | .client a => match a with
    | .connector b => match b with
      | .timer _ => inferInstanceAs (Decidable (_ → _ → _ → _))
      | .start | .stop _ | .restart | .startFrom _ | .stopFrom _ _ | .queueFrom _ | .resume _
      | .handleEvent _ _ _ _ | .doPendingFunctors | .runFunctor => .isTrue trivial
    | .connect | .start | .disconnect | .stop | .enableRetry | .stopFrom _ | .stopConnector _
    | .queueFrom _ | .removeConnection | .restart => .isTrue trivial
  | .reset | .tick _ => .isTrue trivial

section

variable {s t : ClientLife}

/-! ### The rounds -/

/-- What the rounds that have been counted say of the functors. -/
structure Rounds (s : ClientLife) : Prop where
  /-- the batch of the first one ends the attempt -/
  batch : 1 ≤ s.rounds → s.client.connector.state = .kConnecting →
    ∃ n, .stopInLoop n ∈ s.client.connector.functors.rest
  /-- after the needed ones nothing is queued any more -/
  pending : s.needed ≤ s.rounds →
    s.client.connector.state ≠ .kConnecting ∧ s.client.connector.functors.pending = []
  rest : s.needed < s.rounds → s.client.connector.functors.rest = []

theorem needed_pos (s : ClientLife) : 1 ≤ s.needed := by
  unfold needed
  split <;> omega

theorem rounds_of_zero (h : s.rounds = 0) : Rounds s := by
  have := needed_pos s
  refine ⟨?_, ?_, ?_⟩ <;> omega

theorem Rounds.congr (h : Rounds s) (hs : t.client.connector.state = s.client.connector.state)
    (hf : t.client.connector.functors = s.client.connector.functors) (hr : t.rounds = s.rounds)
    (ha : t.attempting = s.attempting) : Rounds t := by
  have hn : t.needed = s.needed := by rw [needed, needed, ha]
  exact ⟨hr ▸ hs ▸ hf ▸ h.batch, hn ▸ hr ▸ hs ▸ hf ▸ h.pending, hn ▸ hr ▸ hf ▸ h.rest⟩

/-- Once they are served there are none. -/
theorem Rounds.queue_of_served (h : Rounds s) (hs : s.Served) :
    s.client.connector.functors.queue = [] := by
  rcases hs with hlt | ⟨he, hr⟩
  · rw [Batched.queue, h.rest hlt, (h.pending (Nat.le_of_lt hlt)).2]
    rfl
  · rw [Batched.queue, hr, (h.pending (Nat.le_of_eq he)).2]
    rfl

/-- **A new round.**  The first one has all of `stop()` in its batch; after it an attempt is over. -/
theorem rounds_doPendingFunctors (h : Rounds s) (hstop : s.client.connector.Stopping)
    (hr : s.client.connector.functors.rest = []) {c : TcpClient}
    (hc : c.connector = { s.client.connector with functors := s.client.connector.functors.swap })
    {n : Nat} : Rounds { s.count (.connector .doPendingFunctors) with client := c, expired := n } := by
  have hbatch : s.client.connector.state = .kConnecting →
      ∃ n, .stopInLoop n ∈ s.client.connector.functors.pending := by
    intro hs
    obtain ⟨n, hn⟩ := hstop hs
    rw [Batched.queue, hr] at hn
    exact ⟨n, hn⟩
  have hlater : s.rounds ≠ 0 → s.client.connector.state ≠ .kConnecting := by
    intro h0 hs
    obtain ⟨n, hn⟩ := h.batch (Nat.one_le_iff_ne_zero.mpr h0) hs
    rw [hr] at hn
    cases hn
  refine ⟨fun _ hs => ?_, fun hle => ?_, fun hlt => ?_⟩
  · rw [hc] at hs ⊢
    exact hbatch hs
  · rw [hc]
    refine ⟨fun hs => ?_, rfl⟩
    have hs : s.client.connector.state = .kConnecting := hs
    by_cases h0 : s.rounds = 0
    · simp [needed, count, h0, hs] at hle
    · exact hlater h0 hs
  · rw [hc]
    have hn := needed_pos { s.count (.connector .doPendingFunctors) with client := c, expired := n }
    have hlt : needed _ < s.rounds + 1 := hlt
    have h0 : s.rounds ≠ 0 := by omega
    refine (h.pending ?_).2
    rw [needed, count, if_neg h0] at hlt
    exact Nat.le_of_lt_succ hlt

theorem count_connector (hp : s.client.connector.pc.passed = false) {a : Connector.Act}
    (ha : a ≠ .doPendingFunctors) : s.count (.connector a) = s := by
  cases a with
  | doPendingFunctors => exact absurd rfl ha
  | resume savedErrno =>
    show (match s.client.connector.pc with
      | .handing _ => _
      | _ => s) = s
    split
    · next hpc =>
      rw [hpc] at hp
      cases hp
    · rfl
  | start | stop | restart | startFrom | stopFrom | queueFrom | handleEvent | timer | runFunctor => rfl

/-- Nothing else changes. -/
theorem count_same (s : ClientLife) (a : TcpClient.Act) : (s.count a).alive = s.alive ∧
    (s.count a).removal = s.removal ∧ (s.count a).destroyed = s.destroyed ∧
      (s.count a).now = s.now := by
  unfold count
  split
  · exact ⟨rfl, rfl, rfl, rfl⟩
  · exact ⟨rfl, rfl, rfl, rfl⟩
  · split <;> exact ⟨rfl, rfl, rfl, rfl⟩
  · exact ⟨rfl, rfl, rfl, rfl⟩

/-- While an attempt is under way after the first round, the batch of that round is running. -/
theorem batch_connector {c d : Connector} {a : Connector.Act} (hd : a ≠ .doPendingFunctors)
    (hb : ∃ n, .stopInLoop n ∈ c.functors.rest) (hp : c.pc.passed = false) (ha : a.ofLoop = true)
    (hst : Connector.Stepped c a d) (hs : d.state = .kConnecting) :
    ∃ n, .stopInLoop n ∈ d.functors.rest := by
  obtain ⟨n, hn⟩ := hb
  cases hst with
  | start | stop | restart | startFrom | stopFrom | queueFrom => cases ha
  | resume savedErrno hpc =>
    rw [(Connector.resume_of_not_passed hp savedErrno).2]
    exact ⟨n, hn⟩
  | handleEvent pollErr pollOut err selfConnect c hpc hr hc =>
    rw [hr] at hn
    cases hn
  | timer ms hpc hr hms =>
    rw [hr] at hn
    cases hn
  | doPendingFunctors hpc hr => exact absurd rfl hd
  | runFunctor f fs hpc hr =>
    have htail : (∀ n, f ≠ .stopInLoop n) → .stopInLoop n ∈ c.functors.tail.rest := by
      intro hf
      rw [hr] at hn
      rw [Batched.tail, hr]
      exact (List.mem_cons.mp hn).resolve_left fun he => hf n he.symm
    cases f with
    | startInLoop =>
      refine ⟨n, ?_⟩
      rw [Connector.runTask, Connector.startInLoop_functors]
      exact htail (by simp)
    | stopInLoop n => exact absurd hs (Connector.stopInLoop_state n)
    | resetChannel => exact ⟨n, htail (by simp)⟩

/-- **A step of the connector** of which no attempt comes. -/
theorem rounds_connector (h : Rounds s) (hstop : s.client.connector.Stopping)
    (hp : s.client.connector.pc.passed = false) {a : Connector.Act} (ha : a.ofLoop = true)
    {c : TcpClient} (hst : Connector.Stepped s.client.connector a c.connector) {n : Nat} :
    Rounds { s.count (.connector a) with client := c, expired := n } := by
  by_cases hd : a = .doPendingFunctors
  · subst hd
    generalize hc : c.connector = d at hst
    cases hst with
    | doPendingFunctors hpc hr => exact rounds_doPendingFunctors h hstop hr hc
  rw [count_connector hp hd]
  by_cases h0 : s.rounds = 0
  · exact rounds_of_zero h0
  by_cases hs : s.client.connector.state = .kConnecting
  · have hb := h.batch (Nat.one_le_iff_ne_zero.mpr h0) hs
    exact ⟨fun _ hs' => batch_connector hd hb hp ha hst hs', fun hle => absurd hs (h.pending hle).1,
      fun hlt => absurd hs (h.pending (Nat.le_of_lt hlt)).1⟩
  · have hq := Connector.quiet_stepped hs hp ha hst
    rcases hq.functors with he | ⟨he, -⟩ | ⟨-, he⟩
    · exact h.congr hq.state he rfl rfl
    · exact absurd he hd
    · refine ⟨fun _ hs' => absurd (hq.state.symm.trans hs') hs, fun hle => ⟨?_, ?_⟩, fun hlt => ?_⟩
      · exact fun hs' => hs (hq.state.symm.trans hs')
      · show c.connector.functors.pending = []
        rw [he]
        exact (h.pending hle).2
      · show c.connector.functors.rest = []
        rw [he, Batched.tail, h.rest hlt]
        rfl

/-! ### After the destructor of the client -/

/-- The connector after the destructor of the client. -/
structure Gone (s : ClientLife) : Prop where
  tidy : s.client.connector.Tidy
  /-- it makes no more attempts, or it has connected and stays so -/
  still : s.client.connector.connect = false ∧ s.client.connector.pc.passed = false ∨
    s.client.connector.state = .kConnected ∧ s.client.connector.pc = .idle
  stopping : s.client.connector.Stopping
  rounds : Rounds s
  last : s.removal = none → s.client.connector.timers = [] → s.client.connector.functors.queue = []

theorem Gone.passed (h : Gone s) : s.client.connector.pc.passed = false := by
  rcases h.still with ⟨-, hp⟩ | ⟨-, hp⟩
  · exact hp
  · rw [hp]
    rfl

/-- Other fields may change. -/
theorem Gone.congr (h : Gone s) (hc : t.client = s.client) (hr : t.rounds = s.rounds)
    (ha : t.attempting = s.attempting)
    (hl : t.removal = none → s.client.connector.timers = [] → s.client.connector.functors.queue = []) :
    Gone t where
  tidy := hc ▸ h.tidy
  still := hc ▸ h.still
  stopping := hc ▸ h.stopping
  rounds := h.rounds.congr (by rw [hc]) (by rw [hc]) hr ha
  last := hc ▸ hl

/-- **A step of the connector without its client.** -/
theorem gone_connector (h : Gone s) {a : Connector.Act} (ha : a.ofLoop = true) {c : TcpClient}
    (hst : Connector.Stepped s.client.connector a c.connector)
    (hok : ∀ ms, a = .timer ms → s.removal = none → s.client.connector.timers.erase ms = [] → s.Served)
    {n : Nat} : Gone { s.count (.connector a) with client := c, expired := n } where
  tidy := Connector.tidy_stepped h.tidy ha hst
  still := by
    rcases h.still with ⟨hc, -⟩ | ⟨hs, hpc⟩
    · have hl := Connector.loopStep_stepped ha hst
      refine Or.inl ⟨hl.connect.trans hc, ?_⟩
      by_contra hp
      rw [hl.pc (by simpa using hp)] at hc
      cases hc
    · obtain ⟨hs', hpc'⟩ := Connector.connected_stepped h.tidy ha hst hs
      exact Or.inr ⟨hs', hpc' hpc⟩
  stopping := Connector.stopping_stepped h.stopping h.passed ha hst
  rounds := rounds_connector h.rounds h.stopping h.passed ha hst
  last hr ht := by
    have hr : s.removal = none := (count_same s _).2.1.symm.trans hr
    have hq : s.client.connector.functors.queue = [] := by
      rcases Connector.timers_stepped ha hst with ⟨-, he⟩ | ⟨ms, -, rfl, he⟩ | ⟨hpc, -⟩
      · exact h.last hr (he.symm.trans ht)
      · exact h.rounds.queue_of_served (hok ms rfl hr (he.symm.trans ht))
      · have := h.passed
        rw [hpc] at this
        cases this
    refine Connector.queue_stepped ?_ h.passed hq ha hst
    intro hs
    obtain ⟨n, hn⟩ := h.stopping hs
    rw [hq] at hn
    cases hn

/-! ### Before and after -/

/-- What holds before and after the destructor of the client. -/
structure Inv (s : ClientLife) : Prop where
  coherent : s.alive = true → s.client.Coherent
  rounds : s.alive = true → s.client.connection ≠ none → Rounds s
  gone : s.alive = false → Gone s
  destroyed : s.destroyed = true →
    s.alive = false ∧ s.removal = none ∧ s.client.connector.timers = []

/-- Before the end of the client. -/
theorem inv_of_alive (ha : s.alive = true) (hd : s.destroyed = false) (hc : s.client.Coherent)
    (hr : s.client.connection ≠ none → Rounds s) : Inv s where
  coherent _ := hc
  rounds _ := hr
  gone hn := by rw [ha] at hn; cases hn
  destroyed hn := by rw [hd] at hn; cases hn

/-- Before the end of the connector. -/
theorem inv_of_gone (ha : s.alive = false) (hd : s.destroyed = false) (hg : Gone s) : Inv s where
  coherent hn := by rw [ha] at hn; cases hn
  rounds hn := by rw [ha] at hn; cases hn
  gone _ := hg
  destroyed hn := by rw [hd] at hn; cases hn

theorem inv_release (h : Inv s) : Inv s.release := by
  unfold release
  split
  · exact h
  · next hh =>
    simp only [Held, not_or, Bool.not_eq_true, not_not] at hh
    have hg := h.gone hh.1
    refine ⟨fun hn => ?_, fun hn => ?_, fun _ => hg.congr rfl rfl rfl hg.last,
      fun _ => ⟨hh.1, hh.2.1, hh.2.2.1⟩⟩
    · rw [show s.alive = true from hn] at hh
      cases hh.1
    · rw [show s.alive = true from hn] at hh
      cases hh.1

/-- With a connection the connector is connected, and what else a client does queues nothing; a call
of `stop()` begins a new count, and so does a new connection. -/
theorem rounds_client {a : TcpClient.Act} {c : TcpClient} {n : Nat} (h : s.client.Coherent)
    (hr : s.client.connection ≠ none → Rounds s) (ha : a.onLoop = true)
    (hst : s.client.step a = some c) (hc : c.connection ≠ none) :
    Rounds { s.count a with client := c, expired := n } := by
  cases a with
  | stopFrom k | stopConnector k | queueFrom k => cases ha
  | stop => exact rounds_of_zero rfl
  | connect =>
    cases TcpClient.step_stepped hst with
    | connect hpc hfree hf => exact (hr hc).congr rfl rfl rfl rfl
  | start =>
    cases TcpClient.step_stepped hst with
    | start hcn hpc hf =>
      exact (hr hc).congr (Connector.startInLoop_state _) (Connector.startInLoop_functors _) rfl rfl
  | disconnect =>
    cases TcpClient.step_stepped hst with
    | disconnect => exact (hr hc).congr rfl rfl rfl rfl
  | enableRetry =>
    cases TcpClient.step_stepped hst with
    | enableRetry => exact (hr hc).congr rfl rfl rfl rfl
  | removeConnection =>
    cases TcpClient.step_stepped hst with
    | removeConnection hpc hfree hcn => exact absurd rfl hc
  | restart =>
    cases TcpClient.step_stepped hst with
    | restart hrestart hpc hf => exact absurd (h.restarting hrestart).1 hc
  | connector b =>
    obtain ⟨hb, -, hs, -, -, -, hconn⟩ := TcpClient.step_connector hst
    have hs := (Connector.step_stepped hs).2
    rcases hconn with ⟨fd, hpc, -⟩ | ⟨hne, hconn⟩
    · obtain ⟨savedErrno, rfl⟩ := hs.resume_of_ne hb (by simp [hpc])
      apply rounds_of_zero
      show (count s (.connector (.resume savedErrno))).rounds = 0
      simp only [count, hpc]
    · have hk : s.client.connector.state = .kConnected := h.connection (hconn ▸ hc)
      exact rounds_connector (hr (hconn ▸ hc)) (Connector.stopping_of_ne (by simp [hk]))
        (Connector.passed_of_connected h.tidy hk hne) hb hs

/-- **The destructor of the client.** -/
theorem inv_dtor (ha : s.alive = true) (hd : s.destroyed = false) (h : Inv s)
    (hpc : s.client.connector.pc = .idle) (hok : s.Waits .dtor) : Inv s.dtor := by
  have hcoh := h.coherent ha
  unfold dtor
  split
  · next hc =>
    have hn := Option.isSome_iff_ne_none.mp hc
    have hs := hcoh.connection hn
    have hr := h.rounds ha hn
    refine inv_release (inv_of_gone rfl hd ⟨hcoh.tidy, Or.inr ⟨hs, hpc⟩, ?_,
      hr.congr rfl rfl rfl rfl, fun _ ht => hr.queue_of_served (hok hn ht)⟩)
    exact Connector.stopping_of_ne (by rw [show _ = _ from hs]; simp)
  · have htidy : Connector.Tidy (s.client.connector.stop s.client.numStops) :=
      hcoh.tidy_queue fun _ => Batched.mem_queue_push
    have hpassed : (s.client.connector.stop s.client.numStops).pc.passed = false := by
      rw [show (s.client.connector.stop s.client.numStops).pc = .idle from hpc]
      rfl
    refine inv_of_gone rfl hd ⟨htidy, Or.inl ⟨rfl, hpassed⟩, fun _ => ⟨s.client.numStops, ?_⟩,
      rounds_of_zero rfl, nofun⟩
    show .stopInLoop _ ∈ (s.client.connector.functors.push _).queue
    rw [Batched.queue_push]
    exact List.mem_append_right _ List.mem_cons_self

theorem inv_step {a : Act} (h : Inv s) (hok : s.Waits a) (hst : step s a = some t) : Inv t := by
  unfold step at hst
  split at hst
  · cases hst
  next hrun =>
  have hd : s.destroyed = false := by
    by_contra hn
    exact hrun (Or.inr (by simpa using hn))
  cases a with
  | client a =>
    simp only [Option.ite_none_right_eq_some, Option.map_eq_some_iff] at hst
    obtain ⟨⟨ha, hor, -⟩, c, hc, rfl⟩ := hst
    obtain ⟨h1, -, h3, -⟩ := count_same s a
    cases hal : s.alive with
    | true =>
      exact inv_of_alive (h1.trans hal) (h3.trans hd) (TcpClient.coherent_step (h.coherent hal) hc)
        (rounds_client (h.coherent hal) (h.rounds hal) ha hc)
    | false =>
      cases a with
      | connector b =>
        obtain ⟨hb, -, hs, -⟩ := TcpClient.step_connector hc
        refine inv_of_gone (h1.trans hal) (h3.trans hd)
          (gone_connector (h.gone hal) hb (Connector.step_stepped hs).2 ?_)
        rintro ms rfl
        exact hok hal
      | connect | start | disconnect | stop | enableRetry | stopFrom | stopConnector | queueFrom
      | removeConnection | restart =>
        rw [hal] at hor
        rcases hor with hor | hor <;> cases hor
  | dtor =>
    simp only [Option.ite_none_right_eq_some, Option.some.injEq] at hst
    obtain ⟨⟨ha, hpc, -⟩, rfl⟩ := hst
    exact inv_dtor ha hd h hpc hok
  | expire =>
    simp only [Option.ite_none_right_eq_some, Option.some.injEq] at hst
    obtain ⟨-, rfl⟩ := hst
    rcases Bool.eq_false_or_eq_true s.alive with hal | hal
    · exact inv_of_alive hal hd (h.coherent hal) fun hn => (h.rounds hal hn).congr rfl rfl rfl rfl
    · have hg := h.gone hal
      exact inv_of_gone hal hd (hg.congr rfl rfl rfl fun _ ht => hg.rounds.queue_of_served (hok ht))
  | reset =>
    simp only [Option.ite_none_right_eq_some, Option.some.injEq] at hst
    obtain ⟨-, rfl⟩ := hst
    apply inv_release
    exact ⟨h.coherent, fun hal hn => (h.rounds hal hn).congr rfl rfl rfl rfl,
      fun hal => (h.gone hal).congr rfl rfl rfl (h.gone hal).last, h.destroyed⟩
  | tick d =>
    obtain rfl := Option.some.inj hst
    exact ⟨h.coherent, fun hal hn => (h.rounds hal hn).congr rfl rfl rfl rfl,
      fun hal => (h.gone hal).congr rfl rfl rfl (h.gone hal).last, h.destroyed⟩

theorem inv_init : Inv init :=
  inv_of_alive rfl rfl TcpClient.coherent_init fun hn => absurd rfl hn

theorem Inv.idle_of_destroyed (h : Inv s) (hd : s.destroyed = true) :
    s.client.connector.channel = none ∧ s.client.connector.functors.queue = [] := by
  obtain ⟨ha, hr, ht⟩ := h.destroyed hd
  have hg := h.gone ha
  have hq := hg.last hr ht
  refine ⟨?_, hq⟩
  -- a channel would wait for its functor, or its attempt for a stop
  by_contra hc
  rcases hg.tidy.channel hc with hs | hm
  · obtain ⟨n, hn⟩ := hg.stopping hs
    rw [hq] at hn
    cases hn
  · rw [hq] at hm
    cases hm

/-- **A connector is destroyed without work outstanding** in every run in which its functors are
served when it matters: when the last reference goes, the channel has gone and no functor waits. -/
theorem released_idle {as : List Act} (hrun : Steps.run (Steps.guarded Waits step) init as = some s)
    (hd : s.destroyed = true) :
    s.client.connector.channel = none ∧ s.client.connector.functors.queue = [] := by
  have h : Inv s := by
    refine Steps.run_invariant (I := Inv) (fun s a t h hst => ?_) inv_init hrun
    obtain ⟨hok, hst⟩ := Steps.guarded_eq_some.mp hst
    exact inv_step h hok hst
  exact h.idle_of_destroyed hd

/-! ### Less than a second -/

/-- The second does not go by before the rounds that the functors need have begun. -/
def InTime (s : ClientLife) : Act → Prop
  | .dtor => s.client.connection ≠ none → s.Served
  | .tick d => s.rounds < s.needed → ∀ r ∈ s.removal, s.now + d < r
  | _ => True

instance (s : ClientLife) : (a : Act) → Decidable (s.InTime a)
  | .dtor => inferInstanceAs (Decidable (_ → _))
  | .tick _ => inferInstanceAs (Decidable (_ → ∀ r ∈ s.removal, _))
  | .client _ | .expire | .reset => .isTrue trivial

/-- The timer is not due before the rounds have begun. -/
structure Early (s : ClientLife) : Prop where
  gone : s.removal ≠ none → s.alive = false
  due : s.alive = false → s.rounds < s.needed → ∃ r, s.removal = some r ∧ s.now < r

theorem served_of_le (h : s.needed ≤ s.rounds) (hr : s.client.connector.functors.rest = []) :
    s.Served := (Nat.lt_or_eq_of_le h).imp_right fun he => ⟨he, hr⟩

/-- A timer that holds the connector fires between two rounds. -/
theorem waits_of_inTime {a : Act} (h : Early s) (hok : s.InTime a) (hst : step s a = some t) :
    s.Waits a := by
  unfold step at hst
  split at hst
  · cases hst
  cases a with
  | dtor => exact fun hn _ => hok hn
  | expire =>
    obtain ⟨⟨hdue, -, hr⟩, -⟩ := Option.ite_none_right_eq_some.mp hst
    obtain ⟨r, hr', hle⟩ := (Option.any_eq_true _ _).mp hdue
    refine fun _ => served_of_le (Nat.le_of_not_lt fun hlt => ?_) hr
    obtain ⟨r', hr'', hlt⟩ := h.due (h.gone (by simp [hr'])) hlt
    obtain rfl := Option.some.inj (hr'.symm.trans hr'')
    exact absurd (of_decide_eq_true hle) (Nat.not_le_of_lt hlt)
  | client a =>
    simp only [Option.ite_none_right_eq_some, Option.map_eq_some_iff] at hst
    obtain ⟨-, c, hc, -⟩ := hst
    cases a with
    | connector b =>
      obtain ⟨-, -, hs, -⟩ := TcpClient.step_connector hc
      cases b with
      | timer ms =>
        have hr : s.client.connector.functors.rest = [] := by
          generalize c.connector = d at hs
          cases (Connector.step_stepped hs).2 with
          | timer ms hpc hr => exact hr
        intro ha hn _
        refine served_of_le (Nat.le_of_not_lt fun hlt => ?_) hr
        obtain ⟨r, hr', -⟩ := h.due ha hlt
        rw [hn] at hr'
        cases hr'
      | start | stop | restart | startFrom | stopFrom | queueFrom | resume | handleEvent
      | doPendingFunctors | runFunctor => trivial
    | connect | start | disconnect | stop | enableRetry | stopFrom | stopConnector | queueFrom
    | removeConnection | restart => trivial
  | reset | tick d => trivial

/-- Where rounds are still to begin, they were before. -/
theorem needed_count (hp : s.client.connector.pc.passed = false) (b : Connector.Act)
    (h : (s.count (.connector b)).rounds < (s.count (.connector b)).needed) : s.rounds < s.needed := by
  by_cases hb : b = .doPendingFunctors
  · subst hb
    by_cases h0 : s.rounds = 0
    · have := needed_pos s
      omega
    · have h : s.rounds + 1 < s.needed := by simpa [count, needed, h0] using h
      omega
  · rwa [count_connector hp hb] at h

theorem early_release (h : Early s) : Early s.release := by
  unfold release
  split
  · exact h
  · exact ⟨h.gone, h.due⟩

theorem early_step {a : Act} (h : Early s) (hi : Inv s) (hok : s.InTime a) (hst : step s a = some t) :
    Early t := by
  unfold step at hst
  split at hst
  · cases hst
  cases a with
  | client a =>
    simp only [Option.ite_none_right_eq_some, Option.map_eq_some_iff] at hst
    obtain ⟨⟨-, hor, -⟩, c, hc, rfl⟩ := hst
    obtain ⟨h1, h2, -, h4⟩ := count_same s a
    refine ⟨fun hn => h1.trans (h.gone (h2 ▸ hn)), fun ha hlt => ?_⟩
    have hal : s.alive = false := h1.symm.trans ha
    rw [hal] at hor
    cases a with
    | connector b =>
      obtain ⟨r, hr, hnow⟩ := h.due hal (needed_count (hi.gone hal).passed b hlt)
      exact ⟨r, h2.trans hr, h4.symm ▸ hnow⟩
    | connect | start | disconnect | stop | enableRetry | stopFrom | stopConnector | queueFrom
    | removeConnection | restart => rcases hor with hor | hor <;> cases hor
  | dtor =>
    obtain ⟨⟨ha, -, -⟩, ht⟩ := Option.ite_none_right_eq_some.mp hst
    obtain rfl := Option.some.inj ht
    unfold dtor
    split
    · next hc =>
      have hs := hok (Option.isSome_iff_ne_none.mp hc)
      refine early_release ⟨fun _ => rfl, fun _ hlt => ?_⟩
      have hlt : s.rounds < s.needed := hlt
      rcases hs with hs | ⟨hs, -⟩ <;> omega
    · exact ⟨fun _ => rfl, fun _ _ => ⟨_, rfl, by simp⟩⟩
  | expire =>
    obtain ⟨⟨hdue, -, -⟩, ht⟩ := Option.ite_none_right_eq_some.mp hst
    obtain rfl := Option.some.inj ht
    obtain ⟨r, hr, hle⟩ := (Option.any_eq_true _ _).mp hdue
    refine ⟨nofun, fun ha hlt => ?_⟩
    obtain ⟨r', hr', hlt⟩ := h.due ha hlt
    obtain rfl := Option.some.inj (hr.symm.trans hr')
    exact absurd (of_decide_eq_true hle) (Nat.not_le_of_lt hlt)
  | reset =>
    obtain ⟨-, ht⟩ := Option.ite_none_right_eq_some.mp hst
    obtain rfl := Option.some.inj ht
    exact early_release ⟨h.gone, h.due⟩
  | tick d =>
    obtain rfl := Option.some.inj hst
    refine ⟨h.gone, fun ha hlt => ?_⟩
    obtain ⟨r, hr, -⟩ := h.due ha hlt
    exact ⟨r, hr, hok hlt r hr⟩

/-- **A second is enough** where the rounds have begun before it is over. -/
theorem released_in_time {as : List Act}
    (hrun : Steps.run (Steps.guarded InTime step) init as = some s) (hd : s.destroyed = true) :
    s.client.connector.channel = none ∧ s.client.connector.functors.queue = [] := by
  have h : Inv s ∧ Early s := by
    refine Steps.run_invariant (I := fun s => Inv s ∧ Early s) (fun s a t h hst => ?_)
      ⟨inv_init, nofun, nofun⟩ hrun
    obtain ⟨hok, hst⟩ := Steps.guarded_eq_some.mp hst
    exact ⟨inv_step h.1 (waits_of_inTime h.2 hok hst) hst, early_step h.2 h.1 hok hst⟩
  exact h.1.idle_of_destroyed hd

/-- The steps of the loop's thread from `connect()` to the start of the attempt. -/
def attempts : List Act :=
  [.client .connect, .client .start, .client (.connector (.resume .none)),
    .client (.connector (.resume .EINPROGRESS))]

/-- The attempt succeeds, and its connection is handed to the client. -/
def succeeds : List Act :=
  [.client (.connector (.handleEvent false true false false)), .client (.connector (.resume .none)),
    .client (.connector (.resume .none))]

/-- A round of `doPendingFunctors` with one functor of the connector. -/
def functorRound : List Act := [.client (.connector .doPendingFunctors), .client (.connector .runFunctor)]

/-- The client is destroyed during an attempt; the second goes by in the two rounds that follow. -/
def stopped : List Act :=
  attempts ++ [.dtor] ++ functorRound ++ [.client (.connector (.resume .none)), .tick 999999] ++
    functorRound ++ [.tick 1, .expire, .reset]

theorem released_idle_stopped : ∃ s, Steps.run (Steps.guarded Waits step) init stopped = some s ∧
    s.destroyed = true ∧
      s.client.connector.channel = none ∧ s.client.connector.functors.queue = [] := by
  have hobs : (Steps.run (Steps.guarded Waits step) init stopped).any (·.destroyed) = true := by
    decide +kernel
  obtain ⟨s, hs, hd⟩ := (Option.any_eq_true _ _).mp hobs
  exact ⟨s, hs, hd, released_idle hs hd⟩

/-- **Not in every run.**  The client is destroyed in its connection callback; and a functor takes
two seconds between `stopInLoop` and `resetChannel`. -/
theorem released_early :
    (∃ s, Steps.run step init (attempts ++ succeeds ++ [.dtor]) = some s ∧ s.destroyed = true ∧
      s.client.connector.channel ≠ none ∧ .resetChannel ∈ s.client.connector.functors.queue) ∧
    ∃ s, Steps.run step init (attempts ++ [.dtor] ++ functorRound ++
        [.client (.connector (.resume .none)), .tick 2000000, .expire, .reset]) = some s ∧
      s.destroyed = true ∧ s.client.connector.channel ≠ none ∧
        .resetChannel ∈ s.client.connector.functors.queue := by
  have hobs1 : (Steps.run step init (attempts ++ succeeds ++ [.dtor])).any
      (fun s => decide (s.destroyed = true ∧ s.client.connector.channel ≠ none ∧
        .resetChannel ∈ s.client.connector.functors.queue)) = true := by decide +kernel
  have hobs2 : (Steps.run step init (attempts ++ [.dtor] ++ functorRound ++
      [.client (.connector (.resume .none)), .tick 2000000, .expire, .reset])).any
      (fun s => decide (s.destroyed = true ∧ s.client.connector.channel ≠ none ∧
        .resetChannel ∈ s.client.connector.functors.queue)) = true := by decide +kernel
  obtain ⟨s, hs, hobs1⟩ := (Option.any_eq_true _ _).mp hobs1
  obtain ⟨t, ht, hobs2⟩ := (Option.any_eq_true _ _).mp hobs2
  exact ⟨⟨s, hs, of_decide_eq_true hobs1⟩, t, ht, of_decide_eq_true hobs2⟩

end

end ClientLife

end SimpleNet
