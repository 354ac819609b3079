import SimpleNet.Connection.Poller

/-!
# What the users of a connection see

A session is the order in which a user may be called: `connectionCallback_` when the connection
is up, `messageCallback_` any number of times, `connectionCallback_` when it is down, and nothing
after that.  `session_stepped`: a step of a connection is a step of a session, and `state_` says
how far it has come.

The users have to keep within it too.  Where they do not use a connection that they were not told
about, or that was reported down, every run of the connection is a session (`session_kept`).
Otherwise `startRead()` lets messages in before the connection is up and after it is down, and
`shutdown()` writes `kConnected` over any state.
-/

namespace SimpleNet

/-- What a user sees of a connection. -/
inductive View
  | up | message | down
  deriving DecidableEq, Repr

def Effect.view : Effect → Option View
  | .connectionCallback true => some .up
  | .connectionCallback false => some .down
  | .messageCallback => some .message
  | _ => none

theorem Effect.view_of_isData {e : Effect} (h : e.isData = true) : e.view = none := by
  cases e <;> first | rfl | cases h

/-- How far a session has come. -/
inductive Session
  | before | during | after
  deriving DecidableEq, Repr

namespace Session

inductive Step : Session → Option View → Session → Prop
  | quiet {p} : Step p none p
  | up : Step before (some .up) during
  | message : Step during (some .message) during
  | down : Step during (some .down) after

/-- The views of a session that has come so far. -/
def Shows (vs : List View) : Session → Prop
  | before => vs = []
  | during => ∃ n, vs = .up :: List.replicate n .message
  | after => ∃ n, vs = .up :: (List.replicate n .message ++ [.down])

theorem Shows.step {vs : List View} {p q : Session} {v : Option View} (h : Shows vs p)
    (hs : Step p v q) : Shows (vs ++ v.toList) q := by
  cases hs with
  | quiet => rwa [Option.toList_none, List.append_nil]
  | up =>
    obtain rfl : vs = [] := h
    exact ⟨0, rfl⟩
  | message =>
    obtain ⟨n, rfl⟩ := h
    exact ⟨n + 1, by rw [List.replicate_succ']; rfl⟩
  | down =>
    obtain ⟨n, rfl⟩ := h
    exact ⟨n, rfl⟩

end Session

/-- How far the session of a connection has come. -/
def StateE.session : StateE → Session
  | .kConnecting => .before
  | .kConnected | .kDisconnecting => .during
  | .kDisconnected => .after

theorem StateE.session_of_live {st : StateE} (h : st.Live) : st.session = .during := by
  rcases h with rfl | rfl <;> rfl

namespace Conn

variable {ι β : Type}

/-- What the users have seen. -/
def views (s : Conn ι β) : List View := s.trace.filterMap Effect.view

theorem views_of_trace {s t : Conn ι β} {es : List Effect} (h : t.trace = s.trace ++ es) :
    t.views = s.views ++ es.filterMap Effect.view := by
  rw [views, views, h, List.filterMap_append]

theorem filterMap_view_of_isData {es : List Effect} (h : ∀ e ∈ es, e.isData = true) :
    es.filterMap Effect.view = [] :=
  List.filterMap_eq_nil_iff.mpr fun e he => Effect.view_of_isData (h e he)

variable [DecidableEq ι] [Fifo β UInt8]

/-- Where users keep within the session. -/
structure SessionOk (s : Conn ι β) (a : Act) : Prop where
  closed : StaysClosedOk s a
  /-- `shutdown()`, and the second half of a call on another thread, find the connection live -/
  write : s.writing a ≠ .none → s.state.Live
  /-- reading is not controlled before the connection is up -/
  startRead : s.runsFn a = some .startReadInLoop → s.state ≠ .kConnecting
  stopRead : s.runsFn a = some .stopReadInLoop → s.state ≠ .kConnecting

instance (s : Conn ι β) (a : Act) : Decidable (SessionOk s a) :=
  decidable_of_iff (StaysClosedOk s a ∧ (s.writing a ≠ .none → s.state.Live) ∧
      (s.runsFn a = some .startReadInLoop → s.state ≠ .kConnecting) ∧
      (s.runsFn a = some .stopReadInLoop → s.state ≠ .kConnecting))
    ⟨fun ⟨h1, h2, h3, h4⟩ => ⟨h1, h2, h3, h4⟩, fun ⟨h1, h2, h3, h4⟩ => ⟨h1, h2, h3, h4⟩⟩

/-- The loop does not know the channel of a connection that is not up. -/
structure Unknown (s : Conn ι β) : Prop where
  index : s.ch.index ≠ .kAdded
  handle : .handle s.channel ∉ s.position
  reads : .onRead ∉ s.position

/-- What the runs of `session_kept` keep. -/
structure SessionInv (s : Conn ι β) : Prop where
  closed : ClosedInv s
  unknown : s.state = .kConnecting → Unknown s
  shows : s.state.session.Shows s.views

/-! ### Before the connection is up -/

omit [Fifo β UInt8] in
/-- A functor leaves the channel of a connection alone that is not up. -/
theorem unknown_ran {s u t : Conn ι β} {a : Act} {w : WriteResult} {r : ReadResult} {f : Functor}
    (hb : Base s) (hh : Held s) (hok : SessionOk s a) (hs : s.state = .kConnecting)
    (hi : s.ch.index ≠ .kAdded) (hu : Runs s a w r f u) (hran : Ran u r f t)
    (ht : t.state = .kConnecting) : t.toReactor = s.toReactor := by
  have hstate : u.state = s.state := by cases hu <;> rfl
  have hfn : s.runsFn a = some f := by rw [runsFn, hu.runs_eq]; rfl
  cases hran with
  | data hd hinert =>
    have hnone : u.ch.events = kNoneEvent := by
      rw [ch, hu.channel, hu.toReactor]
      exact hb.masked hi
    refine (hinert hnone ?_).trans hu.toReactor
    cases f with
    | startReadInLoop => exact absurd hs (hok.startRead hfn)
    | stopReadInLoop => exact absurd hs (hok.stopRead hfn)
    | sendInLoop m => exact absurd hs (hu.sendInLoop hh hok.closed.proper)
    | _ => trivial
  | user | message | remove => exact hu.toReactor
  | up | destroyed | closed => cases ht

theorem index_stepped {s t : Conn ι β} {a : Act} (h : SessionInv s) (hok : SessionOk s a)
    (hst : Stepped s a t) (hs : s.state = .kConnecting) (ht : t.state = .kConnecting) :
    t.ch.index ≠ .kAdded := by
  have hi := (h.unknown hs).index
  have hchan : t.channel = s.channel := hst.channel
  cases hst with
  | ran hu hr hran =>
    rw [ch, hchan, unknown_ran h.closed.base h.closed.held hok hs hi hu hran ht]
    exact hi
  | called hu hr hcall =>
    rw [ch, hchan, hcall.spec.2.2, hu.spec.2.2]
    exact hi
  | poll hs hw hf =>
    intro hidx
    exact hi ((Reactor.fillActiveChannels_same hf).1.index _ ▸ hidx)
  | removed => simp [ch]
  | handle => exact fun hidx => hi ((sameViews_enterChannel s _).index _ ▸ hidx)
  | handled =>
    intro hidx
    refine hi ?_
    simpa [ch, Reactor.setChan] using hidx
  | refused | stuck | closeCallback | skip | eventsDone | doPendingFunctors | ret | queue | begin
  | write | defer => exact hi

theorem unknown_stepped {s t : Conn ι β} {a : Act} (h : SessionInv s) (hok : SessionOk s a)
    (hst : Stepped s a t) (ht : t.state = .kConnecting) : Unknown t := by
  have hs := kConnecting_stepped h.closed.base hst ht
  obtain ⟨hi, hhandle, hreads⟩ := h.unknown hs
  refine ⟨index_stepped h hok hst hs ht, ?_, ?_⟩
  · rw [hst.channel]
    intro hf
    rcases mem_position_stepped h.closed.base hst hf with hm | ⟨b, hb⟩ |
      ⟨evs, l, -, hw, -, -, hact⟩ | ⟨rest, -, -, hg⟩
    · exact hhandle hm
    · cases hb
    · -- `poll` reports only registered channels
      rcases Frame.mem_active.mp hact with ⟨c, hc, he⟩ | he | he
      · obtain rfl := Frame.handle.inj he
        obtain ⟨p, hp, hpc⟩ := List.mem_map.mp hc
        have hadd := (Reactor.epollWait_added h.closed.base.agree hw hp).1
        rw [hpc] at hadd
        exact hi hadd
      · cases he
      · cases he
    · simp [Frame.guarded] at hg
  · intro hf
    rcases mem_position_stepped h.closed.base hst hf with hm | ⟨b, hb⟩ | ⟨evs, l, -, -, -, -, hact⟩ |
      ⟨rest, hstack, -, -⟩
    · exact hreads hm
    · cases hb
    · rcases Frame.mem_active.mp hact with ⟨c, hc, he⟩ | he | he <;> cases he
    · apply hhandle
      rw [position_of_loop hstack rfl]
      exact List.mem_cons_self

omit [DecidableEq ι] [Fifo β UInt8] in
/-- Data is read only while the connection is up. -/
theorem read_of_session {s u : Conn ι β} {a : Act} {w : WriteResult} {bytes : List UInt8}
    (h : SessionInv s) (hok : SessionOk s a) (hu : Runs s a w (.data bytes) .handleRead u)
    (hb : bytes ≠ []) : s.state.Live := by
  refine StateE.live_of_ne (fun hs => ?_) (read_of_closed h.closed hok.closed hu hb)
  cases hu with
  | functors hst =>
    exact h.closed.held .handleRead
      (Or.inr (Or.inl ⟨_, hst ▸ List.mem_cons_self, List.mem_cons_self⟩))
  | onRead hst hrev =>
    apply (h.unknown hs).reads
    rw [position_of_loop hst rfl]
    exact List.mem_cons_self
  | enter => rcases hok.closed.proper with hp | hp | hp <;> cases hp

/-! ### A step of the session -/

omit [DecidableEq ι] [Fifo β UInt8] in
/-- A step that no user sees. -/
theorem quiet_of_eq {s t : Conn ι β} (es : List Effect) (hs : t.state.session = s.state.session)
    (ht : t.trace = s.trace ++ es) (hes : es.filterMap Effect.view = []) :
    ∃ v, t.views = s.views ++ v.toList ∧ Session.Step s.state.session v t.state.session := by
  refine ⟨none, ?_, hs ▸ .quiet⟩
  rw [views_of_trace ht, hes]
  rfl

omit [Fifo β UInt8] in
theorem session_ran {s u t : Conn ι β} {a : Act} {w : WriteResult} {r : ReadResult} {f : Functor}
    (h : SessionInv s) (hok : SessionOk s a) (hu : Runs s a w r f u) (hran : Ran u r f t) :
    ∃ v, t.views = s.views ++ v.toList ∧ Session.Step s.state.session v t.state.session := by
  have hstate : u.state = s.state := by cases hu <;> rfl
  obtain ⟨es, hes, hes'⟩ : ∃ es, u.trace = s.trace ++ es ∧ ∀ e ∈ es, e.isData = true := by
    cases hu with
    | call => exact ⟨[_], rfl, by simp [Effect.isData]⟩
    | _ => exact ⟨[], by simp, by simp⟩
  have hviews : u.views = s.views := by
    rw [views_of_trace hes, filterMap_view_of_isData hes', List.append_nil]
  have hsees : ∀ {t : Conn ι β} (fs : List Effect) {v : View}, t.trace = u.trace ++ fs →
      fs.filterMap Effect.view = [v] → t.views = s.views ++ (some v).toList := by
    intro t fs v ht hfs
    rw [views_of_trace ht, hfs, hviews]
    rfl
  cases hran with
  | data hd =>
    obtain ⟨fs, hfs, hd'⟩ := hd.trace
    refine quiet_of_eq (es ++ fs) (by rw [hd.state, hstate]) ?_ ?_
    · rw [hfs, hes, List.append_assoc]
    · rw [List.filterMap_append, filterMap_view_of_isData hes', filterMap_view_of_isData hd']
      rfl
  | user | remove => exact quiet_of_eq _ (congrArg _ hstate) hes (filterMap_view_of_isData hes')
  | message b bytes hbytes hne =>
    subst hbytes
    have hl := StateE.session_of_live (read_of_session h hok hu hne)
    refine ⟨some .message, hsees [.messageCallback] rfl rfl, ?_⟩
    show Session.Step _ _ u.state.session
    rw [hstate, hl]
    exact .message
  | up hs =>
    refine ⟨some .up, hsees _ rfl rfl, ?_⟩
    rw [← hstate, hs]
    exact .up
  | destroyed hs =>
    refine ⟨some .down, hsees _ rfl rfl, ?_⟩
    rw [← hstate, hs]
    exact .down
  | closed hf hs =>
    refine ⟨some .down, hsees _ rfl rfl, ?_⟩
    rw [← hstate, StateE.session_of_live hs]
    exact .down

/-- **Every step of a connection is a step of its session.** -/
theorem session_stepped {s t : Conn ι β} {a : Act} (h : SessionInv s) (hok : SessionOk s a)
    (hst : Stepped s a t) :
    ∃ v, t.views = s.views ++ v.toList ∧ Session.Step s.state.session v t.state.session := by
  have hwrite := hok.write
  cases hst with
  | ran hu hr hran => exact session_ran h hok hu hran
  | @called _ l w c u _ hu hr ht =>
    have hstate : u.state = s.state := by cases hu <;> rfl
    have htrace : u.trace = s.trace := by cases hu <;> rfl
    cases ht with
    | data hd hr =>
      obtain ⟨fs, hfs, hd'⟩ := hd.trace
      exact quiet_of_eq _ (by rw [hd.state, hstate]) (htrace ▸ hfs) (filterMap_view_of_isData hd')
    | shutdown hd hr =>
      obtain ⟨fs, hfs, hd'⟩ := hd.trace
      simp only [setState_trace, emit_trace, htrace, List.append_assoc] at hfs
      have hl := hwrite (by simp [hu.writing])
      refine quiet_of_eq _ ?_ hfs ?_
      · rw [hd.state, StateE.session_of_live hl]
        rfl
      · simp only [List.filterMap_append, filterMap_view_of_isData hd']
        rfl
    | close hc hl hd hr =>
      obtain ⟨fs, hfs, hd'⟩ := hd.trace
      simp only [setState_trace, emit_trace, htrace, List.append_assoc] at hfs
      refine quiet_of_eq _ ?_ hfs ?_
      · rw [hd.state, ← hstate, StateE.session_of_live hl]
        rfl
      · simp only [List.filterMap_append, filterMap_view_of_isData hd']
        rfl
  | @write n fn st ms hs =>
    obtain ⟨c, st', hm⟩ := h.closed.base.threads n _ (hs ▸ List.mem_cons_self)
    have hl := hwrite (by simp [writing, hs])
    refine quiet_of_eq [_] ?_ rfl rfl
    rw [StateE.session_of_live hl]
    exact StateE.session_of_live (setState_of_body hm)
  | poll | refused | stuck | handle | skip | handled | eventsDone | doPendingFunctors | ret
  | queue => exact quiet_of_eq [] rfl (List.append_nil _).symm rfl
  | removed | closeCallback | begin | defer => exact quiet_of_eq [_] rfl rfl rfl

/-! ### Runs -/

theorem sessionInv_stepped {s t : Conn ι β} {a : Act} (h : SessionInv s) (hok : SessionOk s a)
    (hst : Stepped s a t) : SessionInv t where
  closed := closedInv_stepped h.closed hok.closed hst
  unknown := unknown_stepped h hok hst
  shows := by
    obtain ⟨v, hv, hs⟩ := session_stepped h hok hst
    exact hv ▸ h.shows.step hs

omit [DecidableEq ι] in
theorem sessionInv_init {r : Reactor ι} {c : ι} (hr : Fresh r c) (mark : Nat) (hw wc : Bool) :
    SessionInv (init r c mark hw wc : Conn ι β) where
  closed := closedInv_init hr mark hw wc
  unknown _ := by
    obtain ⟨fd, hfd⟩ := hr.chan
    exact ⟨by simp [ch, init, hfd, Channel.new], by simp [init, Conn.position],
      by simp [init, Conn.position]⟩
  shows := rfl

/-- The users were called in the order of a session. -/
structure InSession (s : Conn ι β) : Prop where
  shows : s.state.session.Shows s.views
  /-- `connectDestroyed` returns only after the users were told -/
  destroyed : .destroyed ∈ s.trace → .down ∈ s.views
  /-- so is `closeCallback_` called, and at most once -/
  closeCallback : s.trace.count .closeCallback ≤ s.views.count .down

omit [DecidableEq ι] [Fifo β UInt8] in
theorem inSession_of_sessionInv {s : Conn ι β} (h : SessionInv s) : InSession s := by
  have hdown : s.state = .kDisconnected → .down ∈ s.views := by
    intro hs
    have hshows := h.shows
    rw [hs] at hshows
    obtain ⟨n, hn⟩ := hshows
    simp [hn]
  refine ⟨h.shows, fun hm => hdown ?_, ?_⟩
  · by_contra hs
    exact (h.closed.stalled hs).1 hm
  · obtain ⟨h1, -, h3, h4⟩ := h.closed.phase
    calc s.trace.count .closeCallback
      _ = s.life.log.count .closeCallback := (List.count_filter (by rfl)).symm
      _ ≤ s.life.closeCallbacks := Nat.le_add_right _ _
      _ = s.life.closes := h4
      _ ≤ s.life.downs := h3
      _ = if s.state = .kDisconnected then 1 else 0 := h1
      _ ≤ s.views.count .down := by
        split
        · next hs => exact List.count_pos_iff.mpr (hdown hs)
        · exact Nat.zero_le _

/-- **The users of a connection are called in the order of a session**, in every run in which
they keep within it. -/
theorem session_kept {r : Reactor ι} {c : ι} (hr : Fresh r c) (mark : Nat) (hw wc : Bool)
    {as : List Act} {t : Conn ι β}
    (hrun : Steps.run (Steps.guarded SessionOk step) (init r c mark hw wc) as = some t) :
    InSession t := by
  refine inSession_of_sessionInv (Steps.run_invariant ?_ (sessionInv_init hr mark hw wc) hrun)
  intro u a v h hs
  obtain ⟨hok, hs⟩ := Steps.guarded_eq_some.mp hs
  exact sessionInv_stepped h hok (step_stepped h.closed.base.agree hs).2

/-- `startRead()` on a connection that is not up. -/
example : (Steps.run step alone ([.enter .other (.wrote 0) (.data []), .call .startRead (.wrote 0),
    .ret, .poll [(5, POLLIN)]] ++ goes 3 ++ [.go (.wrote 0) (.data [1])])).map views =
      some [.message] := by
  decide

/-- A message is read, then the peer closes. -/
def talked : List Act :=
  established ++ [.poll [(5, POLLIN)]] ++ goes 3 ++ [.go (.wrote 0) (.data [1]), .ret] ++ goes 5 ++
    [.poll [(5, POLLIN)]] ++ goes 4

theorem session_kept_talked : ∃ t : Conn Unit (List UInt8),
    Steps.run (Steps.guarded SessionOk step) alone talked = some t ∧
      t.views = [.up, .message, .down] ∧ InSession t := by
  have hobs : (Steps.run (Steps.guarded SessionOk step) alone talked).any (fun t =>
      decide (t.views = [.up, .message, .down])) = true := by decide
  obtain ⟨t, ht, hv⟩ := (Option.any_eq_true _ _).mp hobs
  exact ⟨t, ht, of_decide_eq_true hv, session_kept fresh_alone 64 false true ht⟩

end Conn

end SimpleNet
