import SimpleNet.Reactor.Views
import Mathlib.Data.List.Nodup
import Mathlib.Data.List.Perm.Subperm

/-!
# How many events one `poll` returns

`EPollPoller::poll` with its vector `events_`: `epoll_wait` returns as many of the ready
descriptors as `events_` holds, and a full vector is doubled.  Between two polls the channels are
used, and dispatched by `EventLoop::loop`.

`truncated_le`: the process has descriptors below a limit `N`, so that in a whole run only about
`log2 (N / kInitEventListSize)` polls leave a ready descriptor unreported.
-/

namespace SimpleNet

open Function (Injective)

/-- The poller and the size of its `events_`. -/
structure EPollPoller (ι : Type) extends Reactor ι where
  events : Nat

namespace EPollPoller

open Reactor (Op Agree fresh)

variable {ι : Type} [DecidableEq ι]

/-- `EPollPoller::EPollPoller`, with `kInitEventListSize` of its header. -/
def init (fd : ι → Int) (kInitEventListSize : Nat) : EPollPoller ι where
  toReactor := fresh fd
  events := kInitEventListSize

/-- `EPollPoller::poll` after `epoll_wait` has returned `evs`. -/
def poll (s : EPollPoller ι) (evs : List (Mask × ι)) : Except Assertion (EPollPoller ι) := do
  let r ← { s.toReactor with activeChannels := [] }.fillActiveChannels evs
  return { toReactor := r
           events := if evs.length = s.events then s.events * 2 else s.events }

inductive Act (ι : Type)
  | op (c : ι) (o : Op)
  /-- `loop` comes to an active channel, or to the end of them -/
  | dispatch (c : Option ι)
  /-- the ready descriptors, in the order of the kernel -/
  | poll (ready : List (Int × Mask))

/-- An assertion that fails ends the process. -/
def step (s : EPollPoller ι) : Act ι → Option (EPollPoller ι)
  | .op c o => (s.exec c o).toOption.map fun r => { s with toReactor := r }
  | .dispatch c =>
    some { s with toReactor :=
      { s.toReactor with currentActiveChannel := c, eventHandling := c.isSome } }
  | .poll ready => (s.epollWait ready).bind fun l => (s.poll (l.take s.events)).toOption

/-- A poll that does not report all that is ready. -/
def truncated (x : EPollPoller ι × Act ι × EPollPoller ι) : Bool :=
  match x.2.1 with
  | .poll ready => x.1.events < ready.length
  | _ => false

section

variable {fd : ι → Int} {N : Nat} {s t : EPollPoller ι} {a : Act ι}

/-- The views agree on the channels' descriptors, and `events_` is not empty. -/
structure Sized (fd : ι → Int) (s : EPollPoller ι) : Prop where
  agree : Agree s.toReactor
  fd : ∀ c, (s.chan c).fd = fd c
  pos : 0 < s.events

omit [DecidableEq ι] in
theorem length_epollWait {r : Reactor ι} {evs : List (Int × Mask)} {l : List (Mask × ι)}
    (hfd : ∀ ev p, r.epollReport ev = some p → (r.chan p.2).fd = ev.1)
    (hw : r.epollWait evs = some l) : l.length = evs.length := by
  unfold Reactor.epollWait at hw
  split at hw
  · simpa using congrArg List.length (Reactor.fds_of_mapM_report hfd hw)
  · cases hw

/-- **A poll** passes its assertions, and reports the first of what is ready. -/
theorem poll_ok (hs : Agree s.toReactor) {ready : List (Int × Mask)} {l : List (Mask × ι)}
    (hw : s.epollWait ready = some l) :
    ∃ u, s.poll (l.take s.events) = .ok u ∧
      u.events = (if (l.take s.events).length = s.events then s.events * 2 else s.events) ∧
      Reactor.SameViews s.toReactor u.toReactor ∧
      u.activeChannels = (l.take s.events).map Prod.snd := by
  have hmem : ∀ p ∈ l.take s.events, s.channels (s.chan p.2).fd = some p.2 := by
    intro p hp
    have hadd := (Reactor.epollWait_added hs hw (List.mem_of_mem_take hp)).1
    rw [hs.channels_eq, if_neg (by rw [hadd]; exact nofun)]
  obtain ⟨r, hr⟩ := Reactor.fillActiveChannels_ok
    (r := { s.toReactor with activeChannels := [] }) hmem
  obtain ⟨hsame, hact, -⟩ := Reactor.fillActiveChannels_same hr
  refine ⟨⟨r, _⟩, by rw [poll, hr]; rfl, rfl, ⟨hsame.fd, hsame.events, hsame.index,
    hsame.addedToLoop, hsame.channels, hsame.epoll⟩, hact⟩

theorem sized_step (hs : Sized fd s) (hst : step s a = some t) : Sized fd t := by
  cases a with
  | op c o =>
    simp only [step, Option.map_eq_some_iff] at hst
    obtain ⟨r, hr, rfl⟩ := hst
    have he := Steps.toOption_eq_some.mp hr
    refine ⟨Reactor.agree_exec hs.agree he, ?_, hs.pos⟩
    intro d
    rw [← hs.fd d]
    rcases Reactor.exec_ok hs.agree he with ⟨-, rfl⟩ | ⟨-, -, -, rfl⟩
    · exact Reactor.setMask_fd _ _ _ _
    · exact Reactor.drop_fd _ _ _
  | dispatch c =>
    obtain rfl := Option.some.inj hst
    have hsame : Reactor.SameViews s.toReactor
        { s.toReactor with currentActiveChannel := c, eventHandling := c.isSome } :=
      ⟨fun _ => rfl, fun _ => rfl, fun _ => rfl, fun _ => rfl, rfl, rfl⟩
    exact ⟨hsame.agree hs.agree, hs.fd, hs.pos⟩
  | poll ready =>
    simp only [step, Option.bind_eq_some_iff] at hst
    obtain ⟨l, hl, hst⟩ := hst
    obtain ⟨u, hu, hev, hsame, -⟩ := poll_ok hs.agree hl
    obtain rfl := Except.ok.inj (hu.symm.trans (Steps.toOption_eq_some.mp hst))
    refine ⟨hsame.agree hs.agree, fun c => (hsame.fd c).trans (hs.fd c), ?_⟩
    rw [hev]
    split
    · exact Nat.mul_pos hs.pos Nat.two_pos
    · exact hs.pos

omit [DecidableEq ι] in
/-- No more descriptors are ready than there are. -/
theorem ready_le (hs : Sized fd s) (hN : ∀ c, 0 ≤ fd c ∧ fd c < N) {ready : List (Int × Mask)}
    {l : List (Mask × ι)} (hw : s.epollWait ready = some l) : ready.length ≤ N := by
  have hreport : ∀ ev p, s.epollReport ev = some p → (s.chan p.2).fd = ev.1 := fun _ _ he =>
    (Reactor.epollReport_mapped hs.agree he).1
  have hlen := length_epollWait hreport hw
  have hnodup : ((l.map Prod.snd).map fd).Nodup := by
    have hinj : Injective fd := by
      have h := hs.agree.inj
      rwa [funext hs.fd] at h
    exact (Reactor.epollWait_nodup hs.agree hw).map hinj
  have hsub : (l.map Prod.snd).map fd ⊆ (List.range N).map Int.ofNat := by
    intro f hf
    obtain ⟨c, -, rfl⟩ := List.mem_map.mp hf
    obtain ⟨h0, h1⟩ := hN c
    refine List.mem_map.mpr ⟨(fd c).toNat, List.mem_range.mpr ?_, Int.toNat_of_nonneg h0⟩
    omega
  have hle := (List.subperm_of_subset hnodup hsub).length_le
  simp only [List.length_map, List.length_range] at hle
  omega

/-- A poll that leaves something unreported doubles `events_`, which holds less than there are
descriptors. -/
theorem events_step (hs : Sized fd s) (hN : ∀ c, 0 ≤ fd c ∧ fd c < N) (hst : step s a = some t) :
    s.events * (if truncated (s, a, t) then 2 else 1) ≤ t.events ∧
      (t.events = s.events ∨ t.events = s.events * 2 ∧ s.events ≤ N) := by
  cases a with
  | op c o =>
    simp only [step, Option.map_eq_some_iff] at hst
    obtain ⟨r, -, rfl⟩ := hst
    exact ⟨Nat.le_of_eq (Nat.mul_one _), Or.inl rfl⟩
  | dispatch c =>
    obtain rfl := Option.some.inj hst
    exact ⟨Nat.le_of_eq (Nat.mul_one _), Or.inl rfl⟩
  | poll ready =>
    simp only [step, Option.bind_eq_some_iff] at hst
    obtain ⟨l, hl, hst⟩ := hst
    obtain ⟨u, hu, hev, -, -⟩ := poll_ok hs.agree hl
    obtain rfl := Except.ok.inj (hu.symm.trans (Steps.toOption_eq_some.mp hst))
    have hready := ready_le hs hN hl
    have hlen : l.length = ready.length :=
      length_epollWait (fun _ _ he => (Reactor.epollReport_mapped hs.agree he).1) hl
    rw [List.length_take, hlen] at hev
    rw [hev]
    show s.events * (if decide (s.events < ready.length) then 2 else 1) ≤ _ ∧ _
    by_cases hfull : s.events ≤ ready.length
    · rw [Nat.min_eq_left hfull, if_pos rfl]
      refine ⟨Nat.mul_le_mul_left _ ?_, Or.inr ⟨rfl, Nat.le_trans hfull hready⟩⟩
      split <;> decide
    · rw [if_neg (by simpa using fun h => hfull (Nat.le_of_lt h)), if_neg (by omega)]
      exact ⟨Nat.le_of_eq (Nat.mul_one _), Or.inl rfl⟩

/-- **Few polls are truncated.**  In a whole run `events_` stays below twice the descriptor limit,
polls pass their assertions, and at most about `log2 (N / kInitEventListSize)` of them leave a
ready descriptor unreported. -/
theorem truncated_le {kInitEventListSize : Nat} {as : List (Act ι)} (hfd : Injective fd)
    (hN : ∀ c, 0 ≤ fd c ∧ fd c < N) (hk : 0 < kInitEventListSize)
    (hrun : Steps.run step (init fd kInitEventListSize) as = some t) :
    kInitEventListSize * 2 ^ (Steps.trail step (init fd kInitEventListSize) as).countP truncated ≤
        t.events ∧
      t.events ≤ max kInitEventListSize (2 * N) ∧
      ∀ ready l, t.epollWait ready = some l →
        ∃ u, step t (.poll ready) = some u ∧ u.activeChannels = (l.take t.events).map Prod.snd := by
  have hinit : Sized fd (init fd kInitEventListSize) := ⟨Reactor.agree_fresh hfd, fun _ => rfl, hk⟩
  have hstep : ∀ (s : EPollPoller ι) a t, Sized fd s → step s a = some t → Sized fd t :=
    fun _ _ _ => sized_step
  refine ⟨?_, ?_, ?_⟩
  · refine Steps.pow_count_trail (μ := fun s => s.events) ?_ hrun
    intro x hx
    obtain ⟨hs, hst⟩ := Steps.mem_trail hstep hinit x hx
    exact (events_step hs hN hst).1
  · refine (Steps.run_invariant (I := fun s => Sized fd s ∧ s.events ≤ max kInitEventListSize (2 * N))
      ?_ ⟨hinit, Nat.le_max_left _ _⟩ hrun).2
    rintro s a t ⟨hs, hle⟩ hst
    refine ⟨hstep s a t hs hst, ?_⟩
    rcases (events_step hs hN hst).2 with he | ⟨he, hsN⟩
    · rw [he]
      exact hle
    · omega
  · intro ready l hl
    have ht := Steps.run_invariant hstep hinit hrun
    obtain ⟨u, hu, -, -, hact⟩ := poll_ok ht.agree hl
    refine ⟨u, ?_, hact⟩
    rw [step, hl, Option.bind_some, hu]
    rfl

/-- Three sockets become ready in a vector of two. -/
theorem truncated_le_three : ∃ t, Steps.run step (init (fun c : Fin 3 => (c.val : Int) + 3) 2)
      [.op 0 .enableReading, .op 1 .enableReading, .op 2 .enableReading,
        .poll [(3, POLLIN), (4, POLLIN), (5, POLLIN)]] = some t ∧
    t.events ≤ 12 := by
  have hrun : Steps.run step (init (fun c : Fin 3 => (c.val : Int) + 3) 2)
      [.op 0 .enableReading, .op 1 .enableReading, .op 2 .enableReading,
        .poll [(3, POLLIN), (4, POLLIN), (5, POLLIN)]] = some _ := rfl
  have hinj : Injective fun c : Fin 3 => (c.val : Int) + 3 := by
    intro c d h
    simp only at h
    exact Fin.ext (by omega)
  exact ⟨_, hrun, (truncated_le (N := 6) hinj (fun c => ⟨by omega, by omega⟩) Nat.two_pos hrun).2.1⟩

end

end EPollPoller

end SimpleNet
