import SimpleNet.Reactor.Views

/-!
# Channels whose descriptors are used again

`Agree` gives each channel a descriptor of its own.  In a loop that goes on for long a
descriptor is closed and comes back in another channel, so here any number of channels may
have the same one.  What holds of `channels_` without `Agree` follows from the assertions of
the poller: an operation of one channel leaves the others as they are.
-/

namespace SimpleNet

open Function (update)

namespace Reactor

variable {ι : Type} [DecidableEq ι]

/-- `EventLoop::hasChannel`. -/
def HasChannel (r : Reactor ι) (c : ι) : Prop := r.channels (r.chan c).fd = some c

instance (r : Reactor ι) (c : ι) : Decidable (r.HasChannel c) :=
  inferInstanceAs (Decidable (_ = _))

/-- What is in the interest set is in `channels_`. -/
def Mapped (r : Reactor ι) : Prop :=
  ∀ f m c, r.epoll f = some (m, c) →
    (r.chan c).fd = f ∧ r.HasChannel c ∧ (r.chan c).index = .kAdded

/-- `t` differs from `r` in nothing that the loop reads while it walks over the active
channels, and of the channels in `channels_` at most in `c`. -/
structure Around (c : ι) (r t : Reactor ι) : Prop where
  fd : ∀ d, (t.chan d).fd = (r.chan d).fd
  activeChannels : t.activeChannels = r.activeChannels
  currentActiveChannel : t.currentActiveChannel = r.currentActiveChannel
  eventHandling : t.eventHandling = r.eventHandling
  others : ∀ d, d ≠ c → (t.HasChannel d ↔ r.HasChannel d)

omit [DecidableEq ι] in
theorem Around.trans {c : ι} {r s t : Reactor ι} (h : Around c r s) (g : Around c s t) :
    Around c r t where
  fd d := (g.fd d).trans (h.fd d)
  activeChannels := g.activeChannels.trans h.activeChannels
  currentActiveChannel := g.currentActiveChannel.trans h.currentActiveChannel
  eventHandling := g.eventHandling.trans h.eventHandling
  others d hd := (g.others d hd).trans (h.others d hd)

omit [DecidableEq ι] in
theorem Around.removable {c d : ι} {r t : Reactor ι} (h : Around c r t) :
    t.Removable d ↔ r.Removable d := by
  unfold Removable
  rw [h.eventHandling, h.currentActiveChannel, h.activeChannels]

/-! ### The poller -/

theorem bind_check_eq_ok {a : Assertion} {p : Prop} [Decidable p] {α : Type}
    {f : Unit → Except Assertion α} {x : α} :
    (a.check p >>= f) = .ok x ↔ p ∧ f () = .ok x := by
  by_cases hp : p
  · simp [hp, bind, Except.bind]
  · simp [hp, bind, Except.bind]

section

variable {r t : Reactor ι} {c d : ι} {f : Int} {m : Mask}

theorem around_setChan (c : ι) (ch : Channel) (hfd : ch.fd = (r.chan c).fd) :
    Around c r (r.setChan c ch) := by
  have hall : ∀ d, ((r.setChan c ch).chan d).fd = (r.chan d).fd := by
    intro d
    by_cases hd : d = c
    · subst hd; simpa [setChan] using hfd
    · simp [setChan, hd]
  refine ⟨hall, rfl, rfl, rfl, fun d _ => ?_⟩
  rw [HasChannel, hall]
  exact Iff.rfl

theorem hasChannel_setChan (c d : ι) (ch : Channel) (hfd : ch.fd = (r.chan c).fd) :
    (r.setChan c ch).HasChannel d ↔ r.HasChannel d := by
  rw [HasChannel, (around_setChan c ch hfd).fd]
  exact Iff.rfl

/-- Only a channel that is not in the interest set may change its index freely. -/
theorem Mapped.setChan (h : Mapped r) (c : ι) (ch : Channel) (hfd : ch.fd = (r.chan c).fd)
    (hi : (r.chan c).index = .kAdded → ch.index = .kAdded) : Mapped (r.setChan c ch) := by
  intro f m d he
  obtain ⟨hd, hmap, hadd⟩ := h f m d he
  refine ⟨((around_setChan c ch hfd).fd d).trans hd, (hasChannel_setChan c d ch hfd).mpr hmap, ?_⟩
  by_cases hdc : d = c
  · subst hdc
    simpa [Reactor.setChan] using hi hadd
  · simpa [Reactor.setChan, hdc] using hadd

omit [DecidableEq ι] in
theorem around_ctlUpdate (r : Reactor ι) (op : CtlOp) (c : ι) : Around c r (r.ctlUpdate op c) :=
  ⟨fun _ => rfl, rfl, rfl, rfl, fun _ _ => Iff.rfl⟩

omit [DecidableEq ι] in
/-- What `epoll_ctl` leaves in the interest set was there or is the channel. -/
theorem ctlUpdate_epoll {op : CtlOp} (h : (r.ctlUpdate op c).epoll f = some (m, d)) :
    r.epoll f = some (m, d) ∨ f = (r.chan c).fd ∧ d = c := by
  by_cases hf : f = (r.chan c).fd
  · subst hf
    cases op <;> cases he : r.epoll (r.chan c).fd <;> simp_all [ctlUpdate, epollCtl]
  · left
    cases op <;> cases he : r.epoll (r.chan c).fd <;> simp_all [ctlUpdate, epollCtl]

omit [DecidableEq ι] in
theorem ctlUpdate_epoll_del (h : (r.ctlUpdate .DEL c).epoll f = some (m, d)) :
    r.epoll f = some (m, d) ∧ f ≠ (r.chan c).fd := by
  by_cases hf : f = (r.chan c).fd
  · subst hf
    cases he : r.epoll (r.chan c).fd <;> simp_all [ctlUpdate, epollCtl]
  · refine ⟨?_, hf⟩
    cases he : r.epoll (r.chan c).fd <;> simp_all [ctlUpdate, epollCtl]

omit [DecidableEq ι] in
/-- `epoll_ctl` for a channel of `channels_`. -/
theorem Mapped.ctlUpdate {op : CtlOp} (h : Mapped r) (hc : r.HasChannel c)
    (hi : (r.chan c).index = .kAdded) : Mapped (r.ctlUpdate op c) := by
  intro f m d he
  rcases ctlUpdate_epoll he with he | ⟨rfl, rfl⟩
  · exact h f m d he
  · exact ⟨rfl, hc, hi⟩

theorem around_setIndex (r : Reactor ι) (c : ι) (i : Index) : Around c r (r.setIndex c i) :=
  around_setChan c { r.chan c with index := i } rfl

theorem hasChannel_setIndex (c d : ι) (i : Index) : (r.setIndex c i).HasChannel d ↔ r.HasChannel d :=
  hasChannel_setChan c d { r.chan c with index := i } rfl

omit [DecidableEq ι] in
/-- A new channel gets a free descriptor. -/
theorem register_new (hm : Mapped r) (hi : (r.chan c).index = .kNew)
    (hfree : r.channels (r.chan c).fd = none) :
    Around c r { r with channels := update r.channels (r.chan c).fd (some c) } ∧
      Mapped { r with channels := update r.channels (r.chan c).fd (some c) } := by
  have hothers : ∀ d, d ≠ c → (update r.channels (r.chan c).fd (some c) (r.chan d).fd = some d ↔
      r.channels (r.chan d).fd = some d) := by
    intro d hd
    by_cases hf : (r.chan d).fd = (r.chan c).fd
    · rw [hf, Function.update_self, hfree]
      simp [Ne.symm hd]
    · rw [Function.update_of_ne hf]
  refine ⟨⟨fun _ => rfl, rfl, rfl, rfl, hothers⟩, ?_⟩
  intro f m d he
  obtain ⟨hfd, hd, hadd⟩ := hm f m d he
  have hdc : d ≠ c := by
    rintro rfl
    rw [hi] at hadd
    cases hadd
  exact ⟨hfd, (hothers d hdc).mpr hd, hadd⟩

/-- **An update** leaves its channel registered. -/
theorem pollerUpdateChannel_ok (hm : Mapped r) (h : r.pollerUpdateChannel c = .ok t) :
    Around c r t ∧ Mapped t ∧ t.HasChannel c := by
  -- the index becomes `kAdded`, then `EPOLL_CTL_ADD`
  have hadd : ∀ {u : Reactor ι}, Mapped u → u.HasChannel c →
      Around c u ((u.setIndex c .kAdded).ctlUpdate .ADD c) ∧
        Mapped ((u.setIndex c .kAdded).ctlUpdate .ADD c) ∧
          ((u.setIndex c .kAdded).ctlUpdate .ADD c).HasChannel c := by
    intro u hu hc
    have hc' := (hasChannel_setIndex c c .kAdded).mpr hc
    have hu' : Mapped (u.setIndex c .kAdded) :=
      hu.setChan c { u.chan c with index := .kAdded } rfl fun _ => rfl
    exact ⟨(around_setIndex u c .kAdded).trans (around_ctlUpdate _ _ c),
      hu'.ctlUpdate hc' (by simp [setIndex, setChan]), hc'⟩
  cases hi : (r.chan c).index with
  | kNew =>
    simp only [pollerUpdateChannel, hi, bind_check_eq_ok] at h
    obtain ⟨hfree, h⟩ := h
    obtain rfl := Except.ok.inj h
    obtain ⟨hreg, hmap⟩ := register_new hm hi hfree
    obtain ⟨h1, h2, h3⟩ := hadd hmap (Function.update_self _ _ _)
    exact ⟨hreg.trans h1, h2, h3⟩
  | kDeleted =>
    simp only [pollerUpdateChannel, hi, bind_check_eq_ok] at h
    obtain ⟨-, hc, h⟩ := h
    obtain rfl := Except.ok.inj h
    exact hadd hm hc
  | kAdded =>
    simp only [pollerUpdateChannel, hi, bind_check_eq_ok] at h
    obtain ⟨-, hc, h⟩ := h
    split at h
    · obtain rfl := Except.ok.inj h
      have hidx := around_setIndex (r.ctlUpdate .DEL c) c .kDeleted
      refine ⟨(around_ctlUpdate r .DEL c).trans hidx, ?_, (hasChannel_setIndex c c .kDeleted).mpr hc⟩
      intro f m d he
      obtain ⟨he, hf⟩ := ctlUpdate_epoll_del he
      obtain ⟨hfd, hd, hadd⟩ := hm f m d he
      have hdc : d ≠ c := by
        rintro rfl
        exact hf hfd.symm
      refine ⟨(hidx.fd d).trans hfd, (hasChannel_setIndex c d .kDeleted).mpr hd, ?_⟩
      simpa [setIndex, setChan, ctlUpdate, hdc] using hadd
    · obtain rfl := Except.ok.inj h
      exact ⟨around_ctlUpdate r _ c, hm.ctlUpdate hc hi, hc⟩

theorem channelUpdate_ok (hm : Mapped r) (h : r.channelUpdate c m = .ok t) :
    Around c r t ∧ Mapped t ∧ t.HasChannel c := by
  let ch : Channel := { r.chan c with events := m, addedToLoop := true }
  obtain ⟨hupd, hmap, hc⟩ := pollerUpdateChannel_ok (hm.setChan c ch rfl fun hi => hi) h
  exact ⟨(around_setChan c ch rfl).trans hupd, hmap, hc⟩

/-- An update fails no assertion of a removal. -/
theorem channelUpdate_error {a : Assertion} (h : r.channelUpdate c m = .error a) :
    a ∈ [.newAbsent, .present, .same] := by
  simp only [channelUpdate, pollerUpdateChannel] at h
  split at h
  · simp only [Assertion.bind_check_eq_error, pure, Except.pure, reduceCtorEq, and_false,
      or_false] at h
    simp [h.2]
  · simp only [Assertion.bind_check_eq_error, pure, Except.pure, reduceCtorEq, and_false,
      or_false] at h
    rcases h with ⟨-, rfl⟩ | ⟨-, -, rfl⟩ <;> simp
  · simp only [Assertion.bind_check_eq_error, pure, Except.pure] at h
    rcases h with ⟨-, rfl⟩ | ⟨-, ⟨-, rfl⟩ | ⟨-, h⟩⟩
    · simp
    · simp
    · split at h <;> cases h

/-- **A removal** takes its channel out. -/
theorem pollerRemoveChannel_ok (hm : Mapped r) (h : r.pollerRemoveChannel c = .ok t) :
    Around c r t ∧ Mapped t ∧ ¬ t.HasChannel c := by
  simp only [pollerRemoveChannel, bind_check_eq_ok] at h
  obtain ⟨-, hc, -, -, -, h⟩ := h
  obtain rfl := Except.ok.inj h
  have hothers : ∀ d, d ≠ c → (update r.channels (r.chan c).fd none (r.chan d).fd = some d ↔
      r.channels (r.chan d).fd = some d) := by
    intro d hd
    by_cases hf : (r.chan d).fd = (r.chan c).fd
    · rw [hf, Function.update_self, hc]
      simp [Ne.symm hd]
    · rw [Function.update_of_ne hf]
  have herase : Around c r { r with channels := update r.channels (r.chan c).fd none } :=
    ⟨fun _ => rfl, rfl, rfl, rfl, hothers⟩
  have hgone : ¬ ({ r with channels := update r.channels (r.chan c).fd none }).HasChannel c := by
    simp [HasChannel]
  -- what is left in the interest set is not at the descriptor
  have hrest : ∀ f m d, r.epoll f = some (m, d) → f ≠ (r.chan c).fd → d ≠ c ∧ (r.chan d).fd = f ∧
      ({ r with channels := update r.channels (r.chan c).fd none }).HasChannel d ∧
        (r.chan d).index = .kAdded := by
    intro f m d he hf
    obtain ⟨hfd, hd, hadd⟩ := hm f m d he
    have hdc : d ≠ c := by
      rintro rfl
      exact hf hfd.symm
    exact ⟨hdc, hfd, (hothers d hdc).mpr hd, hadd⟩
  split
  · next hi =>
    have hidx := around_setIndex (ctlUpdate { r with channels := update r.channels (r.chan c).fd none }
      .DEL c) c .kNew
    refine ⟨(herase.trans (around_ctlUpdate _ .DEL c)).trans hidx, ?_, ?_⟩
    · intro f m d he
      obtain ⟨he, hf⟩ := ctlUpdate_epoll_del he
      obtain ⟨hdc, hfd, hd, hadd⟩ := hrest f m d he hf
      exact ⟨(hidx.fd d).trans hfd, (hasChannel_setIndex c d .kNew).mpr hd,
        by simpa [setIndex, setChan, ctlUpdate, hdc] using hadd⟩
    · rw [hasChannel_setIndex]
      exact hgone
  · next hi =>
    have hidx := around_setIndex { r with channels := update r.channels (r.chan c).fd none } c .kNew
    refine ⟨herase.trans hidx, ?_, ?_⟩
    · intro f m d he
      have hf : f ≠ (r.chan c).fd := by
        rintro rfl
        obtain ⟨hfd, hd, hadd⟩ := hm _ m d he
        rw [HasChannel, hfd, hc] at hd
        obtain rfl := Option.some.inj hd
        exact hi hadd
      obtain ⟨hdc, hfd, hd, hadd⟩ := hrest f m d he hf
      exact ⟨(hidx.fd d).trans hfd, (hasChannel_setIndex c d .kNew).mpr hd,
        by simpa [setIndex, setChan, hdc] using hadd⟩
    · rw [hasChannel_setIndex]
      exact hgone

theorem remove_removed (hm : Mapped r) (h : r.remove c = .ok t) :
    r.Removable c ∧ Around c r t ∧ Mapped t ∧ ¬ t.HasChannel c := by
  let ch : Channel := { r.chan c with addedToLoop := false }
  simp only [remove, bind_check_eq_ok] at h
  obtain ⟨-, h⟩ := h
  have hset := around_setChan c ch rfl
  have hm' : Mapped (r.setChan c ch) := hm.setChan c ch rfl fun hi => hi
  unfold removeChannel at h
  split at h
  · rw [bind_check_eq_ok] at h
    obtain ⟨hr, h⟩ := h
    obtain ⟨hrem, h2, h3⟩ := pollerRemoveChannel_ok hm' h
    exact ⟨fun _ => hr, hset.trans hrem, h2, h3⟩
  · next hq =>
    obtain ⟨hrem, h2, h3⟩ := pollerRemoveChannel_ok hm' h
    exact ⟨fun hh => absurd hh hq, hset.trans hrem, h2, h3⟩

/-- The assertion of `EventLoop::removeChannel` fails only where it should. -/
theorem remove_ne_active (hr : r.Removable c) : r.remove c ≠ .error .removeActive := by
  intro h
  rw [remove, Assertion.bind_check_eq_error] at h
  rcases h with ⟨-, h⟩ | ⟨-, h⟩
  · cases h
  · simp only [removeChannel] at h
    split at h
    · next hh =>
      rw [Assertion.bind_check_eq_error] at h
      rcases h with ⟨hn, -⟩ | ⟨-, h⟩
      · exact hn (hr hh)
      · have := pollerRemoveChannel_error h
        simp at this
    · have := pollerRemoveChannel_error h
      simp at this

/-! ### Polling -/

omit [DecidableEq ι] in
theorem Mapped.report (h : Mapped r) {ev : Int × Mask} {p : Mask × ι}
    (he : r.epollReport ev = some p) : (r.chan p.2).fd = ev.1 ∧ r.HasChannel p.2 := by
  unfold epollReport at he
  cases hep : r.epoll ev.1 with
  | none => rw [hep] at he; cases he
  | some e =>
    obtain ⟨hfd, hd, -⟩ := h ev.1 e.1 e.2 hep
    rw [hep] at he
    simp only at he
    split at he
    · obtain rfl := Option.some.inj he
      exact ⟨hfd, hd⟩
    · cases he

omit [DecidableEq ι] in
/-- **The active channels** are in `channels_`, each once. -/
theorem Mapped.epollWait (h : Mapped r) {evs : List (Int × Mask)} {l : List (Mask × ι)}
    (hw : r.epollWait evs = some l) :
    (l.map Prod.snd).Nodup ∧ ∀ c ∈ l.map Prod.snd, r.HasChannel c := by
  refine ⟨nodup_of_epollWait (fun _ _ he => (h.report he).1) hw, ?_⟩
  intro c hc
  obtain ⟨p, hp, rfl⟩ := List.mem_map.mp hc
  unfold Reactor.epollWait at hw
  split at hw
  · obtain ⟨ev, -, he⟩ := mem_of_mapM_report hw p hp
    exact (h.report he).2
  · cases hw

omit [DecidableEq ι] in
theorem SameViews.hasChannel {r t : Reactor ι} (h : SameViews r t) (c : ι) :
    t.HasChannel c ↔ r.HasChannel c := by
  unfold HasChannel
  rw [h.channels, h.fd]

omit [DecidableEq ι] in
theorem SameViews.mapped {r t : Reactor ι} (h : SameViews r t) (hm : Mapped r) : Mapped t := by
  intro f m c he
  rw [h.epoll] at he
  obtain ⟨hfd, hc, hadd⟩ := hm f m c he
  exact ⟨(h.fd c).trans hfd, (h.hasChannel c).mpr hc, (h.index c).trans hadd⟩

end

end Reactor

end SimpleNet
