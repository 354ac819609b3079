import SimpleNet.Reactor.Basic

/-!
# The poller's three views

`channels_`, the kernel's interest set and the `index_` of each channel are updated
separately.  `Agree` says what they have in common, and under it every operation of a
channel has a closed form: `channelUpdate` is `setMask` and `remove` is `drop`, no
assertion fails and `epoll_ctl` returns `0`.

* `views_agree`: the views agree after every sequence of operations on channels with
  distinct fds, and every event of `epoll_wait` is for a channel of `channels_`.
* `interest_exact_iff`: the interest set is exactly the set of fds whose channel asks
  for something as long as no operation empties the mask of a channel that is not in
  the set; such an operation registers the fd with an empty mask.
-/

namespace SimpleNet

open Function (update Injective)

@[simp] theorem Assertion.check_of {a : Assertion} {p : Prop} [Decidable p] (h : p) :
    a.check p = .ok () := if_pos h

@[simp] theorem Assertion.check_of_not {a : Assertion} {p : Prop} [Decidable p] (h : ¬ p) :
    a.check p = .error a := if_neg h

theorem Assertion.bind_check_eq_error {a b : Assertion} {p : Prop} [Decidable p] {α : Type}
    {f : Unit → Except Assertion α} :
    (a.check p >>= f) = .error b ↔ ¬ p ∧ b = a ∨ p ∧ f () = .error b := by
  by_cases hp : p
  · simp [hp, bind, Except.bind]
  · simp [hp, bind, Except.bind, eq_comm]

namespace Reactor

variable {ι : Type} [DecidableEq ι]

/-- The poller's map, the interest set and the indices agree. -/
structure Agree (r : Reactor ι) : Prop where
  inj : Injective fun c => (r.chan c).fd
  channels_eq : ∀ c, r.channels (r.chan c).fd =
    if (r.chan c).index = .kNew then none else some c
  epoll_eq : ∀ c, r.epoll (r.chan c).fd =
    if (r.chan c).index = .kAdded then some ((r.chan c).events, c) else none
  stray : ∀ f, (∀ c, (r.chan c).fd ≠ f) → r.channels f = none ∧ r.epoll f = none

omit [DecidableEq ι] in
theorem agree_fresh {fd : ι → Int} (hfd : Injective fd) : Agree (fresh fd) where
  inj := hfd
  channels_eq _ := rfl
  epoll_eq _ := rfl
  stray _ _ := ⟨rfl, rfl⟩

/-- `r'` differs from `r` only in how events are dispatched. -/
structure SameViews (r r' : Reactor ι) : Prop where
  fd : ∀ d, (r'.chan d).fd = (r.chan d).fd
  events : ∀ d, (r'.chan d).events = (r.chan d).events
  index : ∀ d, (r'.chan d).index = (r.chan d).index
  addedToLoop : ∀ d, (r'.chan d).addedToLoop = (r.chan d).addedToLoop
  channels : r'.channels = r.channels
  epoll : r'.epoll = r.epoll

omit [DecidableEq ι] in
theorem SameViews.refl (r : Reactor ι) : SameViews r r :=
  ⟨fun _ => rfl, fun _ => rfl, fun _ => rfl, fun _ => rfl, rfl, rfl⟩

omit [DecidableEq ι] in
theorem SameViews.trans {r s t : Reactor ι} (h : SameViews r s) (g : SameViews s t) :
    SameViews r t where
  fd d := (g.fd d).trans (h.fd d)
  events d := (g.events d).trans (h.events d)
  index d := (g.index d).trans (h.index d)
  addedToLoop d := (g.addedToLoop d).trans (h.addedToLoop d)
  channels := g.channels.trans h.channels
  epoll := g.epoll.trans h.epoll

omit [DecidableEq ι] in
theorem SameViews.agree {r r' : Reactor ι} (hs : SameViews r r') (h : Agree r) : Agree r' where
  inj := by simpa only [hs.fd] using h.inj
  channels_eq c := by
    rw [hs.fd, hs.channels, hs.index]
    exact h.channels_eq c
  epoll_eq c := by
    rw [hs.fd, hs.epoll, hs.index, hs.events]
    exact h.epoll_eq c
  stray f hf := by
    rw [hs.channels, hs.epoll]
    exact h.stray f fun c => by simpa only [hs.fd] using hf c

/-- A write to a channel's dispatch fields. -/
theorem sameViews_setChan (r : Reactor ι) (c : ι) (ch : Channel) (hfd : ch.fd = (r.chan c).fd)
    (hev : ch.events = (r.chan c).events) (hidx : ch.index = (r.chan c).index)
    (hadd : ch.addedToLoop = (r.chan c).addedToLoop) : SameViews r (r.setChan c ch) := by
  have key : ∀ {δ : Type} (g : Channel → δ), g ch = g (r.chan c) →
      ∀ d, g ((r.setChan c ch).chan d) = g (r.chan d) := by
    intro δ g hg d
    by_cases hd : d = c
    · subst hd; simpa [setChan] using hg
    · simp [setChan, hd]
  exact ⟨key _ hfd, key _ hev, key _ hidx, key _ hadd, rfl, rfl⟩

/-- `fillActiveChannels` writes `revents_` and lists the channels. -/
theorem fillActiveChannels_same : ∀ {l : List (Mask × ι)} {r t : Reactor ι},
    r.fillActiveChannels l = .ok t →
      SameViews r t ∧ t.activeChannels = r.activeChannels ++ l.map Prod.snd ∧
        t.currentActiveChannel = r.currentActiveChannel := by
  intro l
  induction l with
  | nil =>
    intro r t h
    obtain rfl := Except.ok.inj h
    exact ⟨.refl _, by simp, rfl⟩
  | cons p l ih =>
    intro r t h
    obtain ⟨m, c⟩ := p
    simp only [fillActiveChannels, Assertion.check, bind, Except.bind] at h
    split at h
    · cases h
    split at h
    · cases h
    obtain ⟨h1, h2, h3⟩ := ih h
    have h0 := sameViews_setChan r c { r.chan c with revents := m } rfl rfl rfl rfl
    exact ⟨⟨fun d => (h1.fd d).trans (h0.fd d), fun d => (h1.events d).trans (h0.events d),
      fun d => (h1.index d).trans (h0.index d), fun d => (h1.addedToLoop d).trans (h0.addedToLoop d),
      h1.channels, h1.epoll⟩, by simpa [setChan] using h2, h3⟩

/-- A channel's `revents_` is what was reported for it. -/
theorem fillActiveChannels_revents (d : ι) : ∀ {l : List (Mask × ι)} {r t : Reactor ι},
    r.fillActiveChannels l = .ok t → ((t.chan d).revents, d) ∈ l ∨
      d ∉ l.map Prod.snd ∧ (t.chan d).revents = (r.chan d).revents := by
  intro l
  induction l with
  | nil =>
    intro r t h
    obtain rfl := Except.ok.inj h
    exact Or.inr ⟨List.not_mem_nil, rfl⟩
  | cons p l ih =>
    intro r t h
    obtain ⟨m, c⟩ := p
    simp only [fillActiveChannels, Assertion.check, bind, Except.bind] at h
    split at h
    · cases h
    split at h
    · cases h
    rcases ih h with hm | ⟨hm, he⟩
    · exact Or.inl (List.mem_cons_of_mem _ hm)
    by_cases hd : d = c
    · subst hd
      left
      rw [he]
      simp [setChan]
    · right
      rw [he]
      simpa [setChan, hd] using hm

/-! ### What an update does -/

/-- The index after an update with mask `m`. -/
def nextIndex (i : Index) (m : Mask) : Index :=
  if i = .kAdded ∧ m = kNoneEvent then .kDeleted else .kAdded

/-- The effect of `events_ = m; update();` when the views agree. -/
def setMask (r : Reactor ι) (c : ι) (m : Mask) : Reactor ι :=
  let i := nextIndex (r.chan c).index m
  { r with
    chan := update r.chan c { r.chan c with events := m, addedToLoop := true, index := i }
    channels := update r.channels (r.chan c).fd (some c)
    epoll := update r.epoll (r.chan c).fd (if i = .kAdded then some (m, c) else none)
    ctl := r.ctl ++ [0] }

/-- **An update does not fail**, and leaves the channel `kDeleted` when it empties the
mask of a `kAdded` channel and `kAdded` in all other cases. -/
theorem channelUpdate_eq {r : Reactor ι} (h : Agree r) (c : ι) (m : Mask) :
    r.channelUpdate c m = .ok (r.setMask c m) := by
  have hch := h.channels_eq c
  have hep := h.epoll_eq c
  cases hi : (r.chan c).index with
  | kNew =>
    simp only [hi, if_pos, reduceCtorEq, if_false] at hch hep
    simp [channelUpdate, pollerUpdateChannel, setChan, setIndex, ctlUpdate, epollCtl, setMask,
      nextIndex, hi, hch, hep, bind, Except.bind, pure, Except.pure]
  | kDeleted =>
    simp only [hi, reduceCtorEq, if_false] at hch hep
    simp [channelUpdate, pollerUpdateChannel, setChan, setIndex, ctlUpdate, epollCtl, setMask,
      nextIndex, hi, hch, hep, bind, Except.bind, pure, Except.pure]
  | kAdded =>
    simp only [hi, reduceCtorEq, if_false, if_true] at hch hep
    by_cases hm : m = kNoneEvent <;>
    simp [channelUpdate, pollerUpdateChannel, setChan, setIndex, ctlUpdate, epollCtl, setMask,
      nextIndex, hi, hch, hep, hm, Channel.isNoneEvent, bind, Except.bind, pure, Except.pure]

@[simp] theorem setMask_fd (r : Reactor ι) (c d : ι) (m : Mask) :
    ((r.setMask c m).chan d).fd = (r.chan d).fd := by
  by_cases hd : d = c
  · subst hd; simp [setMask]
  · simp [setMask, hd]

@[simp] theorem setMask_self (r : Reactor ι) (c : ι) (m : Mask) :
    (r.setMask c m).chan c =
      { r.chan c with events := m, addedToLoop := true, index := nextIndex (r.chan c).index m } := by
  simp [setMask]

theorem setMask_of_ne (r : Reactor ι) {c d : ι} (hd : d ≠ c) (m : Mask) :
    (r.setMask c m).chan d = r.chan d := by
  simp [setMask, hd]

theorem nextIndex_ne_kNew (i : Index) (m : Mask) : nextIndex i m ≠ .kNew := by
  unfold nextIndex
  split <;> simp

theorem agree_setMask {r : Reactor ι} (h : Agree r) (c : ι) (m : Mask) :
    Agree (r.setMask c m) where
  inj := by simpa using h.inj
  channels_eq d := by
    by_cases hd : d = c
    · subst hd
      rw [if_neg (by simpa using nextIndex_ne_kNew _ _), setMask_fd]
      simp [setMask]
    · have hfd : (r.chan d).fd ≠ (r.chan c).fd := fun he => hd (h.inj he)
      rw [setMask_fd, setMask_of_ne r hd]
      simpa [setMask, hfd] using h.channels_eq d
  epoll_eq d := by
    by_cases hd : d = c
    · subst hd
      rw [setMask_fd, setMask_self]
      simp [setMask]
    · have hfd : (r.chan d).fd ≠ (r.chan c).fd := fun he => hd (h.inj he)
      rw [setMask_fd, setMask_of_ne r hd]
      simpa [setMask, hfd] using h.epoll_eq d
  stray f hf := by
    have hf' : ∀ d, (r.chan d).fd ≠ f := by simpa using hf
    have hfc : f ≠ (r.chan c).fd := fun he => hf' c he.symm
    simpa [setMask, hfc] using h.stray f hf'

/-! ### What a removal does -/

/-- The assertion of `EventLoop::removeChannel` holds. -/
def Removable (r : Reactor ι) (c : ι) : Prop :=
  r.eventHandling = true → r.currentActiveChannel = some c ∨ c ∉ r.activeChannels

instance (r : Reactor ι) (c : ι) : Decidable (r.Removable c) :=
  inferInstanceAs (Decidable (_ → _))

/-- `remove()` passes all its assertions. -/
def CanRemove (r : Reactor ι) (c : ι) : Prop :=
  (r.chan c).events = kNoneEvent ∧ (r.chan c).index ≠ .kNew ∧ r.Removable c

instance (r : Reactor ι) (c : ι) : Decidable (r.CanRemove c) :=
  inferInstanceAs (Decidable (_ ∧ _ ∧ _))

/-- The effect of `remove()` when the views agree. -/
def drop (r : Reactor ι) (c : ι) : Reactor ι :=
  { r with
    chan := update r.chan c { r.chan c with addedToLoop := false, index := .kNew }
    channels := update r.channels (r.chan c).fd none
    epoll := update r.epoll (r.chan c).fd none
    ctl := if (r.chan c).index = .kAdded then r.ctl ++ [0] else r.ctl }

/-- **A removal does not fail** on a channel of `channels_` with an empty mask. -/
theorem remove_eq {r : Reactor ι} (h : Agree r) {c : ι} (hnone : (r.chan c).events = kNoneEvent)
    (hidx : (r.chan c).index ≠ .kNew) (hact : r.Removable c) : r.remove c = .ok (r.drop c) := by
  have hch := h.channels_eq c
  have hep := h.epoll_eq c
  rw [if_neg hidx] at hch
  have hpoller : (r.setChan c { r.chan c with addedToLoop := false }).pollerRemoveChannel c =
      .ok (r.drop c) := by
    cases hi : (r.chan c).index with
    | kNew => exact absurd hi hidx
    | kDeleted =>
      simp only [hi, reduceCtorEq, if_false] at hep
      have hset : update r.epoll (r.chan c).fd none = r.epoll := by
        rw [← hep, Function.update_eq_self]
      simp [pollerRemoveChannel, setChan, setIndex, drop, hi, hch, hnone, hset,
        Channel.isNoneEvent, bind, Except.bind, pure, Except.pure]
    | kAdded =>
      simp only [hi, if_true] at hep
      simp [pollerRemoveChannel, setChan, setIndex, drop, ctlUpdate, epollCtl, hi, hch, hep, hnone,
        Channel.isNoneEvent, bind, Except.bind, pure, Except.pure]
  unfold remove removeChannel
  rw [Assertion.check_of (by simp [Channel.isNoneEvent, hnone])]
  by_cases hh : r.eventHandling = true
  · have hact' := hact hh
    simpa [bind, Except.bind, setChan, hh, hact'] using hpoller
  · simpa [bind, Except.bind, setChan, hh] using hpoller

theorem remove_ok {r t : Reactor ι} {c : ι} (h : Agree r) (hr : r.remove c = .ok t) :
    (r.chan c).events = kNoneEvent ∧ (r.chan c).index ≠ .kNew ∧ r.Removable c ∧ t = r.drop c := by
  have hnone : (r.chan c).events = kNoneEvent := by
    by_contra hne
    rw [remove, Assertion.check_of_not (by simpa [Channel.isNoneEvent] using hne)] at hr
    cases hr
  have hact : r.Removable c := by
    intro hh
    by_contra hne
    rw [remove, Assertion.check_of (by simp [Channel.isNoneEvent, hnone])] at hr
    simp only [bind, Except.bind, removeChannel, setChan, hh, if_true,
      Assertion.check_of_not hne] at hr
    cases hr
  have hidx : (r.chan c).index ≠ .kNew := by
    intro hi
    have hch := h.channels_eq c
    rw [if_pos hi] at hch
    rw [remove, Assertion.check_of (by simp [Channel.isNoneEvent, hnone])] at hr
    by_cases hh : r.eventHandling = true
    · simp [bind, Except.bind, removeChannel, setChan, hh, hact hh, pollerRemoveChannel, hch] at hr
    · simp [bind, Except.bind, removeChannel, setChan, hh, pollerRemoveChannel, hch] at hr
  refine ⟨hnone, hidx, hact, ?_⟩
  rw [remove_eq h hnone hidx hact] at hr
  exact (Except.ok.inj hr).symm

@[simp] theorem drop_fd (r : Reactor ι) (c d : ι) : ((r.drop c).chan d).fd = (r.chan d).fd := by
  by_cases hd : d = c
  · subst hd; simp [drop]
  · simp [drop, hd]

@[simp] theorem drop_self (r : Reactor ι) (c : ι) :
    (r.drop c).chan c = { r.chan c with addedToLoop := false, index := .kNew } := by
  simp [drop]

theorem drop_of_ne (r : Reactor ι) {c d : ι} (hd : d ≠ c) : (r.drop c).chan d = r.chan d := by
  simp [drop, hd]

theorem agree_drop {r : Reactor ι} (h : Agree r) (c : ι) : Agree (r.drop c) where
  inj := by simpa using h.inj
  channels_eq d := by
    by_cases hd : d = c
    · subst hd
      rw [drop_fd, drop_self]
      simp [drop]
    · have hfd : (r.chan d).fd ≠ (r.chan c).fd := fun he => hd (h.inj he)
      rw [drop_fd, drop_of_ne r hd]
      simpa [drop, hfd] using h.channels_eq d
  epoll_eq d := by
    by_cases hd : d = c
    · subst hd
      rw [drop_fd, drop_self]
      simp [drop]
    · have hfd : (r.chan d).fd ≠ (r.chan c).fd := fun he => hd (h.inj he)
      rw [drop_fd, drop_of_ne r hd]
      simpa [drop, hfd] using h.epoll_eq d
  stray f hf := by
    have hf' : ∀ d, (r.chan d).fd ≠ f := by simpa using hf
    have hfc : f ≠ (r.chan c).fd := fun he => hf' c he.symm
    simpa [drop, hfc] using h.stray f hf'

/-! ### Changes of one channel -/

/-- How a step of the connection that owns the channel `c` may change the views. -/
inductive Change (c : ι) (r : Reactor ι) : Reactor ι → Prop
  | same {r'} (h : SameViews r r') : Change c r r'
  | mask (m : Mask) {r'} (h : SameViews r r') : Change c r (r'.setMask c m)
  | drop (h : r.CanRemove c) : Change c r (r.drop c)

theorem Change.agree {c : ι} {r r' : Reactor ι} (hc : Change c r r') (h : Agree r) : Agree r' := by
  cases hc with
  | same hs => exact hs.agree h
  | mask m hs => exact agree_setMask (hs.agree h) c m
  | drop _ => exact agree_drop h c

/-- A channel that asks for something is in the interest set. -/
def Masked (r : Reactor ι) (c : ι) : Prop :=
  (r.chan c).index ≠ .kAdded → (r.chan c).events = kNoneEvent

theorem masked_setMask (r : Reactor ι) (c : ι) (m : Mask) : Masked (r.setMask c m) c := by
  intro hi
  rw [setMask_self] at hi ⊢
  by_contra hm
  exact hi (if_neg fun h => hm h.2)

theorem Change.masked {c : ι} {r r' : Reactor ι} (hc : Change c r r') (h : Masked r c) :
    Masked r' c := by
  cases hc with
  | same hs =>
    unfold Masked
    rw [hs.index, hs.events]
    exact h
  | mask m hs => exact masked_setMask _ c m
  | drop hr =>
    intro _
    rw [drop_self]
    exact hr.1

/-! ### Sequences of operations -/

theorem exec_of_ne_remove (r : Reactor ι) (c : ι) {op : Op} (hop : op ≠ .remove) :
    r.exec c op = r.channelUpdate c (op.mask (r.chan c).events) := by
  cases op <;> first | rfl | exact absurd rfl hop

/-- **What an operation can do**, guards included. -/
theorem exec_ok {r t : Reactor ι} {c : ι} {op : Op} (h : Agree r) (he : r.exec c op = .ok t) :
    op ≠ .remove ∧ t = r.setMask c (op.mask (r.chan c).events) ∨
      op = .remove ∧ (r.chan c).events = kNoneEvent ∧ (r.chan c).index ≠ .kNew ∧
        t = r.drop c := by
  by_cases hop : op = .remove
  · subst hop
    obtain ⟨hnone, hidx, -, ht⟩ := remove_ok h he
    exact Or.inr ⟨rfl, hnone, hidx, ht⟩
  · rw [exec_of_ne_remove r c hop, channelUpdate_eq h] at he
    exact Or.inl ⟨hop, (Except.ok.inj he).symm⟩

theorem exec_eq_setMask {r : Reactor ι} (h : Agree r) (c : ι) {op : Op} (hop : op ≠ .remove) :
    r.exec c op = .ok (r.setMask c (op.mask (r.chan c).events)) := by
  rw [exec_of_ne_remove r c hop, channelUpdate_eq h]

theorem pollerRemoveChannel_error {r : Reactor ι} {c : ι} {a : Assertion}
    (h : r.pollerRemoveChannel c = .error a) :
    a ∈ [.present, .same, .pollerNone, .pollerIndex, .pollerErased] := by
  simp only [pollerRemoveChannel, Assertion.bind_check_eq_error, pure, Except.pure, reduceCtorEq,
    and_false, or_false] at h
  simp only [List.mem_cons, List.not_mem_nil, or_false]
  tauto

/-- Which assertions a removal may fail; that of `Channel::remove` only on a mask that is
not empty. -/
theorem remove_error {r : Reactor ι} {c : ι} {a : Assertion} (h : r.remove c = .error a) :
    (a = .removeNone ∧ (r.chan c).events ≠ kNoneEvent) ∨
      a ∈ [.removeActive, .present, .same, .pollerNone, .pollerIndex, .pollerErased] := by
  rw [remove, Assertion.bind_check_eq_error] at h
  rcases h with ⟨hnone, rfl⟩ | ⟨-, h⟩
  · exact Or.inl ⟨rfl, by simpa [Channel.isNoneEvent] using hnone⟩
  · right
    simp only [removeChannel] at h
    split at h
    · rw [Assertion.bind_check_eq_error] at h
      rcases h with ⟨-, rfl⟩ | ⟨-, h⟩
      · exact List.mem_cons_self
      · exact List.mem_cons_of_mem _ (pollerRemoveChannel_error h)
    · exact List.mem_cons_of_mem _ (pollerRemoveChannel_error h)

/-- A removal takes the channel out of the poller, or fails an assertion. -/
theorem remove_cases {r : Reactor ι} (h : Agree r) (c : ι) :
    (r.CanRemove c ∧ r.exec c .remove = .ok (r.drop c)) ∨
      ∃ a, ¬ r.CanRemove c ∧ r.exec c .remove = .error a ∧
        (a = .removeNone → (r.chan c).events ≠ kNoneEvent) ∧ a ≠ .handleClose := by
  by_cases hc : r.CanRemove c
  · exact Or.inl ⟨hc, remove_eq h hc.1 hc.2.1 hc.2.2⟩
  · right
    cases hr : r.remove c with
    | ok t =>
      obtain ⟨h1, h2, h3, -⟩ := remove_ok h hr
      exact absurd ⟨h1, h2, h3⟩ hc
    | error a =>
      refine ⟨a, hc, hr, ?_, ?_⟩
      · rintro rfl
        rcases remove_error hr with ⟨-, hne⟩ | hm
        · exact hne
        · simp at hm
      · rintro rfl
        rcases remove_error hr with ⟨he, -⟩ | hm
        · cases he
        · simp at hm

theorem agree_exec {r t : Reactor ι} {c : ι} {op : Op} (h : Agree r) (he : r.exec c op = .ok t) :
    Agree t := by
  rcases exec_ok h he with ⟨-, rfl⟩ | ⟨-, -, -, rfl⟩
  · exact agree_setMask h c _
  · exact agree_drop h c

/-- One operation on one channel; a failed assertion ends the process. -/
def opStep (r : Reactor ι) (p : ι × Op) : Option (Reactor ι) := (r.exec p.1 p.2).toOption

theorem opStep_eq_some {r t : Reactor ι} {p : ι × Op} :
    opStep r p = some t ↔ r.exec p.1 p.2 = .ok t := Steps.toOption_eq_some

/-- The states between operations: the views agree, no `epoll_ctl` has failed and no
event is being handled. -/
structure Idle (r : Reactor ι) : Prop where
  agree : Agree r
  ctl : ∀ x ∈ r.ctl, x = 0
  quiet : r.eventHandling = false

omit [DecidableEq ι] in
theorem idle_fresh {fd : ι → Int} (hfd : Injective fd) : Idle (fresh fd) where
  agree := agree_fresh hfd
  ctl x hx := by simp [fresh] at hx
  quiet := rfl

theorem idle_opStep {r t : Reactor ι} {p : ι × Op} (h : Idle r) (hs : opStep r p = some t) :
    Idle t := by
  have he := opStep_eq_some.mp hs
  refine ⟨agree_exec h.agree he, ?_, ?_⟩
  · rcases exec_ok h.agree he with ⟨-, rfl⟩ | ⟨-, -, -, rfl⟩
    · intro x hx
      rcases List.mem_append.mp hx with hx | hx
      · exact h.ctl x hx
      · exact List.mem_singleton.mp hx
    · intro x hx
      simp only [drop] at hx
      split at hx
      · rcases List.mem_append.mp hx with hx | hx
        · exact h.ctl x hx
        · exact List.mem_singleton.mp hx
      · exact h.ctl x hx
  · rcases exec_ok h.agree he with ⟨-, rfl⟩ | ⟨-, -, -, rfl⟩
    · exact h.quiet
    · exact h.quiet

theorem idle_run {fd : ι → Int} (hfd : Injective fd) {ops : List (ι × Op)} {r : Reactor ι}
    (hrun : Steps.run opStep (fresh fd) ops = some r) : Idle r :=
  Steps.run_invariant (fun _ _ _ h hs => idle_opStep h hs) (idle_fresh hfd) hrun

/-- The three views of one channel. -/
structure ViewsAgree (r : Reactor ι) (c : ι) : Prop where
  mapped : r.channels (r.chan c).fd = some c ↔ (r.chan c).index ≠ .kNew
  registered : (r.epoll (r.chan c).fd).isSome = true ↔ (r.chan c).index = .kAdded
  entry : ∀ m d, r.epoll (r.chan c).fd = some (m, d) → m = (r.chan c).events ∧ d = c

omit [DecidableEq ι] in
theorem viewsAgree_of_agree {r : Reactor ι} (h : Agree r) (c : ι) : ViewsAgree r c where
  mapped := by
    rw [h.channels_eq c]
    split
    · next hi => simp [hi]
    · next hi => simp [hi]
  registered := by
    rw [h.epoll_eq c]
    split
    · next hi => simp [hi]
    · next hi => simp [hi]
  entry m d he := by
    rw [h.epoll_eq c] at he
    split at he
    · simp only [Option.some.injEq, Prod.mk.injEq] at he
      exact ⟨he.1.symm, he.2.symm⟩
    · cases he

/-- What `remove()` asserts: nothing is asked for and the channel is in `channels_`. -/
def Permitted (r : Reactor ι) (c : ι) (op : Op) : Prop :=
  op = .remove → (r.chan c).isNoneEvent = true ∧ r.channels (r.chan c).fd = some c

theorem exec_of_permitted {r : Reactor ι} (h : Idle r) {c : ι} {op : Op}
    (hp : Permitted r c op) : ∃ t, r.exec c op = .ok t := by
  by_cases hop : op = .remove
  · subst hop
    obtain ⟨hnone, hmap⟩ := hp rfl
    have hidx := (viewsAgree_of_agree h.agree c).mapped.mp hmap
    have hact : r.Removable c := fun hh => by rw [h.quiet] at hh; cases hh
    exact ⟨r.drop c, remove_eq h.agree (by simpa [Channel.isNoneEvent] using hnone) hidx hact⟩
  · exact ⟨_, (exec_of_ne_remove r c hop).trans (channelUpdate_eq h.agree c _)⟩

omit [DecidableEq ι] in
/-- A reported event carries a channel of `channels_`. -/
theorem epollReport_mapped {r : Reactor ι} (h : Agree r) {ev : Int × Mask} {p : Mask × ι}
    (he : r.epollReport ev = some p) :
    (r.chan p.2).fd = ev.1 ∧ (r.chan p.2).index = .kAdded ∧
      Flags.Within p.1 ((r.chan p.2).events ||| POLLHUP ||| POLLERR) := by
  unfold epollReport at he
  cases hep : r.epoll ev.1 with
  | none => rw [hep] at he; cases he
  | some e =>
    obtain ⟨interest, d⟩ := e
    obtain ⟨c, hc⟩ : ∃ c, (r.chan c).fd = ev.1 := by
      by_contra hno
      have := (h.stray ev.1 (fun c hc => hno ⟨c, hc⟩)).2
      rw [hep] at this
      cases this
    have hv := viewsAgree_of_agree h c
    rw [hep] at he
    rw [← hc] at hep
    obtain ⟨rfl, rfl⟩ := hv.entry _ _ hep
    simp only at he
    split at he
    · next hw =>
      obtain rfl := Option.some.inj he
      exact ⟨hc, hv.registered.mp (by rw [hep]; rfl), hw⟩
    · cases he

omit [DecidableEq ι] in
theorem mem_of_mapM_report {r : Reactor ι} : ∀ {evs : List (Int × Mask)} {l : List (Mask × ι)},
    evs.mapM r.epollReport = some l → ∀ p ∈ l, ∃ ev ∈ evs, r.epollReport ev = some p := by
  intro evs
  induction evs with
  | nil =>
    intro l hl p hp
    simp only [List.mapM_nil, Option.pure_def, Option.some.injEq] at hl
    subst hl
    exact absurd hp (by simp)
  | cons ev evs ih =>
    intro l hl p hp
    simp only [List.mapM_cons, Option.bind_eq_bind, Option.bind_eq_some_iff, Option.pure_def,
      Option.some.injEq] at hl
    obtain ⟨q, hq, l', hl', rfl⟩ := hl
    rcases List.mem_cons.mp hp with rfl | hp
    · exact ⟨ev, List.mem_cons_self, hq⟩
    · obtain ⟨ev', hev', h⟩ := ih hl' p hp
      exact ⟨ev', List.mem_cons_of_mem _ hev', h⟩

omit [DecidableEq ι] in
/-- Every event of `epoll_wait` is for a `kAdded` channel and carries only flags that it
asked for, `POLLHUP` and `POLLERR`. -/
theorem epollWait_added {r : Reactor ι} (h : Agree r) {evs : List (Int × Mask)}
    {l : List (Mask × ι)} (hw : r.epollWait evs = some l) {p : Mask × ι} (hp : p ∈ l) :
    (r.chan p.2).index = .kAdded ∧
      Flags.Within p.1 ((r.chan p.2).events ||| POLLHUP ||| POLLERR) := by
  unfold epollWait at hw
  split at hw
  · obtain ⟨ev, -, he⟩ := mem_of_mapM_report hw p hp
    exact (epollReport_mapped h he).2
  · cases hw

omit [DecidableEq ι] in
theorem fds_of_mapM_report {r : Reactor ι}
    (h : ∀ ev p, r.epollReport ev = some p → (r.chan p.2).fd = ev.1) :
    ∀ {evs : List (Int × Mask)} {l : List (Mask × ι)}, evs.mapM r.epollReport = some l →
      (l.map Prod.snd).map (fun c => (r.chan c).fd) = evs.map Prod.fst := by
  intro evs
  induction evs with
  | nil =>
    intro l hl
    simp only [List.mapM_nil, Option.pure_def, Option.some.injEq] at hl
    simp [← hl]
  | cons ev evs ih =>
    intro l hl
    simp only [List.mapM_cons, Option.bind_eq_bind, Option.bind_eq_some_iff, Option.pure_def,
      Option.some.injEq] at hl
    obtain ⟨q, hq, l', hl', rfl⟩ := hl
    simp only [List.map_cons, ih hl', h ev q hq]

omit [DecidableEq ι] in
theorem nodup_of_epollWait {r : Reactor ι}
    (h : ∀ ev p, r.epollReport ev = some p → (r.chan p.2).fd = ev.1) {evs : List (Int × Mask)}
    {l : List (Mask × ι)} (hw : r.epollWait evs = some l) : (l.map Prod.snd).Nodup := by
  unfold epollWait at hw
  split at hw
  · next hn =>
    rw [← fds_of_mapM_report h hw] at hn
    exact (List.pairwise_map.mp hn).imp fun hne he => hne (by rw [he])
  · cases hw

omit [DecidableEq ι] in
/-- `epoll_wait` reports each channel once. -/
theorem epollWait_nodup {r : Reactor ι} (h : Agree r) {evs : List (Int × Mask)}
    {l : List (Mask × ι)} (hw : r.epollWait evs = some l) : (l.map Prod.snd).Nodup :=
  nodup_of_epollWait (fun _ _ he => (epollReport_mapped h he).1) hw

/-- `fillActiveChannels` passes when every reported channel is in `channels_`. -/
theorem fillActiveChannels_ok : ∀ {l : List (Mask × ι)} {r : Reactor ι},
    (∀ p ∈ l, r.channels (r.chan p.2).fd = some p.2) → ∃ t, r.fillActiveChannels l = .ok t := by
  intro l
  induction l with
  | nil => intro r _; exact ⟨r, rfl⟩
  | cons q l ih =>
    intro r h
    obtain ⟨m, c⟩ := q
    have hc := h (m, c) List.mem_cons_self
    simp only [fillActiveChannels, hc, ne_eq, reduceCtorEq, not_false_eq_true,
      Assertion.check_of, bind, Except.bind]
    apply ih
    intro p hp
    have hfd : ∀ d, ((r.setChan c { r.chan c with revents := m }).chan d).fd = (r.chan d).fd := by
      intro d
      by_cases hd : d = c
      · subst hd; simp [setChan]
      · simp [setChan, hd]
    rw [hfd]
    exact h p (List.mem_cons_of_mem _ hp)

/-- **The poller's three views agree** after every sequence of operations on channels
with distinct fds: for each channel the map, the interest set and the index say the same,
no `epoll_ctl` has failed, an operation whose own precondition holds fails no assertion,
and every event that `epoll_wait` may now return passes `fillActiveChannels` and is for a
channel of `channels_`. -/
theorem views_agree {fd : ι → Int} (hfd : Injective fd) {ops : List (ι × Op)} {r : Reactor ι}
    (hrun : Steps.run opStep (fresh fd) ops = some r) :
    (∀ c, ViewsAgree r c) ∧ (∀ x ∈ r.ctl, x = 0) ∧
      (∀ c op, Permitted r c op → ∃ t, r.exec c op = .ok t) ∧
      ∀ evs l, r.epollWait evs = some l → (∃ t, r.fillActiveChannels l = .ok t) ∧
        ∀ p ∈ l, r.channels (r.chan p.2).fd = some p.2 := by
  have h := idle_run hfd hrun
  refine ⟨viewsAgree_of_agree h.agree, h.ctl, fun c op hp => exec_of_permitted h hp, ?_⟩
  intro evs l hw
  have hmap : ∀ p ∈ l, r.channels (r.chan p.2).fd = some p.2 := by
    intro p hp
    have hadd := (epollWait_added h.agree hw hp).1
    exact (viewsAgree_of_agree h.agree p.2).mapped.mpr (by rw [hadd]; simp)
  exact ⟨fillActiveChannels_ok hmap, hmap⟩

/-- Two channels: one read, disabled and removed, the other written and disabled twice. -/
theorem views_agree_two : ∃ r,
    Steps.run opStep (fresh fun b : Bool => if b then 4 else 3)
      [(true, .enableReading), (false, .enableWriting), (true, .disableAll), (true, .remove),
        (false, .disableAll), (false, .disableAll)] = some r ∧
    (∀ c, ViewsAgree r c) ∧ (∀ x ∈ r.ctl, x = 0) ∧
      (∀ c op, Permitted r c op → ∃ t, r.exec c op = .ok t) ∧
      ∀ evs l, r.epollWait evs = some l → (∃ t, r.fillActiveChannels l = .ok t) ∧
        ∀ p ∈ l, r.channels (r.chan p.2).fd = some p.2 := by
  have hfd : Injective fun b : Bool => if b then (4 : Int) else 3 := by
    intro a b
    cases a <;> cases b <;> simp
  obtain ⟨r, hr⟩ := Option.isSome_iff_exists.mp (show (Steps.run opStep
    (fresh fun b : Bool => if b then 4 else 3)
      [(true, .enableReading), (false, .enableWriting), (true, .disableAll), (true, .remove),
        (false, .disableAll), (false, .disableAll)]).isSome = true by decide)
  exact ⟨r, hr, views_agree hfd hr⟩

/-! ### The interest set and what the channels ask for -/

/-- The interest set is exactly the set of fds of the channels in `channels_` that ask
for something; no fd is in it with an empty mask. -/
def InterestExact (r : Reactor ι) : Prop :=
  (∀ f, (r.epoll f).isSome = true ↔
    ∃ c, (r.chan c).fd = f ∧ r.channels f = some c ∧ (r.chan c).events ≠ kNoneEvent) ∧
  ∀ f m c, r.epoll f = some (m, c) → m ≠ kNoneEvent

/-- The operation asks for something, or it finds the channel in the interest set. -/
def Asks (r : Reactor ι) (c : ι) (op : Op) : Prop :=
  op = .remove ∨ op.mask (r.chan c).events ≠ kNoneEvent ∨ (r.chan c).index = .kAdded

omit [DecidableEq ι] in
theorem interestExact_iff {r : Reactor ι} (h : Agree r) : InterestExact r ↔
    ∀ c, (r.chan c).index = .kAdded ↔
      (r.chan c).index ≠ .kNew ∧ (r.chan c).events ≠ kNoneEvent := by
  have key : ∀ c, (r.epoll (r.chan c).fd).isSome = true ↔ (r.chan c).index = .kAdded :=
    fun c => (viewsAgree_of_agree h c).registered
  have hmap : ∀ c, r.channels (r.chan c).fd = some c ↔ (r.chan c).index ≠ .kNew :=
    fun c => (viewsAgree_of_agree h c).mapped
  constructor
  · rintro ⟨h1, -⟩ c
    rw [← key, h1, ← hmap]
    constructor
    · rintro ⟨d, hd, hm, he⟩
      obtain rfl := h.inj hd
      exact ⟨hm, he⟩
    · rintro ⟨hm, he⟩
      exact ⟨c, rfl, hm, he⟩
  · intro h1
    have entry : ∀ f m c, r.epoll f = some (m, c) →
        (r.chan c).fd = f ∧ m = (r.chan c).events ∧ (r.chan c).index = .kAdded := by
      intro f m c he
      obtain ⟨d, hd⟩ : ∃ d, (r.chan d).fd = f := by
        by_contra hno
        rw [(h.stray f fun d hd => hno ⟨d, hd⟩).2] at he
        cases he
      subst hd
      have hadd := (key d).mp (by rw [he]; rfl)
      obtain ⟨rfl, rfl⟩ := (viewsAgree_of_agree h d).entry m c he
      exact ⟨rfl, rfl, hadd⟩
    refine ⟨fun f => ⟨?_, ?_⟩, ?_⟩
    · intro hf
      obtain ⟨⟨m, c⟩, he⟩ := Option.isSome_iff_exists.mp hf
      obtain ⟨rfl, -, hadd⟩ := entry f m c he
      exact ⟨c, rfl, (hmap c).mpr ((h1 c).mp hadd).1, ((h1 c).mp hadd).2⟩
    · rintro ⟨c, rfl, hm, he⟩
      exact (key c).mpr ((h1 c).mpr ⟨(hmap c).mp hm, he⟩)
    · intro f m c he
      obtain ⟨-, rfl, hadd⟩ := entry f m c he
      exact ((h1 c).mp hadd).2

theorem interestExact_opStep {r t : Reactor ι} {p : ι × Op} (h : Idle r) (hex : InterestExact r)
    (hs : opStep r p = some t) : InterestExact t ↔ Asks r p.1 p.2 := by
  obtain ⟨c, op⟩ := p
  have ht := (idle_opStep h hs).agree
  have hr := (interestExact_iff h.agree).mp hex
  rw [interestExact_iff ht]
  rcases exec_ok h.agree (opStep_eq_some.mp hs) with ⟨hop, rfl⟩ | ⟨rfl, -, -, rfl⟩
  · have hself : ((r.setMask c (op.mask (r.chan c).events)).chan c).index = .kAdded ↔
        ¬ ((r.chan c).index = .kAdded ∧ op.mask (r.chan c).events = kNoneEvent) := by
      rw [setMask_self]
      simp only [nextIndex]
      split
      · next hi => simp [hi]
      · next hi => simp [hi]
    constructor
    · intro h1
      have hc := h1 c
      rw [hself] at hc
      simp only [setMask_self, ne_eq, nextIndex_ne_kNew, not_false_eq_true, true_and] at hc
      unfold Asks
      tauto
    · intro hask d
      by_cases hd : d = c
      · subst hd
        rw [hself]
        simp only [setMask_self, ne_eq, nextIndex_ne_kNew, not_false_eq_true, true_and]
        unfold Asks at hask
        tauto
      · rw [setMask_of_ne r hd]
        exact hr d
  · refine iff_of_true ?_ (Or.inl rfl)
    intro d
    by_cases hd : d = c
    · subst hd
      simp
    · rw [drop_of_ne r hd]
      exact hr d

/-- **When the interest set is exact.**  Along any sequence of operations, the interest
set stays the set of the channels that ask for something if and only if no operation
empties the mask of a channel that is not in the set. -/
theorem interest_exact_iff {fd : ι → Int} (hfd : Injective fd) (ops : List (ι × Op)) :
    Steps.Always opStep (fun _ _ t => InterestExact t) (fresh fd) ops ↔
      Steps.Always opStep (fun r p _ => Asks r p.1 p.2) (fresh fd) ops := by
  refine Steps.always_congr (I := fun r => Idle r ∧ InterestExact r) ?_ ?_ ?_
  · rintro r p t ⟨h, hex⟩ hs
    exact interestExact_opStep h hex hs
  · rintro r p t ⟨h, hex⟩ hs hask
    exact ⟨idle_opStep h hs, (interestExact_opStep h hex hs).mpr hask⟩
  · refine ⟨idle_fresh hfd, (interestExact_iff (agree_fresh hfd)).mpr ?_⟩
    intro c
    simp [fresh, Channel.new]

/-- Reading is paused while output is pending: no mask is emptied. -/
theorem interest_exact_iff_pause :
    Steps.Always opStep (fun _ _ t => InterestExact t) (fresh fun _ : Unit => 5)
      [((), .enableReading), ((), .enableWriting), ((), .disableReading)] := by
  apply (interest_exact_iff (fun _ _ _ => rfl) _).mpr
  intro r1 h1
  obtain rfl := Option.some.inj h1
  refine ⟨Or.inr (Or.inl (by decide)), ?_⟩
  intro r2 h2
  obtain rfl := Option.some.inj h2
  refine ⟨Or.inr (Or.inl (by decide)), ?_⟩
  intro r3 h3
  exact ⟨Or.inr (Or.inl (by decide)), trivial⟩

/-- Reading stopped, then `disableAll`: the second operation finds the channel `kDeleted`
and adds the fd with an empty mask. -/
theorem disableAll_adds_empty_mask : ∃ r,
    Steps.run opStep (fresh fun _ : Unit => 5)
      [((), .enableReading), ((), .disableReading), ((), .disableAll)] = some r ∧
    r.epoll 5 = some (kNoneEvent, ()) ∧ ¬ InterestExact r := by
  obtain ⟨r, hr⟩ := Option.isSome_iff_exists.mp (show (Steps.run opStep
    (fresh fun _ : Unit => 5)
      [((), .enableReading), ((), .disableReading), ((), .disableAll)]).isSome = true by decide)
  have hep : (Steps.run opStep (fresh fun _ : Unit => 5)
      [((), .enableReading), ((), .disableReading), ((), .disableAll)]).map (fun r => r.epoll 5) =
        some (some (kNoneEvent, ())) := by decide
  rw [hr] at hep
  have hr5 : r.epoll 5 = some (kNoneEvent, ()) := Option.some.inj hep
  exact ⟨r, hr, hr5, fun hex => hex.2 5 _ _ hr5 rfl⟩

end Reactor

end SimpleNet
