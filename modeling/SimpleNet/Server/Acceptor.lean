import SimpleNet.Lib.Run
import SimpleNet.Lib.Slots
import Mathlib.Data.Fin.VecNotation

/-!
# The acceptor when descriptors run out

`Acceptor::handleRead` over the descriptor table of the process.  When `accept` fails with
`EMFILE` the reserve descriptor is closed, a connection is accepted in its place and closed, and
the reserve is opened again: by a relative path, where the constructor has an absolute one.

`reserve_kept`: as long as that path resolves when the reserve is opened again, the reserve
descriptor is there at every `handleRead`, and each `EMFILE` gets rid of one connection.
-/

namespace SimpleNet

/-- The `errno` of an `accept` that fails. -/
inductive AcceptErrno
  | EAGAIN
  | EMFILE
  | other
  deriving DecidableEq

/-- What a descriptor is of. -/
inductive File
  | listening
  | null
  | connection (c : Nat)
  | other
  deriving DecidableEq

def File.conn : File → Option Nat
  | .connection c => some c
  | _ => none

structure Path where
  absolute : Bool
  names : List String

def Path.resolve (cwd : List String) (p : Path) : List String :=
  if p.absolute then p.names else cwd ++ p.names

/-- The files that can be opened for reading. -/
structure Files where
  openable : List String → Bool
  null : openable ["dev", "null"] = true

/-- What `accept` returns. -/
inductive Accepted
  | connfd (fd : Nat)
  | errno (e : AcceptErrno)
  deriving DecidableEq

def Accepted.fd : Accepted → Int
  | .connfd fd => fd
  | .errno _ => -1

/-- What else happens in the process and on the network. -/
inductive Other
  | opens
  | closes (fd : Nat)
  | connect (c : Nat)
  /-- a connection that waits is gone -/
  | reset (c : Nat)
  | chdir (dir : List String)
  deriving DecidableEq

def Other.pending (cs : List Nat) : Other → List Nat
  | .connect c => cs ++ [c]
  | .reset c => cs.erase c
  | _ => cs

def Other.cwd (cwd : List String) : Other → List String
  | .chdir dir => dir
  | _ => cwd

structure Acceptor where
  slots : Slots File
  /-- the connections that wait to be accepted -/
  pending : List Nat
  cwd : List String
  idleFd : Int
  newConnectionCallback : Bool
  /-- the connections that the acceptor has closed -/
  closed : List Nat

namespace Acceptor

/-- `open` of a path for reading. -/
def openFile (files : Files) (s : Acceptor) (path : Path) : Acceptor × Int :=
  if files.openable (path.resolve s.cwd) then
    match s.slots.lowest with
    | some fd => ({ s with slots := s.slots.set fd .null }, fd)
    | none => (s, -1)
  else (s, -1)

def close (s : Acceptor) (fd : Int) : Acceptor :=
  match fd with
  | .ofNat n =>
    match s.slots.get n with
    | some f => { s with slots := s.slots.free n, closed := s.closed ++ f.conn.toList }
    | none => s
  | .negSucc _ => s

/-- `accept`; `error` is what goes wrong where a descriptor is free. -/
def accept (s : Acceptor) (error : Option AcceptErrno) : Acceptor × Accepted :=
  match s.slots.lowest with
  | none => (s, .errno .EMFILE)
  | some fd =>
    match error, s.pending with
    | some e, _ => (s, .errno e)
    | none, [] => (s, .errno .EAGAIN)
    | none, c :: cs => ({ s with slots := s.slots.set fd (.connection c), pending := cs }, .connfd fd)

/-- The descriptors of the acceptor are its own. -/
def other (s : Acceptor) : Other → Acceptor
  | .opens =>
    match s.slots.lowest with
    | some fd => { s with slots := s.slots.set fd .other }
    | none => s
  | .closes fd =>
    if (fd : Int) = s.idleFd ∨ s.slots.get fd = some .listening then s
    else { s with slots := s.slots.free fd }
  | .connect c => { s with pending := s.pending ++ [c] }
  | .reset c => { s with pending := s.pending.erase c }
  | .chdir dir => { s with cwd := dir }

def others (s : Acceptor) (os : List Other) : Acceptor := os.foldl other s

/-- The constructor, in a process with descriptors of its own; `none` when its assertion fails. -/
def new (files : Files) (slots : Slots File) (pending : List Nat) (cwd : List String) :
    Option Acceptor :=
  match slots.lowest with
  | none => none
  | some fd =>
    let s : Acceptor := ⟨slots.set fd .listening, pending, cwd, -1, false, []⟩
    let (s, idleFd) := s.openFile files ⟨true, ["dev", "null"]⟩
    if 0 ≤ idleFd then some { s with idleFd := idleFd } else none

/-- `gap` is what else happens after each of the system calls that follow `EMFILE`. -/
def handleRead (files : Files) (s : Acceptor) (error : Option AcceptErrno) (gap : Fin 3 → List Other) :
    Acceptor :=
  match s.accept error with
  | (s, .connfd connfd) =>
    -- the callback has the descriptor from here on
    if s.newConnectionCallback then s else s.close connfd
  | (s, .errno e) =>
    if e = .EMFILE then
      let s := (s.close s.idleFd).others (gap 0)
      let (s, r) := s.accept none
      let s := { s with idleFd := r.fd }.others (gap 1)
      let s := (s.close s.idleFd).others (gap 2)
      let (s, idleFd) := s.openFile files ⟨false, ["dev", "null"]⟩
      { s with idleFd := idleFd }
    else s

inductive Act
  | setNewConnectionCallback (set : Bool)
  | handleRead (error : Option AcceptErrno) (gap : Fin 3 → List Other)
  | other (o : Other)

/-- No other code takes the descriptor that a `handleRead` has freed. -/
def step (files : Files) (s : Acceptor) : Act → Option Acceptor
  | .setNewConnectionCallback set => some { s with newConnectionCallback := set }
  | .handleRead error gap =>
    if ∀ k, .opens ∉ gap k then some (s.handleRead files error gap) else none
  | .other o => some (s.other o)

/-- The reserve descriptor is open. -/
def Reserved (s : Acceptor) : Prop :=
  ∃ fd : Nat, s.idleFd = fd ∧ fd < s.slots.limit ∧ s.slots.get fd = some .null

/-- The connections that still wait after `EMFILE`, when the reserve has been given up. -/
def stillPending (s : Acceptor) (gap : Fin 3 → List Other) : List Nat :=
  (gap 0).foldl Other.pending s.pending

/-- Where the process is when the reserve is opened again. -/
def cwdThen (s : Acceptor) (gap : Fin 3 → List Other) : List String :=
  (gap 2).foldl Other.cwd ((gap 1).foldl Other.cwd ((gap 0).foldl Other.cwd s.cwd))

/-- At an `EMFILE` the relative path resolves when the reserve is opened again. -/
def Resolves (files : Files) (s : Acceptor) : Act → Prop
  | .handleRead error gap => (s.accept error).2 = .errno .EMFILE →
      files.openable (s.cwdThen gap ++ ["dev", "null"]) = true
  | _ => True

instance (files : Files) (s : Acceptor) : (c : Act) → Decidable (Resolves files s c)
  | .handleRead error _ => inferInstanceAs (Decidable ((s.accept error).2 = .errno .EMFILE → _))
  | .setNewConnectionCallback _ | .other _ => .isTrue trivial

/-- `handleRead` from `s` to `t` has made room for one connection, accepted and closed it. -/
structure Exchanged (s : Acceptor) (gap : Fin 3 → List Other) (t : Acceptor) : Prop where
  freed : ∃ fd, (s.close s.idleFd).slots.lowest = some fd
  closed : t.closed = s.closed ++ (s.stillPending gap).head?.toList
  pending : t.pending =
    (gap 2).foldl Other.pending ((gap 1).foldl Other.pending (s.stillPending gap).tail)

section

variable {files : Files} {s t : Acceptor} {fd : Nat}

/-! ### What else happens -/

/-- What other code leaves alone while it opens nothing. -/
structure Kept (s t : Acceptor) : Prop where
  idleFd : t.idleFd = s.idleFd
  limit : t.slots.limit = s.slots.limit
  closed : t.closed = s.closed
  idle : ∀ n : Nat, (n : Int) = s.idleFd → t.slots.get n = s.slots.get n
  free : (∃ i, s.slots.lowest = some i) → ∃ i, t.slots.lowest = some i

theorem kept_other {o : Other} (ho : o ≠ .opens) : Kept s (s.other o) := by
  cases o with
  | opens => exact absurd rfl ho
  | closes n =>
    simp only [other]
    split
    · exact ⟨rfl, rfl, rfl, fun _ _ => rfl, id⟩
    · next hn =>
      refine ⟨rfl, rfl, rfl, ?_, fun h => Slots.exists_lowest_of_free h n⟩
      intro m hm
      refine Slots.get_free_of_ne ?_
      rintro rfl
      exact hn (Or.inl hm)
  | connect c => exact ⟨rfl, rfl, rfl, fun _ _ => rfl, id⟩
  | reset c => exact ⟨rfl, rfl, rfl, fun _ _ => rfl, id⟩
  | chdir dir => exact ⟨rfl, rfl, rfl, fun _ _ => rfl, id⟩

theorem kept_others : ∀ {os : List Other} {s : Acceptor}, .opens ∉ os → Kept s (s.others os) := by
  intro os
  induction os with
  | nil =>
    intro s _
    exact ⟨rfl, rfl, rfl, fun _ _ => rfl, id⟩
  | cons o os ih =>
    intro s ho
    rw [List.mem_cons, not_or] at ho
    have h := kept_other (s := s) (Ne.symm ho.1)
    have g := ih (s := s.other o) ho.2
    refine ⟨g.idleFd.trans h.idleFd, g.limit.trans h.limit, g.closed.trans h.closed, ?_,
      fun hf => g.free (h.free hf)⟩
    intro n hn
    exact (g.idle n (hn.trans h.idleFd.symm)).trans (h.idle n hn)

@[simp] theorem pending_others (s : Acceptor) (os : List Other) :
    (s.others os).pending = os.foldl Other.pending s.pending := by
  refine (List.foldl_hom Acceptor.pending fun u o => ?_).symm
  cases o <;> simp only [other, Other.pending] <;> split <;> rfl

@[simp] theorem cwd_others (s : Acceptor) (os : List Other) :
    (s.others os).cwd = os.foldl Other.cwd s.cwd := by
  refine (List.foldl_hom Acceptor.cwd fun u o => ?_).symm
  cases o <;> simp only [other, Other.cwd] <;> split <;> rfl

/-! ### The system calls -/

theorem close_of_get {f : File} (h : s.slots.get fd = some f) :
    s.close fd = { s with slots := s.slots.free fd, closed := s.closed ++ f.conn.toList } := by
  show (match s.slots.get fd with | some f => _ | none => s) = _
  rw [h]

theorem accept_errno {error : Option AcceptErrno} {e : AcceptErrno} (h : (s.accept error).2 = .errno e) :
    (s.accept error).1 = s := by
  unfold accept at h ⊢
  split
  · rfl
  · next hl =>
    simp only [hl] at h
    split
    · rfl
    · rfl
    · next hp =>
      simp only [hp] at h
      cases h

theorem openFile_of_openable (path : Path) (h : files.openable (path.resolve s.cwd) = true)
    (hl : s.slots.lowest = some fd) :
    s.openFile files path = ({ s with slots := s.slots.set fd .null }, (fd : Int)) := by
  rw [openFile, if_pos h, hl]

theorem openFile_of_not (path : Path) (h : files.openable (path.resolve s.cwd) ≠ true) :
    s.openFile files path = (s, -1) := if_neg h

/-- One connection is accepted where a descriptor is free, and closed. -/
theorem dropOne {os os' : List Other} (hfree : ∃ i, s.slots.lowest = some i) (ho : .opens ∉ os)
    (ho' : .opens ∉ os')
    (ht : t = { (s.accept none).1 with idleFd := (s.accept none).2.fd }.others os)
    {u : Acceptor} (hu : u = (t.close t.idleFd).others os') :
    (∃ i, u.slots.lowest = some i) ∧ u.closed = s.closed ++ s.pending.head?.toList ∧
      u.pending = os'.foldl Other.pending (os.foldl Other.pending s.pending.tail) ∧
      u.cwd = os'.foldl Other.cwd (os.foldl Other.cwd s.cwd) := by
  obtain ⟨n, hn⟩ := hfree
  cases hp : s.pending with
  | nil =>
    have hacc : s.accept none = (s, .errno .EAGAIN) := by
      unfold accept
      rw [hn]
      simp only [hp]
    rw [hacc] at ht
    change t = others { s with idleFd := -1 } os at ht
    have hkept := kept_others (s := { s with idleFd := -1 }) ho
    rw [← ht] at hkept
    have hclose : t.close t.idleFd = t := by
      rw [hkept.idleFd]
      rfl
    rw [hclose] at hu
    have hkept' := kept_others (s := t) ho'
    rw [← hu] at hkept'
    refine ⟨hkept'.free (hkept.free ⟨n, hn⟩), ?_, ?_, ?_⟩
    · rw [hkept'.closed, hkept.closed]
      exact (List.append_nil _).symm
    · rw [hu, pending_others, ht, pending_others, hp]
      rfl
    · rw [hu, cwd_others, ht, cwd_others]
  | cons c cs =>
    have hacc : s.accept none =
        ({ s with slots := s.slots.set n (.connection c), pending := cs }, .connfd n) := by
      unfold accept
      rw [hn]
      simp only [hp]
    rw [hacc] at ht
    have hkept := kept_others (s := { s with
      slots := s.slots.set n (.connection c), pending := cs, idleFd := n }) ho
    change t = others { s with
      slots := s.slots.set n (.connection c), pending := cs, idleFd := n } os at ht
    rw [← ht] at hkept
    have hget : t.slots.get n = some (.connection c) := (hkept.idle n rfl).trans Slots.get_set_self
    have hclose : t.close t.idleFd =
        { t with slots := t.slots.free n, closed := t.closed ++ [c] } :=
      (congrArg t.close hkept.idleFd).trans (close_of_get hget)
    rw [hclose] at hu
    have hkept' := kept_others
      (s := { t with slots := t.slots.free n, closed := t.closed ++ [c] }) ho'
    rw [← hu] at hkept'
    have hlt : n < t.slots.limit := by
      rw [hkept.limit]
      exact (Slots.lowest_lt hn).1
    refine ⟨hkept'.free (Slots.exists_lowest_free hlt), ?_, ?_, ?_⟩
    · rw [hkept'.closed, hkept.closed]
      rfl
    · rw [hu, pending_others, ht, pending_others]
      rfl
    · rw [hu, cwd_others, ht, cwd_others]

/-! ### The reserve -/

/-- `handleRead` after an `EMFILE`, up to the last system call. -/
def makeRoom (s : Acceptor) (gap : Fin 3 → List Other) : Acceptor :=
  let s := (s.close s.idleFd).others (gap 0)
  let (s, r) := s.accept none
  let s := { s with idleFd := r.fd }.others (gap 1)
  (s.close s.idleFd).others (gap 2)

theorem handleRead_of_exhausted {error : Option AcceptErrno} {gap : Fin 3 → List Other}
    (he : (s.accept error).2 = .errno .EMFILE) :
    s.handleRead files error gap =
      let (t, idleFd) := (s.makeRoom gap).openFile files ⟨false, ["dev", "null"]⟩
      { t with idleFd := idleFd } := by
  have hsplit : s.accept error = (s, .errno .EMFILE) := Prod.ext (accept_errno he) he
  rw [handleRead, hsplit]
  rfl

theorem makeRoom_spec {gap : Fin 3 → List Other} (hr : Reserved s) (hgap : ∀ k, .opens ∉ gap k) :
    Exchanged s gap (s.makeRoom gap) ∧ (∃ fd, (s.makeRoom gap).slots.lowest = some fd) ∧
      (s.makeRoom gap).cwd = s.cwdThen gap := by
  obtain ⟨n, hn, hlt, hget⟩ := hr
  have hclose : s.close s.idleFd = { s with slots := s.slots.free n } := by
    refine ((congrArg s.close hn).trans (close_of_get hget)).trans ?_
    exact congrArg (fun l => { s with slots := s.slots.free n, closed := l }) (List.append_nil _)
  have hfreed : ∃ fd, (s.close s.idleFd).slots.lowest = some fd := by
    rw [hclose]
    exact Slots.exists_lowest_free hlt
  have hkept := kept_others (s := s.close s.idleFd) (hgap 0)
  have hpend : ((s.close s.idleFd).others (gap 0)).pending = s.stillPending gap := by
    rw [pending_others, hclose]
    rfl
  have hcwd : ((s.close s.idleFd).others (gap 0)).cwd = (gap 0).foldl Other.cwd s.cwd := by
    rw [cwd_others, hclose]
  have hclosed : ((s.close s.idleFd).others (gap 0)).closed = s.closed := by
    rw [hkept.closed, hclose]
  obtain ⟨hroom, hc, hp, hd⟩ := dropOne (u := s.makeRoom gap) (hkept.free hfreed) (hgap 1) (hgap 2)
    rfl rfl
  rw [hclosed, hpend] at hc
  rw [hpend] at hp
  rw [hcwd] at hd
  exact ⟨⟨hfreed, hc, hp⟩, hroom, hd⟩

/-- After an `EMFILE`. -/
theorem exchanged_of_exhausted {error : Option AcceptErrno} {gap : Fin 3 → List Other} (hr : Reserved s)
    (hgap : ∀ k, .opens ∉ gap k) (he : (s.accept error).2 = .errno .EMFILE) :
    Exchanged s gap (s.handleRead files error gap) ∧
      (Reserved (s.handleRead files error gap) ↔
        files.openable (s.cwdThen gap ++ ["dev", "null"]) = true) := by
  obtain ⟨hroom, ⟨fd, hfd⟩, hcwd⟩ := makeRoom_spec hr hgap
  rw [handleRead_of_exhausted he, ← hcwd]
  by_cases hres : files.openable ((s.makeRoom gap).cwd ++ ["dev", "null"]) = true
  · rw [openFile_of_openable ⟨false, ["dev", "null"]⟩ hres hfd]
    refine ⟨⟨hroom.freed, hroom.closed, hroom.pending⟩, fun _ => hres, fun _ => ?_⟩
    exact ⟨fd, rfl, (Slots.lowest_lt hfd).1, Slots.get_set_self⟩
  · rw [openFile_of_not ⟨false, ["dev", "null"]⟩ hres]
    refine ⟨⟨hroom.freed, hroom.closed, hroom.pending⟩, ?_, fun h => absurd h hres⟩
    rintro ⟨m, hm, -⟩
    cases hm

/-- A descriptor of the acceptor is not handed out again. -/
theorem reserved_accept {error : Option AcceptErrno} {u : Acceptor} (hr : Reserved s)
    (h : s.accept error = (u, .connfd fd)) :
    Reserved u ∧ (fd : Int) ≠ u.idleFd := by
  obtain ⟨n, hn, hlt, hget⟩ := hr
  unfold accept at h
  split at h
  · cases h
  · next m hm =>
    split at h
    · cases h
    · cases h
    · obtain ⟨rfl, hfd⟩ := Prod.mk.inj h
      obtain rfl := Accepted.connfd.inj hfd
      have hne : n ≠ m := by
        rintro rfl
        rw [(Slots.lowest_lt hm).2] at hget
        cases hget
      refine ⟨⟨n, hn, hlt, (Slots.get_set_of_ne hne).trans hget⟩, ?_⟩
      show (m : Int) ≠ s.idleFd
      rw [hn]
      exact fun he => hne (Int.ofNat.inj he).symm

theorem reserved_close (hr : Reserved s) (hfd : (fd : Int) ≠ s.idleFd) : Reserved (s.close fd) := by
  obtain ⟨n, hn, hlt, hget⟩ := hr
  cases hf : s.slots.get fd with
  | none =>
    have hclose : s.close fd = s := by
      show (match s.slots.get fd with | some f => _ | none => s) = _
      rw [hf]
    rw [hclose]
    exact ⟨n, hn, hlt, hget⟩
  | some f =>
    rw [close_of_get hf]
    refine ⟨n, hn, hlt, (Slots.get_free_of_ne ?_).trans hget⟩
    rintro rfl
    exact hfd hn.symm

theorem reserved_other (hr : Reserved s) (o : Other) : Reserved (s.other o) := by
  obtain ⟨n, hn, hlt, hget⟩ := hr
  by_cases ho : o = .opens
  · subst ho
    simp only [other]
    split
    · next m hm =>
      refine ⟨n, hn, hlt, (Slots.get_set_of_ne ?_).trans hget⟩
      rintro rfl
      rw [(Slots.lowest_lt hm).2] at hget
      cases hget
    · exact ⟨n, hn, hlt, hget⟩
  · have hkept := kept_other (s := s) ho
    exact ⟨n, hkept.idleFd.trans hn, hkept.limit ▸ hlt, (hkept.idle n hn.symm).trans hget⟩

theorem reserved_handleRead {error : Option AcceptErrno} {gap : Fin 3 → List Other} (hr : Reserved s)
    (hgap : ∀ k, .opens ∉ gap k) (hok : Resolves files s (.handleRead error gap)) :
    Reserved (s.handleRead files error gap) := by
  cases hacc : s.accept error with
  | mk u r =>
    cases r with
    | connfd fd =>
      obtain ⟨hu, hfd⟩ := reserved_accept hr hacc
      rw [handleRead, hacc]
      simp only
      split
      · exact hu
      · exact reserved_close hu hfd
    | errno e =>
      by_cases he : e = .EMFILE
      · subst he
        have he : (s.accept error).2 = .errno .EMFILE := by rw [hacc]
        exact (exchanged_of_exhausted hr hgap he).2.mpr (hok he)
      · have hu : u = s := by
          have he' : (s.accept error).2 = .errno e := by rw [hacc]
          have := accept_errno he'
          rwa [hacc] at this
        rw [handleRead, hacc]
        simp only [if_neg he]
        exact hu ▸ hr

theorem reserved_step {c : Act} (hr : Reserved s) (hok : Resolves files s c)
    (hst : step files s c = some t) : Reserved t := by
  cases c with
  | setNewConnectionCallback set =>
    obtain rfl := Option.some.inj hst
    exact hr
  | handleRead error gap =>
    simp only [step, Option.ite_none_right_eq_some, Option.some.injEq] at hst
    obtain ⟨hgap, rfl⟩ := hst
    exact reserved_handleRead hr hgap hok
  | other o =>
    obtain rfl := Option.some.inj hst
    exact reserved_other hr o

theorem reserved_new {slots : Slots File} {pending : List Nat} {cwd : List String}
    (h : new files slots pending cwd = some s) : Reserved s := by
  unfold new at h
  split at h
  · cases h
  · next m hm =>
    generalize (⟨slots.set m .listening, pending, cwd, -1, false, []⟩ : Acceptor) = u at h
    have hopenable : files.openable (Path.resolve u.cwd ⟨true, ["dev", "null"]⟩) = true := files.null
    cases hl : u.slots.lowest with
    | some fd =>
      simp only [openFile_of_openable (s := u) ⟨true, ["dev", "null"]⟩ hopenable hl] at h
      simp only [Option.ite_none_right_eq_some, Option.some.injEq] at h
      obtain ⟨-, rfl⟩ := h
      exact ⟨fd, rfl, (Slots.lowest_lt hl).1, Slots.get_set_self⟩
    | none =>
      have hfail : u.openFile files ⟨true, ["dev", "null"]⟩ = (u, -1) := by
        rw [openFile, if_pos hopenable, hl]
      simp only [hfail] at h
      cases h

/-- **The reserve descriptor is kept** in every run in which the relative path resolves. -/
theorem reserve_kept {slots : Slots File} {pending : List Nat} {cwd : List String} {s₀ : Acceptor}
    {as : List Act} (hnew : new files slots pending cwd = some s₀)
    (hrun : Steps.run (Steps.guarded (Resolves files) (step files)) s₀ as = some s) :
    Reserved s ∧ ∀ error gap t, step files s (.handleRead error gap) = some t →
      (s.accept error).2 = .errno .EMFILE → Exchanged s gap t ∧
        (Reserved t ↔ files.openable (s.cwdThen gap ++ ["dev", "null"]) = true) := by
  have hr : Reserved s := by
    refine Steps.run_invariant ?_ (reserved_new hnew) hrun
    intro s c t hr hs
    obtain ⟨hok, hs⟩ := Steps.guarded_eq_some.mp hs
    exact reserved_step hr hok hs
  refine ⟨hr, ?_⟩
  intro error gap t hst he
  simp only [step, Option.ite_none_right_eq_some, Option.some.injEq] at hst
  obtain ⟨hgap, rfl⟩ := hst
  exact exchanged_of_exhausted hr hgap he

end

/-- Only `/dev/null` is there. -/
def devNull : Files := ⟨fun names => names == ["dev", "null"], rfl⟩

/-- Other code takes the last of three descriptors, and two connections wait. -/
def fillsTable : List Act :=
  [.other .opens, .other (.connect 1), .other (.connect 2), .handleRead none fun _ => []]

theorem reserve_kept_root : ∃ s₀ s, new devNull ⟨3, fun _ => none⟩ [] [] = some s₀ ∧
    Steps.run (Steps.guarded (Resolves devNull) (step devNull)) s₀ fillsTable = some s ∧
    s.closed = [1] ∧ Reserved s := by
  have hobs : (new devNull ⟨3, fun _ => none⟩ [] []).any (fun s₀ =>
      (Steps.run (Steps.guarded (Resolves devNull) (step devNull)) s₀ fillsTable).any fun s =>
        decide (s.closed = [1])) = true := by decide
  obtain ⟨s₀, hnew, hobs⟩ := (Option.any_eq_true _ _).mp hobs
  obtain ⟨s, hs, hobs⟩ := (Option.any_eq_true _ _).mp hobs
  exact ⟨s₀, s, hnew, hs, of_decide_eq_true hobs, (reserve_kept hnew hs).1⟩

/-- In another directory the reserve is lost; when the table is full again no `handleRead` gets
rid of the connection that waits. -/
theorem reserve_lost : ∃ s₀ s t, new devNull ⟨3, fun _ => none⟩ [] ["home"] = some s₀ ∧
    Steps.run (step devNull) s₀ (fillsTable ++ [.other .opens]) = some s ∧
    step devNull s (.handleRead none fun _ => []) = some t ∧
    (s.accept none).2 = .errno .EMFILE ∧ ¬ Reserved s ∧
    (s.close s.idleFd).slots.lowest = none ∧ s.pending = [2] ∧ t.pending = [2] ∧
    t.closed = s.closed ∧ ¬ Reserved t := by
  have hobs : (new devNull ⟨3, fun _ => none⟩ [] ["home"]).any (fun s₀ =>
      (Steps.run (step devNull) s₀ (fillsTable ++ [.other .opens])).any fun s =>
      (step devNull s (.handleRead none fun _ => [])).any fun t =>
        decide ((s.accept none).2 = .errno .EMFILE ∧ s.idleFd = -1 ∧
          (s.close s.idleFd).slots.lowest = none ∧ s.pending = [2] ∧ t.pending = [2] ∧
          t.closed = s.closed ∧ t.idleFd = -1)) = true := by decide
  obtain ⟨s₀, hnew, hobs⟩ := (Option.any_eq_true _ _).mp hobs
  obtain ⟨s, hs, hobs⟩ := (Option.any_eq_true _ _).mp hobs
  obtain ⟨t, ht, hobs⟩ := (Option.any_eq_true _ _).mp hobs
  obtain ⟨hemfile, hidle, hfull, hps, hpt, hclosed, hidle'⟩ := of_decide_eq_true hobs
  have hlost : ∀ u : Acceptor, u.idleFd = -1 → ¬ Reserved u := by
    rintro u hu ⟨n, hn, -⟩
    rw [hu] at hn
    cases hn
  exact ⟨s₀, s, t, hnew, hs, ht, hemfile, hlost s hidle, hfull, hps, hpt, hclosed, hlost t hidle'⟩

end Acceptor

end SimpleNet
