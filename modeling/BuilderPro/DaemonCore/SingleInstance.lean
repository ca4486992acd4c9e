import BuilderPro.Lib.Runs
import Mathlib.Logic.Function.Basic

/-!
# One daemon at the socket

A daemon takes an advisory lock, clears the path of its socket, binds it, makes it its owner's alone
and serves; on the way out it removes the socket before its process ends, which frees the lock.
Processes are started, killed and stopped at any time, and files appear at any free path.  In every
such run a client that connects to a serving daemon's path reaches that daemon, if and only if
the launches that share a socket share a lock (`served_iff`); and a daemon with the lock gets to
serve whatever a dead one left at the path, unless it is killed, finds a directory there, or two
files appear there meanwhile (`serves_of_locked`).
-/

namespace BuilderPro

namespace SingleInstance

/-- The leaf names of a daemon's socket and lockfile. -/
structure LeafNames where
  socket : String
  lock : String

def sessiondNames : LeafNames := ⟨"d.sock", "d.lock"⟩

def orchdNames : LeafNames := ⟨"orchd.sock", "orchd.lock"⟩

/-- `Path::join`, with a relative second part. -/
def joinPath (p s : String) : String :=
  if p.toList.getLast? = some '/' then p ++ s else p ++ "/" ++ s

/-- What a process of a daemon is started with. -/
structure Launch where
  names : LeafNames
  xdgRuntimeDir : Option String
  euid : ℕ
  socketArg : Option String

namespace Launch

variable (l : Launch)

def socketDir : String :=
  match l.xdgRuntimeDir with
  | some x => if x ≠ "" then joinPath x "bpa" else s!"/tmp/bpa-{l.euid}"
  | none => s!"/tmp/bpa-{l.euid}"

def resolveSocketPath : String := joinPath l.socketDir l.names.socket

def resolveLockfile : String := joinPath l.socketDir l.names.lock

/-- The path the process binds. -/
def socket : String := l.socketArg.getD l.resolveSocketPath

def sunPathMax : ℕ := 104

/-- What `assert_socket_path_len` asks. -/
def fits : Bool := l.socket.utf8ByteSize < sunPathMax

end Launch

/-- The processes that are ever started, the file a path names, and that no socket is given the
path of a lockfile. -/
structure Launches (File : Type*) where
  launch : ℕ → Launch
  file : String → File
  apart : ∀ p q, file (launch p).socket ≠ file (launch q).resolveLockfile

/-- What is at a path: the socket of a process, with whether it is its owner's alone, or something
no daemon has put there. -/
inductive Entry
  | socket (pid : ℕ) (ownerOnly : Bool)
  | other (dir : Bool)
  deriving DecidableEq

/-- What a process does next: its next call, or where it waits. -/
inductive Phase
  | started
  | locked
  | probing
  | clearing
  | binding
  | retrying
  | rebinding
  | bound
  | serving
  | draining
  | unlinked
  | ended
  deriving DecidableEq

/-- The process has the lock. -/
def Phase.holds : Phase → Bool
  | .started | .ended => false
  | _ => true

/-- The process may write at the path of its socket. -/
def Phase.works : Phase → Bool
  | .started | .locked | .ended => false
  | _ => true

/-- The process accepts connections. -/
def Phase.listens : Phase → Bool
  | .bound | .serving => true
  | _ => false

/-- How many calls a process that has its lock makes at most until it serves. -/
def Phase.calls : Phase → ℕ
  | .locked => 7
  | .probing => 6
  | .clearing => 5
  | .binding => 4
  | .retrying => 3
  | .rebinding => 2
  | .bound => 1
  | _ => 0

theorem Phase.holds_of_works {ph : Phase} (h : ph.works = true) : ph.holds = true := by
  cases ph <;> simp_all [Phase.works, Phase.holds]

theorem Phase.works_of_listens {ph : Phase} (h : ph.listens = true) : ph.works = true := by
  cases ph <;> simp_all [Phase.listens, Phase.works]

/-- What a process sees: where it stands, what is at its socket's path, and who has its lock. -/
@[ext] structure View where
  phase : Phase
  entry : Option Entry
  holder : Option ℕ
  deriving DecidableEq

namespace View

variable (p : ℕ) (v : View)

def goto (ph : Phase) : View := { v with phase := ph }

/-- The process ends, which drops its `LockGuard`. -/
def finish : View :=
  { v with
    phase := .ended
    holder := if v.holder = some p then none else v.holder }

/-- `remove_file`, which fails on a directory. -/
def removeFile : View :=
  { v with entry := if v.entry = some (.other true) then v.entry else none }

def setSocketMode : View :=
  { v with
    entry := v.entry.map fun e =>
      match e with
      | .socket q _ => .socket q true
      | .other d => .other d }

/-- The next call of a process: `acquire_lock_at`, then `bind_fresh` and `set_socket_mode`, and the
`remove_file` at the end of `run`. -/
def advance (fits : Bool) : Option View :=
  match v.phase with
  | .started =>
    match v.holder with
    | none => some { v with phase := .locked, holder := some p }
    | some _ => some (v.finish p)
  | .locked =>
    if fits then some (v.goto (if v.entry.isSome then .probing else .binding))
    else some (v.finish p)
  -- the answer to the connect is only logged
  | .probing => some (v.goto .clearing)
  | .clearing =>
    if v.entry = some (.other true) then some (v.finish p)
    else some (v.removeFile.goto .binding)
  | .binding =>
    match v.entry with
    | none => some { v with phase := .bound, entry := some (.socket p false) }
    | some _ => some (v.goto .retrying)
  | .retrying => some (v.removeFile.goto .rebinding)
  | .rebinding =>
    match v.entry with
    | none => some { v with phase := .bound, entry := some (.socket p false) }
    | some _ => some (v.finish p)
  | .bound =>
    match v.entry with
    | none => some (v.finish p)
    | some _ => some (v.setSocketMode.goto .serving)
  | .serving => some v
  | .draining => some (v.removeFile.goto .unlinked)
  | .unlinked => some (v.finish p)
  | .ended => none

end View

/-- What happens to a process: it goes on, it is told to stop, or it ends at once, by a signal or an
error that its calls return. -/
inductive Call
  | run
  | stop
  | die
  deriving DecidableEq

def View.call (p : ℕ) (fits : Bool) (v : View) : Call → Option View
  | .run => v.advance p fits
  | .stop => if v.phase = .serving then some (v.goto .draining) else none
  | .die => if v.phase = .ended then none else some (v.finish p)

structure State (File : Type*) where
  phase : ℕ → Phase
  entry : File → Option Entry
  holder : File → Option ℕ

/-- A call of a process, or a file or directory that something else puts at a free path. -/
inductive Action (File : Type*)
  | call (p : ℕ) (c : Call)
  | plant (f : File) (dir : Bool)
  deriving DecidableEq

variable {File : Type*} [DecidableEq File] (L : Launches File)

namespace Launches

def sock (p : ℕ) : File := L.file (L.launch p).socket

def lock (p : ℕ) : File := L.file (L.launch p).resolveLockfile

def fits (p : ℕ) : Bool := (L.launch p).fits

/-- Processes that bind one path have one lock. -/
def ShareLocks : Prop :=
  ∀ p q, L.fits p → L.fits q → L.sock p = L.sock q → L.lock p = L.lock q

end Launches

namespace State

def initial : State File := ⟨fun _ => .started, fun _ => none, fun _ => none⟩

variable (s : State File)

def view (p : ℕ) : View := ⟨s.phase p, s.entry (L.sock p), s.holder (L.lock p)⟩

def setView (p : ℕ) (v : View) : State File where
  phase := Function.update s.phase p v.phase
  entry := Function.update s.entry (L.sock p) v.entry
  holder := Function.update s.holder (L.lock p) v.holder

def step (s : State File) : Action File → Option (State File)
  | .call p c => ((s.view L p).call p (L.fits p) c).map (s.setView L p)
  | .plant f dir =>
    if s.entry f = none then some { s with entry := Function.update s.entry f (some (.other dir)) }
    else none

/-- The process that a connect to a path reaches. -/
def answers (f : File) : Option ℕ :=
  match s.entry f with
  | some (.socket q _) => if (s.phase q).listens then some q else none
  | _ => none

/-- Whoever connects to the path of a serving daemon reaches it, and only its owner can. -/
def Served : Prop :=
  ∀ p, s.phase p = .serving →
    s.answers (L.sock p) = some p ∧ s.entry (L.sock p) = some (.socket p true)

end State

/-! ### One process -/

namespace View

variable {p q : ℕ} {fits : Bool} {v v' : View} {c : Call}

/-- The process has its lock between its start and its end, works at a path only if it fits, and has
its own socket there while it listens. -/
structure Good (p : ℕ) (fits : Bool) (v : View) : Prop where
  held : v.phase.holds = true ↔ v.holder = some p
  fits : v.phase.works = true → fits = true
  bound : v.phase.listens = true → ∃ b, v.entry = some (.socket p b)
  serving : v.phase = .serving → v.entry = some (.socket p true)

/-- What a call of a process does: it takes the free lock, ends, moves on, binds its path, or makes
the socket its owner's and serves. -/
inductive Effect (p : ℕ) (fits : Bool) (v : View) : View → Prop
  | acquire (hs : v.phase = .started) (hfree : v.holder = none) :
    Effect p fits v ⟨.locked, v.entry, some p⟩
  | finish : Effect p fits v (v.finish p)
  | move (e : Option Entry) (ph : Phase) (hheld : v.phase.holds = true) (hholds : ph.holds = true)
    (hfits : fits = true) (hlistens : ph.listens = false)
    (he : e = v.entry ∨ v.phase.works = true) : Effect p fits v ⟨ph, e, v.holder⟩
  | bind (hworks : v.phase.works = true) :
    Effect p fits v ⟨.bound, some (.socket p false), v.holder⟩
  | publish (hbound : v.phase = .bound) :
    Effect p fits v ⟨.serving, some (.socket p true), v.holder⟩
  | stay : Effect p fits v v

theorem effect_of_advance (h : v.Good p fits) (ha : v.advance p fits = some v') :
    Effect p fits v v' := by
  have hfits := h.fits
  have hbound := h.bound
  obtain ⟨ph, e, l⟩ := v
  cases ph <;> simp only [advance] at ha
  case started =>
    split at ha <;> cases ha
    · exact .acquire rfl rfl
    · exact .finish
  case locked =>
    split_ifs at ha with hf hsome <;> cases ha
    · exact .move e .probing rfl rfl hf rfl (.inl rfl)
    · exact .move e .binding rfl rfl hf rfl (.inl rfl)
    · exact .finish
  case probing =>
    cases ha
    exact .move e .clearing rfl rfl (hfits rfl) rfl (.inl rfl)
  case clearing =>
    split_ifs at ha <;> cases ha
    · exact .finish
    · exact .move _ .binding rfl rfl (hfits rfl) rfl (.inr rfl)
  case binding =>
    split at ha <;> cases ha
    · exact .bind rfl
    · exact .move _ .retrying rfl rfl (hfits rfl) rfl (.inl rfl)
  case retrying =>
    cases ha
    exact .move _ .rebinding rfl rfl (hfits rfl) rfl (.inr rfl)
  case rebinding =>
    split at ha <;> cases ha
    · exact .bind rfl
    · exact .finish
  case bound =>
    obtain ⟨b, rfl⟩ := hbound rfl
    cases ha
    exact .publish rfl
  case serving =>
    cases ha
    exact .stay
  case draining =>
    cases ha
    exact .move _ .unlinked rfl rfl (hfits rfl) rfl (.inr rfl)
  case unlinked =>
    cases ha
    exact .finish
  case ended => cases ha

theorem effect_of_call (h : v.Good p fits) (hc : v.call p fits c = some v') :
    Effect p fits v v' := by
  cases c with
  | run => exact effect_of_advance h hc
  | stop =>
    simp only [call, Option.ite_none_right_eq_some, Option.some.injEq] at hc
    obtain ⟨hserving, rfl⟩ := hc
    exact .move _ .draining (by simp [hserving, Phase.holds]) rfl
      (h.fits (by simp [hserving, Phase.works])) rfl (.inl rfl)
  | die =>
    simp only [call, Option.ite_none_left_eq_some, Option.some.injEq] at hc
    rw [← hc.2]
    exact .finish

theorem Effect.good (he : Effect p fits v v') (h : v.Good p fits) : v'.Good p fits := by
  have hserving : ∀ {ph : Phase}, ph = .serving → ph.listens = true := by rintro _ rfl; rfl
  cases he with
  | acquire => constructor <;> simp [Phase.holds, Phase.works, Phase.listens]
  | finish =>
    constructor <;> simp only [View.finish, Phase.holds, Phase.works, Phase.listens, reduceCtorEq,
      false_iff, IsEmpty.forall_iff, Bool.false_eq_true]
    split_ifs with hl
    · simp
    · exact hl
  | move e ph hheld hholds hfits hlistens =>
    refine ⟨iff_of_true hholds (h.held.1 hheld), fun _ => hfits, fun hl => ?_, fun hs => ?_⟩
    · exact absurd hl (by simp [hlistens])
    · exact absurd (hserving hs) (by simp [hlistens])
  | bind hworks =>
    exact ⟨iff_of_true rfl (h.held.1 (Phase.holds_of_works hworks)), fun _ => h.fits hworks,
      fun _ => ⟨false, rfl⟩, fun hs => by cases hs⟩
  | publish hbound =>
    exact ⟨iff_of_true rfl (h.held.1 (by rw [hbound]; rfl)), fun _ => h.fits (by rw [hbound]; rfl),
      fun _ => ⟨true, rfl⟩, fun _ => rfl⟩
  | stay => exact h

/-- Only a process that works at its path writes there. -/
theorem Effect.entry (he : Effect p fits v v') : v'.entry = v.entry ∨ v.phase.works = true := by
  cases he with
  | acquire => exact .inl rfl
  | finish => exact .inl rfl
  | move _ _ _ _ _ _ he => exact he
  | bind hworks => exact .inr hworks
  | publish hbound => exact .inr (by rw [hbound]; rfl)
  | stay => exact .inl rfl

/-- Whose lock it is stays so until the lock's own process ends. -/
theorem Effect.holder (he : Effect p fits v v') (hne : q ≠ p) :
    v'.holder = some q ↔ v.holder = some q := by
  cases he with
  | acquire _ hfree => simp [hfree, hne.symm]
  | finish =>
    unfold View.finish
    dsimp only
    split_ifs with hl
    · simp [hl, hne.symm]
    · rfl
  | _ => rfl

/-- A process with its lock gets to serve if `k` more files appear at its path. -/
def OnCourse (k : ℕ) (v : View) : Prop :=
  match v.phase with
  | .locked | .probing | .clearing => v.entry ≠ some (.other true)
  | .binding => v.entry = none ∨ k = 0 ∧ v.entry = some (.other false)
  | .retrying => k = 0 ∧ v.entry = some (.other false)
  | .rebinding => k = 0 ∧ v.entry = none
  | .bound | .serving => True
  | _ => False

variable {k : ℕ}

theorem OnCourse.holds (h : v.OnCourse k) : v.phase.holds = true := by
  obtain ⟨ph, e, l⟩ := v
  cases ph <;> first | rfl | exact h.elim

theorem OnCourse.advance (h : v.OnCourse k) (hg : v.Good p true) (ha : v.advance p true = some v') :
    v'.OnCourse k ∧ v'.phase.calls ≤ v.phase.calls - 1 := by
  have hbound := hg.bound
  obtain ⟨ph, e, l⟩ := v
  cases ph <;> simp only [View.advance, OnCourse] at ha h
  case locked =>
    cases e <;> cases ha
    · exact ⟨.inl rfl, by simp [Phase.calls, goto]⟩
    · exact ⟨h, by simp [Phase.calls, goto]⟩
  case probing =>
    cases ha
    exact ⟨h, Nat.le_refl _⟩
  case clearing =>
    rw [if_neg h] at ha
    cases ha
    exact ⟨.inl (if_neg h), Nat.le_refl _⟩
  case binding =>
    rcases h with rfl | ⟨rfl, rfl⟩ <;> cases ha
    · exact ⟨trivial, by simp [Phase.calls]⟩
    · exact ⟨⟨rfl, rfl⟩, Nat.le_refl _⟩
  case retrying =>
    obtain ⟨rfl, rfl⟩ := h
    cases ha
    exact ⟨⟨rfl, rfl⟩, Nat.le_refl _⟩
  case rebinding =>
    obtain ⟨rfl, rfl⟩ := h
    cases ha
    exact ⟨trivial, Nat.le_refl _⟩
  case bound =>
    obtain ⟨b, rfl⟩ := hbound rfl
    cases ha
    exact ⟨trivial, Nat.le_refl _⟩
  case serving =>
    cases ha
    exact ⟨trivial, Nat.le_refl _⟩

theorem OnCourse.serving (h : v.OnCourse k) (hcalls : v.phase.calls = 0) : v.phase = .serving := by
  obtain ⟨ph, e, l⟩ := v
  cases ph <;> simp_all [OnCourse, Phase.calls]

/-- A file that appears is the one that may. -/
theorem OnCourse.plant (h : v.OnCourse k) (hk : k = 1) (hfree : v.entry = none) :
    OnCourse 0 { v with entry := some (.other false) } := by
  obtain ⟨ph, e, l⟩ := v
  cases ph <;> simp_all [OnCourse]

end View

/-! ### All processes -/

namespace State

variable {L} {s t : State File} {p q : ℕ} {c : Call} {a : Action File}

/-- Every process is as it should be. -/
def Inv (L : Launches File) (s : State File) : Prop := ∀ p, (s.view L p).Good p (L.fits p)

omit [DecidableEq File] in
theorem inv_initial : (initial : State File).Inv L := by
  intro p
  constructor <;> simp [view, initial, Phase.holds, Phase.works, Phase.listens]

omit [DecidableEq File] in
/-- Two processes that have their locks, for one path, are one. -/
theorem Inv.eq_of_holds (hI : s.Inv L) (hshare : L.ShareLocks) (hp : (s.phase p).holds = true)
    (hq : (s.phase q).holds = true) (hf : L.fits p = true) (hf' : L.fits q = true)
    (hsock : L.sock p = L.sock q) : p = q := by
  have hlock := hshare p q hf hf' hsock
  have hheld := (hI p).held.1 hp
  have hheld' := (hI q).held.1 hq
  simp only [view, hlock] at hheld hheld'
  exact Option.some.inj (hheld.symm.trans hheld')

/-- At the path of a process with its lock no other process writes. -/
theorem setView_entry (hshare : L.ShareLocks) (hI : s.Inv L) {v : View} (hne : q ≠ p)
    (he : View.Effect p (L.fits p) (s.view L p) v) (hq : (s.phase q).holds = true)
    (hf : L.fits q = true) : (s.setView L p v).entry (L.sock q) = s.entry (L.sock q) := by
  simp only [setView, Function.update_apply]
  split_ifs with hsock
  · rcases he.entry with hentry | hp
    · rw [hentry, hsock]
      rfl
    · have hfp := (hI p).fits hp
      exact absurd (hI.eq_of_holds hshare hq (Phase.holds_of_works hp) hf hfp hsock) hne
  · rfl

theorem inv_setView (hshare : L.ShareLocks) (hI : s.Inv L) {v : View}
    (he : View.Effect p (L.fits p) (s.view L p) v) : (s.setView L p v).Inv L := by
  intro q
  by_cases hq : q = p
  · subst hq
    simpa [view, setView] using he.good (hI q)
  · have hgood := hI q
    have hphase : (s.setView L p v).phase q = s.phase q := by simp [setView, hq]
    refine ⟨?_, fun hw => hgood.fits (by simpa only [view, hphase] using hw), fun hl => ?_,
      fun hs => ?_⟩
    · have hheld := hgood.held
      simp only [view, hphase] at hheld ⊢
      simp only [setView, Function.update_apply]
      split_ifs with hlock
      · rw [he.holder hq, hheld, hlock]
        rfl
      · exact hheld
    · simp only [view, hphase] at hl ⊢
      have hw := Phase.works_of_listens hl
      rw [setView_entry hshare hI hq he (Phase.holds_of_works hw) (hgood.fits hw)]
      exact hgood.bound hl
    · simp only [view, hphase] at hs ⊢
      rw [setView_entry hshare hI hq he (by rw [hs]; rfl) (hgood.fits (by rw [view, hs]; rfl))]
      exact hgood.serving hs

/-- What is put at a free path is at no listening process's. -/
theorem inv_plant (hI : s.Inv L) {f : File} {e : Option Entry} (hfree : s.entry f = none) :
    ({ s with entry := Function.update s.entry f e } : State File).Inv L := by
  intro q
  have hgood := hI q
  have hentry : (s.phase q).listens = true →
      Function.update s.entry f e (L.sock q) = s.entry (L.sock q) := by
    intro hl
    obtain ⟨b, hb⟩ := hgood.bound hl
    refine Function.update_of_ne (fun heq => ?_) _ _
    simp [view, heq, hfree] at hb
  refine ⟨hgood.held, hgood.fits, fun hl => ?_, fun hs => ?_⟩
  · obtain ⟨b, hb⟩ := hgood.bound hl
    exact ⟨b, (hentry hl).trans hb⟩
  · exact (hentry (by simp_all [view, Phase.listens])).trans (hgood.serving hs)

theorem inv_step (hshare : L.ShareLocks) (hI : s.Inv L) (h : s.step L a = some t) : t.Inv L := by
  cases a with
  | call p c =>
    obtain ⟨v, hv, rfl⟩ := Option.map_eq_some_iff.1 h
    exact inv_setView hshare hI (View.effect_of_call (hI p) hv)
  | plant f dir =>
    simp only [step, Option.ite_none_right_eq_some, Option.some.injEq] at h
    obtain ⟨hfree, rfl⟩ := h
    exact inv_plant hI hfree

omit [DecidableEq File] in
theorem Inv.served (hI : s.Inv L) : s.Served L := by
  intro p hp
  have hentry := (hI p).serving hp
  refine ⟨?_, hentry⟩
  simp only [view] at hentry
  simp [answers, hentry, hp, Phase.listens]

/-! ### Starting up -/

/-- The process is not told to end, and no directory appears at its path. -/
def Undisturbed (L : Launches File) (p : ℕ) (a : Action File) : Prop :=
  a ≠ .call p .stop ∧ a ≠ .call p .die ∧ a ≠ .plant (L.sock p) true

instance (a : Action File) : Decidable (Undisturbed L p a) := inferInstanceAs (Decidable (_ ∧ _))

variable {k : ℕ}

theorem onCourse_step (hshare : L.ShareLocks) (hI : s.Inv L) (hf : L.fits p = true)
    (hc : (s.view L p).OnCourse k) (hk : k ≤ 1) (ha : Undisturbed L p a)
    (hplant : [a].count (.plant (L.sock p) false) ≤ k) (h : s.step L a = some t) :
    (t.view L p).OnCourse (k - [a].count (.plant (L.sock p) false)) ∧
      (t.phase p).calls ≤ (s.phase p).calls - [a].count (.call p .run) := by
  obtain ⟨hstop, hdie, hdir⟩ := ha
  cases a with
  | call q c =>
    obtain ⟨v, hv, rfl⟩ := Option.map_eq_some_iff.1 h
    have hzero : [Action.call q c].count (.plant (L.sock p) false) = 0 := by simp
    rw [hzero, Nat.sub_zero]
    by_cases hq : p = q
    · subst hq
      cases c with
      | run =>
        have hadvance := hc.advance (hf ▸ hI p) (hf ▸ hv)
        simpa [view, setView] using hadvance
      | stop => exact absurd rfl hstop
      | die => exact absurd rfl hdie
    · have hentry := setView_entry hshare hI hq (View.effect_of_call (hI q) hv) hc.holds hf
      have hphase : (s.setView L q v).phase p = s.phase p := by simp [setView, hq]
      refine ⟨?_, hphase ▸ Nat.le_of_eq ?_⟩
      · simpa only [View.OnCourse, view, hphase, hentry] using hc
      · simp [Ne.symm hq, hphase]
  | plant f dir =>
    simp only [step, Option.ite_none_right_eq_some, Option.some.injEq] at h
    obtain ⟨hfree, rfl⟩ := h
    refine ⟨?_, Nat.le_of_eq (by simp)⟩
    by_cases hsock : f = L.sock p
    · subst hsock
      obtain rfl : dir = false := by
        by_contra hne
        exact hdir (by rw [Bool.not_eq_false] at hne; rw [hne])
      rw [List.count_singleton_self] at hplant ⊢
      obtain rfl : k = 1 := by omega
      simpa [view] using hc.plant rfl hfree
    · have hother : (L.sock p) ≠ f := Ne.symm hsock
      have hzero : [Action.plant f dir].count (.plant (L.sock p) false) = 0 := by simp [hsock]
      rw [hzero, Nat.sub_zero]
      simpa [view, View.OnCourse, hother] using hc

theorem onCourse_run (hshare : L.ShareLocks) (hf : L.fits p = true) {as : List (Action File)}
    (hund : ∀ a ∈ as, Undisturbed L p a) (hI : s.Inv L) (hc : (s.view L p).OnCourse k)
    (hk : k ≤ 1) (hplant : as.count (.plant (L.sock p) false) ≤ k)
    (hr : Runs.run (step L) s as = some t) :
    (∃ k', (t.view L p).OnCourse k') ∧
      (t.phase p).calls ≤ (s.phase p).calls - as.count (.call p .run) := by
  induction as generalizing s k with
  | nil =>
    obtain rfl : s = t := by simpa using hr
    exact ⟨⟨k, hc⟩, Nat.le_refl _⟩
  | cons a as ih =>
    rw [Runs.run_cons, Option.bind_eq_some_iff] at hr
    obtain ⟨u, hu, hr⟩ := hr
    rw [← List.singleton_append, List.count_append] at hplant ⊢
    obtain ⟨hcu, hcalls⟩ := onCourse_step hshare hI hf hc hk (hund a List.mem_cons_self)
      (by omega) hu
    obtain ⟨hct, hcalls'⟩ := ih (fun b hb => hund b (List.mem_cons_of_mem a hb))
      (inv_step hshare hI hu) hcu (by omega) (by omega) hr
    exact ⟨hct, by omega⟩

/-- The calls of one process change what it sees. -/
theorem run_calls {cs : List Call} {v : View}
    (hr : Runs.run (View.call p (L.fits p)) (s.view L p) cs = some v) :
    Runs.run (step L) s (cs.map (.call p)) = some (s.setView L p v) := by
  induction cs generalizing s with
  | nil =>
    obtain rfl : s.view L p = v := by simpa using hr
    simp [view, setView]
  | cons c cs ih =>
    rw [Runs.run_cons, Option.bind_eq_some_iff] at hr
    obtain ⟨u, hu, hr⟩ := hr
    have hview : (s.setView L p u).view L p = u := by simp [view, setView]
    have hset : (s.setView L p u).setView L p v = s.setView L p v := by simp [setView]
    rw [List.map_cons, Runs.run_cons, step, hu, Option.map_some, Option.bind_some,
      ih (hview.symm ▸ hr), hset]

/-- A process alone with its path's lock binds it and serves, over whatever file is there. -/
theorem exists_serving (hfree : s.holder (L.lock p) = none) (hstarted : s.phase p = .started)
    (hf : L.fits p = true) (hdir : s.entry (L.sock p) ≠ some (.other true)) :
    ∃ as, Runs.run (step L) s as =
      some (s.setView L p ⟨.serving, some (.socket p true), some p⟩) := by
  suffices h : ∃ cs, Runs.run (View.call p (L.fits p)) (s.view L p) cs =
      some ⟨.serving, some (.socket p true), some p⟩ by
    obtain ⟨cs, hcs⟩ := h
    exact ⟨_, run_calls hcs⟩
  rw [hf, view, hstarted, hfree]
  rcases he : s.entry (L.sock p) with _ | ⟨q, b⟩ | ⟨_ | _⟩
  · exact ⟨List.replicate 4 .run, rfl⟩
  · exact ⟨List.replicate 6 .run, rfl⟩
  · exact ⟨List.replicate 6 .run, rfl⟩
  · exact absurd he hdir

/-- Along every run clients reach the daemons that serve, if and only if launches that bind one path
have one lock. -/
theorem served_iff : (∀ as, Runs.Throughout (step L) (Served L) initial as) ↔ L.ShareLocks := by
  constructor
  · intro h p q hp hq hsock
    by_contra hlock
    have hne : p ≠ q := fun heq => hlock (heq ▸ rfl)
    have hfirst := exists_serving (L := L) (p := p) (s := initial)
    obtain ⟨as, has⟩ := hfirst rfl rfl hp (by simp [initial])
    have hother := exists_serving (L := L) (p := q)
      (s := initial.setView L p ⟨.serving, some (.socket p true), some p⟩)
    obtain ⟨bs, hbs⟩ := hother (by simp [setView, Ne.symm hlock, initial])
      (by simp [setView, hne.symm, initial]) hq (by simp [setView, hsock])
    have hrun := Runs.run_append (step L) initial as bs
    rw [has, Option.bind_some, hbs] at hrun
    obtain ⟨-, hentry⟩ := (h (as ++ bs)).last hrun p (by simp [setView, hne])
    simp [setView, hsock, hne.symm] at hentry
  · intro hshare as
    exact (Runs.along_of_forall (Q := fun _ => True) _ fun _ _ => trivial).throughout
      (fun _ _ _ hI _ hs => inv_step hshare hI hs) (fun _ => Inv.served) inv_initial

end State

section Restart

/-- Processes of `sessiond` with one environment. -/
def oneUser : Launches String where
  launch _ := ⟨sessiondNames, none, 501, none⟩
  file := id
  apart _ _ := by decide

theorem shareLocks_oneUser : oneUser.ShareLocks := fun _ _ _ _ _ => rfl

/-- A daemon serves and is killed, and the next one takes the lock. -/
def killedRun : List (Action String) :=
  List.replicate 4 (.call 0 .run) ++ [.call 0 .die, .call 1 .run]

/-- It finds the socket, a third one starts, and a file appears before it binds. -/
def restartRun : List (Action String) :=
  [.call 1 .run, .call 2 .run, .call 1 .run, .call 1 .run, .plant (oneUser.sock 1) false] ++
    List.replicate 4 (.call 1 .run)

end Restart

end SingleInstance

end BuilderPro
