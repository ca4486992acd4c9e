import Mathlib.Data.List.Dedup
import BuilderPro.Lib.KeyedTable
import BuilderPro.Lib.Runs
import BuilderPro.Lib.Slots

/-!
# The cache of directory listings

The renderer keeps the listings of the directories that were opened (`store.ts`) and fetches those
that are missing (`FileTree.tsx`).  The watcher's batches drop the listings that they are about, and
raise the epoch of each, by which the answer to an earlier fetch is known to be stale.  An answer
that is read before a change and taken over after its batch stays in the cache.
-/

namespace BuilderPro

structure FsEntry where
  name : String
  relPath : String
  isDir : Bool
  size : ℕ
  isIgnored : Bool
  deriving DecidableEq

/-- `fsKey`, for an entry of a root. -/
structure FsKey where
  root : String
  rel : String
  deriving DecidableEq

/-- What `list_dir` returns. -/
inductive Listing
  | entries (entries : List FsEntry)
  | error (msg : String)
  deriving DecidableEq

structure CachedDir where
  key : FsKey
  entries : List FsEntry
  deriving DecidableEq

def dirnameOf (rel : String) : String :=
  String.ofList (rel.toList.reverse.dropWhile fun c => c ≠ '/').tail.reverse

def changedPathsToParentDirs (changedRelPaths : List String) : List String :=
  (changedRelPaths.map fun rel => if rel = "*" then "*" else dirnameOf rel).dedup

/-- The effect that fetches what is missing, in the component that is mounted or one before it, or
`refreshDir`. -/
inductive ListCaller
  | fetch (epochAtStart : ℕ) (mounted : Bool)
  | refresh
  deriving DecidableEq

/-- A call of `listDir`, and what it returned once the disk is read. -/
structure ListCall where
  key : FsKey
  caller : ListCaller
  result : Option Listing
  deriving DecidableEq

/-- The listing that a call has read. -/
def ListCall.read (c : ListCall) : Option (List FsEntry) :=
  match c.result with
  | some (.entries entries) => some entries
  | _ => none

structure DirState where
  disk : FsKey → Listing
  /-- The changed entries that no batch has reported since. -/
  unreported : List FsKey
  treeCache : KeyedTable CachedDir.key
  treeEpochs : FsKey → Option ℕ
  expanded : FsKey → Bool
  failedDirs : FsKey → Option String
  calls : List ListCall

inductive DirAction
  /-- Entries change, by the panel's own operation or anyone else's. -/
  | change (disk : FsKey → Listing) (changed : List FsKey)
  | fsChanged (root : String) (changedRelPaths : List String)
  | setExpanded (key : FsKey) (isOpen : Bool)
  | retryDir (key : FsKey)
  /-- The panel is left and entered again. -/
  | mount
  /-- The effect fetches a directory that is expanded and not there. -/
  | fetch (key : FsKey)
  /-- `refreshDir`, after an operation of the panel. -/
  | refresh (key : FsKey)
  /-- The disk is read for a call. -/
  | listDir (i : ℕ)
  /-- A call's result is taken over. -/
  | settle (i : ℕ)

namespace DirState

def init (disk : FsKey → Listing) : DirState :=
  ⟨disk, [], .empty, fun _ => none, fun _ => false, fun _ => none, []⟩

variable (st : DirState)

def epoch (key : FsKey) : ℕ := (st.treeEpochs key).getD 0

def cached (key : FsKey) : Option (List FsEntry) :=
  (st.treeCache.lookup key).map CachedDir.entries

def cacheDir (key : FsKey) (entries : List FsEntry) : DirState :=
  { st with treeCache := st.treeCache.upsert ⟨key, entries⟩ }

/-- The keys whose epochs the overflow sentinel raises. -/
def tracked (key : FsKey) : Bool :=
  (st.treeEpochs key).isSome || (st.treeCache.lookup key).isSome || st.expanded key

def invalidateDirs (root : String) (rels : List String) : DirState :=
  { st with
    treeCache := st.treeCache.keep fun d =>
      !(d.key.root == root && (rels.contains "*" || rels.contains d.key.rel))
    treeEpochs := fun key =>
      if key.root = root ∧ (if "*" ∈ rels then st.tracked key = true else key.rel ∈ rels) then
        some (st.epoch key + 1)
      else st.treeEpochs key }

/-- A batch reports a changed entry. -/
def reports (root : String) (changedRelPaths : List String) (p : FsKey) : Bool :=
  p.root == root && (changedRelPaths.contains "*" || changedRelPaths.contains p.rel)

/-- A fetch of the mounted component is under way. -/
def fetching (key : FsKey) : Bool :=
  st.calls.any fun c => c.key == key && match c.caller with
    | .fetch _ mounted => mounted
    | .refresh => false

def pending (key : FsKey) : Bool :=
  st.expanded key && (st.cached key).isNone && (st.failedDirs key).isNone

/-- The end of a call. -/
def settled (c : ListCall) (result : Listing) : DirState :=
  match c.caller, result with
  | .fetch epochAtStart mounted, .entries entries =>
    if st.epoch c.key ≠ epochAtStart then st
    else
      { st.cacheDir c.key entries with
        failedDirs :=
          if mounted then Function.update st.failedDirs c.key none else st.failedDirs }
  | .fetch _ mounted, .error msg =>
    if mounted then { st with failedDirs := Function.update st.failedDirs c.key (some msg) } else st
  | .refresh, .entries entries => st.cacheDir c.key entries
  | .refresh, .error _ => st

def step : DirAction → Option DirState
  | .change disk changed => some { st with disk := disk, unreported := st.unreported ++ changed }
  | .fsChanged root changedRelPaths =>
    some
      { st.invalidateDirs root (changedPathsToParentDirs changedRelPaths) with
        unreported := st.unreported.filter fun p => !reports root changedRelPaths p }
  | .setExpanded key isOpen => some { st with expanded := Function.update st.expanded key isOpen }
  | .retryDir key => some { st with failedDirs := Function.update st.failedDirs key none }
  | .mount =>
    some
      { st with
        failedDirs := fun _ => none
        calls := st.calls.map fun c =>
          match c.caller with
          | .fetch epochAtStart _ => { c with caller := .fetch epochAtStart false }
          | .refresh => c }
  | .fetch key =>
    if st.pending key && !st.fetching key then
      some { st with calls := st.calls ++ [⟨key, .fetch (st.epoch key) true, none⟩] }
    else none
  | .refresh key => some { st with calls := st.calls ++ [⟨key, .refresh, none⟩] }
  | .listDir i =>
    st.calls[i]?.bind fun c =>
      if c.result = none then
        some { st with calls := st.calls.set i { c with result := some (st.disk c.key) } }
      else none
  | .settle i =>
    st.calls[i]?.bind fun c =>
      c.result.map fun result => { st.settled c result with calls := st.calls.eraseIdx i }

def AtRest : Prop := st.calls = [] ∧ st.unreported = []

/-- A batch to come will report an entry of the directory. -/
def Due (key : FsKey) : Prop := ∃ p ∈ st.unreported, p.root = key.root ∧ dirnameOf p.rel = key.rel

instance (key : FsKey) : Decidable (st.Due key) := inferInstanceAs (Decidable (∃ _ ∈ _, _))

/-- A listing is what the disk has, or a batch to come drops it. -/
def Current (key : FsKey) (entries : List FsEntry) : Prop :=
  st.disk key = .entries entries ∨ st.Due key

instance (key : FsKey) (entries : List FsEntry) : Decidable (st.Current key entries) :=
  inferInstanceAs (Decidable (_ ∨ _))

/-- A fetch whose answer will be taken over. -/
def Live (c : ListCall) : Prop :=
  match c.caller with
  | .fetch epochAtStart _ => st.epoch c.key = epochAtStart
  | .refresh => False

instance (c : ListCall) : Decidable (st.Live c) := by
  unfold Live
  split <;> infer_instance

/-- The listings that are kept, or read and will be. -/
def held : List CachedDir :=
  st.treeCache.rows ++ (st.calls.filter fun c => st.Live c).filterMap fun c =>
    c.read.map fun entries => ⟨c.key, entries⟩

/-- What keeps the listings from going stale.  A change of a directory that is held is reported by
the name of an entry directly in it; the overflow sentinel comes when the fetches under way are
tracked, or have read what the disk has; and `refreshDir` takes over a listing that is current. -/
def InTime : DirAction → Prop
  | .change disk changed => ∀ d ∈ st.held, disk d.key = st.disk d.key ∨
      ∃ p ∈ st.unreported ++ changed, p.root = d.key.root ∧ dirnameOf p.rel = d.key.rel
  | .fsChanged root changedRelPaths => "*" ∈ changedPathsToParentDirs changedRelPaths →
      ∀ d ∈ st.held, d.key.root = root → st.tracked d.key = true ∨ st.disk d.key = .entries d.entries
  | .settle i => ∀ c ∈ st.calls[i]?, c.caller = .refresh → ∀ entries ∈ c.read,
      st.Current c.key entries
  | _ => True

instance : (a : DirAction) → Decidable (st.InTime a)
  | .change _ _ | .settle _ => inferInstanceAs (Decidable (∀ _ ∈ _, _))
  | .fsChanged _ _ => inferInstanceAs (Decidable (_ → _))
  | .setExpanded _ _ | .retryDir _ | .mount | .fetch _ | .refresh _ | .listDir _ => isTrue trivial

variable {st} {st' : DirState} {key : FsKey} {entries : List FsEntry}

theorem mem_held {d : CachedDir} : d ∈ st.held ↔ d ∈ st.treeCache.rows ∨
    ∃ c ∈ st.calls, st.Live c ∧ c.key = d.key ∧ c.read = some d.entries := by
  rcases d with ⟨key, entries⟩
  simp [held, and_assoc, and_comm, and_left_comm]

/-- A held listing is what the disk has, or about to be dropped; no fetch is of an epoch to come. -/
structure Fresh (st : DirState) : Prop where
  current : ∀ d ∈ st.held, st.Current d.key d.entries
  started : ∀ c ∈ st.calls, ∀ epochAtStart mounted, c.caller = .fetch epochAtStart mounted →
    epochAtStart ≤ st.epoch c.key

/-- What was held already stays current. -/
theorem current_of_held (h : st.Fresh) (hdisk : st'.disk = st.disk)
    (hdue : st'.unreported = st.unreported)
    (hheld : ∀ d ∈ st'.held, d ∈ st.held ∨ st.Current d.key d.entries) :
    ∀ d ∈ st'.held, st'.Current d.key d.entries := by
  intro d hd
  rw [Current, Due, hdisk, hdue]
  rcases hheld d hd with hd | hd
  · exact h.current d hd
  · exact hd

theorem Fresh.change {disk : FsKey → Listing} {changed : List FsKey} (h : st.Fresh)
    (hc : st.InTime (.change disk changed)) :
    Fresh { st with disk := disk, unreported := st.unreported ++ changed } := by
  refine ⟨fun d hd => ?_, h.started⟩
  rcases hc d hd with hsame | hdue
  · rcases h.current d hd with hd | ⟨p, hp, hdir⟩
    · exact .inl (hsame.trans hd)
    · exact .inr ⟨p, List.mem_append_left _ hp, hdir⟩
  · exact .inr hdue

section FsChanged

variable {root : String} {paths : List String}

/-- The directories that a batch drops. -/
def Dropped (root : String) (paths : List String) (key : FsKey) : Prop :=
  key.root = root ∧
    ("*" ∈ changedPathsToParentDirs paths ∨ key.rel ∈ changedPathsToParentDirs paths)

theorem dropped_of_reports {p : FsKey} (hp : reports root paths p = true) (hroot : p.root = key.root)
    (hdir : dirnameOf p.rel = key.rel) : Dropped root paths key := by
  simp only [reports, Bool.and_eq_true, Bool.or_eq_true, beq_iff_eq, List.contains_iff_mem] at hp
  refine ⟨hroot ▸ hp.1, ?_⟩
  simp only [changedPathsToParentDirs, List.mem_dedup, List.mem_map]
  rcases hp.2 with hstar | hrel
  · exact .inl ⟨"*", hstar, if_pos rfl⟩
  · by_cases hstar : p.rel = "*"
    · exact .inl ⟨p.rel, hrel, if_pos hstar⟩
    · exact .inr ⟨p.rel, hrel, (if_neg hstar).trans hdir⟩

/-- A batch leaves what it does not drop as it was. -/
theorem current_of_not_dropped (hnot : ¬Dropped root paths key) (h : st.Current key entries) :
    Current { st.invalidateDirs root (changedPathsToParentDirs paths) with
      unreported := st.unreported.filter fun p => !reports root paths p } key entries := by
  rcases h with h | ⟨p, hp, hroot, hdir⟩
  · exact .inl h
  · refine .inr ⟨p, List.mem_filter.2 ⟨hp, ?_⟩, hroot, hdir⟩
    rw [Bool.not_eq_true', ← Bool.not_eq_true]
    exact fun hr => hnot (dropped_of_reports hr hroot hdir)

theorem epoch_invalidateDirs {rels : List String} (key : FsKey) :
    (st.invalidateDirs root rels).epoch key =
      if key.root = root ∧ (if "*" ∈ rels then st.tracked key = true else key.rel ∈ rels) then
        st.epoch key + 1
      else st.epoch key := by
  simp only [epoch, invalidateDirs]
  split_ifs <;> rfl

/-- A fetch that is live after a batch was live before, and its epoch was not raised. -/
theorem live_invalidateDirs {rels : List String} {c : ListCall} (h : st.Fresh) (hc : c ∈ st.calls)
    (hlive : (st.invalidateDirs root rels).Live c) : st.Live c ∧ ¬(c.key.root = root ∧
      (if "*" ∈ rels then st.tracked c.key = true else c.key.rel ∈ rels)) := by
  rcases hcaller : c.caller with ⟨e, m⟩ | _
  · have hle := h.started c hc e m hcaller
    simp only [Live, hcaller, epoch_invalidateDirs] at hlive ⊢
    by_cases hraised : c.key.root = root ∧
        (if "*" ∈ rels then st.tracked c.key = true else c.key.rel ∈ rels)
    · rw [if_pos hraised] at hlive
      omega
    · rw [if_neg hraised] at hlive
      exact ⟨hlive, hraised⟩
  · simp [Live, hcaller] at hlive

/-- A batch drops what it reports, and leaves the other reports to come. -/
theorem Fresh.fsChanged (h : st.Fresh) (hc : st.InTime (.fsChanged root paths)) :
    Fresh { st.invalidateDirs root (changedPathsToParentDirs paths) with
      unreported := st.unreported.filter fun p => !reports root paths p } := by
  refine ⟨fun d hd => ?_, fun c hcall e m hcaller => ?_⟩
  · rcases mem_held.1 hd with hd | ⟨c, hcall, hlive, hkey, hread⟩
    · obtain ⟨hd, hdrop⟩ := List.mem_filter.1 hd
      refine current_of_not_dropped ?_ (h.current d (mem_held.2 (.inl hd)))
      rintro ⟨hroot, hrel⟩
      simp [hroot, ← not_or] at hdrop
      exact hdrop hrel
    · obtain ⟨hlive, hnot⟩ := live_invalidateDirs h hcall hlive
      have hheld : d ∈ st.held := mem_held.2 (.inr ⟨c, hcall, hlive, hkey, hread⟩)
      rw [hkey] at hnot
      by_cases hroot : d.key.root = root
      · by_cases hstar : "*" ∈ changedPathsToParentDirs paths
        · rcases hc hstar d hheld hroot with htracked | hdisk
          · exact absurd ⟨hroot, by rwa [if_pos hstar]⟩ hnot
          · exact .inl hdisk
        · refine current_of_not_dropped (fun hdrop => hnot ⟨hroot, ?_⟩) (h.current d hheld)
          rw [if_neg hstar]
          exact hdrop.2.resolve_left hstar
      · exact current_of_not_dropped (fun hdrop => hroot hdrop.1) (h.current d hheld)
  · have hle := h.started c hcall e m hcaller
    show e ≤ (st.invalidateDirs root (changedPathsToParentDirs paths)).epoch c.key
    rw [epoch_invalidateDirs]
    split_ifs <;> omega

end FsChanged

/-- The listing that a call puts in the cache is current. -/
theorem Fresh.current_read {i : ℕ} {c : ListCall} (h : st.Fresh) (hc : st.InTime (.settle i))
    (hi : st.calls[i]? = some c) (hread : c.read = some entries)
    (hlive : c.caller = .refresh ∨ st.Live c) : st.Current c.key entries := by
  rcases hlive with hrefresh | hlive
  · exact hc c hi hrefresh entries hread
  · exact h.current ⟨c.key, entries⟩
      (mem_held.2 (.inr ⟨c, List.mem_of_getElem? hi, hlive, rfl, hread⟩))

/-- A call ends with its listing in the cache, or without. -/
theorem settled_cases (c : ListCall) (result : Listing) (calls : List ListCall) :
    (∃ entries failed, result = .entries entries ∧ (c.caller = .refresh ∨ st.Live c) ∧
      { st.settled c result with calls := calls } =
        { st.cacheDir c.key entries with failedDirs := failed, calls := calls }) ∨
    ∃ failed, { st.settled c result with calls := calls } =
      { st with failedDirs := failed, calls := calls } := by
  rcases hcaller : c.caller with ⟨e, m⟩ | _ <;> rcases result with entries | msg <;>
    simp only [settled, hcaller]
  · by_cases he : st.epoch c.key = e
    · rw [if_neg (not_not.2 he)]
      exact .inl ⟨entries, _, rfl, .inr (by rwa [Live, hcaller]), rfl⟩
    · rw [if_pos he]
      exact .inr ⟨_, rfl⟩
  · split
    · exact .inr ⟨_, rfl⟩
    · exact .inr ⟨_, rfl⟩
  · exact .inl ⟨entries, _, rfl, .inl trivial, rfl⟩
  · exact .inr ⟨_, rfl⟩

theorem Fresh.settle {i : ℕ} (h : st.Fresh) (hc : st.InTime (.settle i))
    (hs : st.step (.settle i) = some st') : st'.Fresh := by
  simp only [DirState.step, Option.bind_eq_some_iff, Option.map_eq_some_iff] at hs
  obtain ⟨c, hi, result, hresult, hs⟩ := hs
  have hcalls {c' : ListCall} (hc' : c' ∈ st.calls.eraseIdx i) : c' ∈ st.calls :=
    List.mem_of_mem_eraseIdx hc'
  rcases settled_cases c result (st.calls.eraseIdx i) with
    ⟨entries, failed, rfl, hlive, heq⟩ | ⟨failed, heq⟩
  · rw [heq] at hs
    subst hs
    have hread : c.read = some entries := by rw [ListCall.read, hresult]
    have hcur := h.current_read hc hi hread hlive
    refine ⟨current_of_held h rfl rfl fun d hd => ?_, fun c' hc' => h.started c' (hcalls hc')⟩
    rcases mem_held.1 hd with hd | ⟨c', hc', hrest⟩
    · rcases List.mem_cons.1 hd with rfl | hd
      · exact .inr hcur
      · exact .inl (mem_held.2 (.inl (List.mem_filter.1 hd).1))
    · exact .inl (mem_held.2 (.inr ⟨c', hcalls hc', hrest⟩))
  · rw [heq] at hs
    subst hs
    refine ⟨current_of_held h rfl rfl fun d hd => ?_, fun c' hc' => h.started c' (hcalls hc')⟩
    rcases mem_held.1 hd with hd | ⟨c', hc', hrest⟩
    · exact .inl (mem_held.2 (.inl hd))
    · exact .inl (mem_held.2 (.inr ⟨c', hcalls hc', hrest⟩))

/-- A call that begins has read nothing. -/
theorem Fresh.call {c : ListCall} (h : st.Fresh) (hresult : c.result = none)
    (hstarted : ∀ epochAtStart mounted, c.caller = .fetch epochAtStart mounted →
      epochAtStart ≤ st.epoch c.key) : Fresh { st with calls := st.calls ++ [c] } := by
  refine ⟨current_of_held h rfl rfl fun d hd => .inl ?_, fun c' hc' => ?_⟩
  · rcases mem_held.1 hd with hd | ⟨c', hc', hlive, hkey, hread⟩
    · exact mem_held.2 (.inl hd)
    · rcases List.mem_append.1 hc' with hc' | hc'
      · exact mem_held.2 (.inr ⟨c', hc', hlive, hkey, hread⟩)
      · rw [List.mem_singleton.1 hc', ListCall.read, hresult] at hread
        cases hread
  · rcases List.mem_append.1 hc' with hc' | hc'
    · exact h.started c' hc'
    · rw [List.mem_singleton.1 hc']
      exact hstarted

theorem Fresh.listDir {i : ℕ} (h : st.Fresh) (hs : st.step (.listDir i) = some st') :
    st'.Fresh := by
  simp only [DirState.step, Option.bind_eq_some_iff] at hs
  obtain ⟨c, hi, hs⟩ := hs
  obtain ⟨-, ⟨⟩⟩ := Option.ite_none_right_eq_some.1 hs
  have hmem := List.mem_of_getElem? hi
  refine ⟨current_of_held h rfl rfl fun d hd => ?_, fun c' hc' => ?_⟩
  · rcases mem_held.1 hd with hd | ⟨c', hc', hlive, hkey, hread⟩
    · exact .inl (mem_held.2 (.inl hd))
    · rcases List.mem_or_eq_of_mem_set hc' with hc' | rfl
      · exact .inl (mem_held.2 (.inr ⟨c', hc', hlive, hkey, hread⟩))
      · -- it has just read the disk
        refine .inr (.inl ?_)
        rw [← hkey]
        rcases hdisk : st.disk c.key with entries | msg
        · simpa [ListCall.read, hdisk] using hread
        · simp [ListCall.read, hdisk] at hread
  · rcases List.mem_or_eq_of_mem_set hc' with hc' | rfl
    · exact h.started c' hc'
    · exact h.started c hmem

theorem Fresh.mount (h : st.Fresh) (hs : st.step .mount = some st') : st'.Fresh := by
  cases hs
  refine ⟨current_of_held h rfl rfl fun d hd => .inl ?_, fun c' hc' => ?_⟩
  · rcases mem_held.1 hd with hd | ⟨c', hc', hlive, hkey, hread⟩
    · exact mem_held.2 (.inl hd)
    · obtain ⟨c, hc, rfl⟩ := List.mem_map.1 hc'
      refine mem_held.2 (.inr ⟨c, hc, ?_⟩)
      rcases hcaller : c.caller with ⟨e, m⟩ | _ <;> simp only [hcaller] at hlive hkey hread
      · exact ⟨by rw [Live, hcaller]; exact hlive, hkey, hread⟩
      · simp [Live, hcaller] at hlive
  · obtain ⟨c, hc, rfl⟩ := List.mem_map.1 hc'
    have hstarted := h.started c hc
    rcases hcaller : c.caller with ⟨e, m⟩ | _ <;> simp only [hcaller]
    · rintro e' m' ⟨⟩
      exact hstarted e m hcaller
    · nofun

theorem Fresh.step {a : DirAction} (h : st.Fresh) (hc : st.InTime a) (hs : st.step a = some st') :
    st'.Fresh := by
  rcases a with ⟨disk, changed⟩ | ⟨root, paths⟩ | ⟨key, isOpen⟩ | key | _ | key | key | i | i
  · cases hs
    exact h.change hc
  · cases hs
    exact h.fsChanged hc
  · cases hs
    exact ⟨h.current, h.started⟩
  · cases hs
    exact ⟨h.current, h.started⟩
  · exact h.mount hs
  · obtain ⟨-, ⟨⟩⟩ := Option.ite_none_right_eq_some.1 hs
    refine h.call rfl ?_
    rintro e m ⟨⟩
    exact Nat.le_refl _
  · cases hs
    exact h.call rfl nofun
  · exact h.listDir hs
  · exact h.settle hc hs

theorem fresh_run (disk : FsKey → Listing) (as : List DirAction)
    (h : Runs.Along step InTime (init disk) as) (hr : Runs.run step (init disk) as = some st) :
    st.Fresh :=
  h.keeps (fun _ _ _ hi hc hs => hi.step hc hs) ⟨nofun, nofun⟩ hr

/-- In every run whose steps come in time, the cache at rest has what `list_dir` returns. -/
theorem cache_eq_disk (disk : FsKey → Listing) (as : List DirAction)
    (h : Runs.Along step InTime (init disk) as) (hr : Runs.run step (init disk) as = some st)
    (hrest : st.AtRest) : ∀ d ∈ st.treeCache.rows, st.disk d.key = .entries d.entries := by
  intro d hd
  rcases (fresh_run disk as h hr).current d (mem_held.2 (.inl hd)) with hdisk | ⟨p, hp, -⟩
  · exact hdisk
  · rw [hrest.2] at hp
    cases hp

section LateRefresh

/-- A disk whose one root has some files. -/
def rootWith (names : List String) (key : FsKey) : Listing :=
  if key = ⟨"/w", ""⟩ then .entries (names.map fun name => ⟨name, name, false, 0, false⟩)
  else .error "not found"

/-- The root is opened, and a file is created in the panel. -/
def createdFile : List DirAction :=
  [.setExpanded ⟨"/w", ""⟩ true, .fetch ⟨"/w", ""⟩, .listDir 0, .settle 0,
    .change (rootWith ["a"]) [⟨"/w", "a"⟩], .refresh ⟨"/w", ""⟩, .listDir 0]

/-- Another file follows, with a batch about both. -/
def anotherFile : List DirAction :=
  [.change (rootWith ["a", "b"]) [⟨"/w", "b"⟩], .fsChanged "/w" ["a", "b"], .fetch ⟨"/w", ""⟩]

theorem cache_eq_disk_refreshed : ∃ st,
    Runs.run step (init (rootWith []))
        (createdFile ++ [.settle 0] ++ anotherFile ++ [.listDir 0, .settle 0]) = some st ∧
      st.treeCache.rows.length = 1 ∧
      ∀ d ∈ st.treeCache.rows, st.disk d.key = .entries d.entries := by
  obtain ⟨st, hr, hrest, hlen⟩ : ∃ st ∈ Runs.run step (init (rootWith []))
      (createdFile ++ [.settle 0] ++ anotherFile ++ [.listDir 0, .settle 0]),
      (st.calls = [] ∧ st.unreported = []) ∧ st.treeCache.rows.length = 1 := by
    decide +kernel
  exact ⟨st, hr, hlen, cache_eq_disk (rootWith []) _ (by decide +kernel) hr hrest⟩

/-- The refresh after the first file is taken over last. -/
theorem late_refresh_kept : ¬∀ (disk : FsKey → Listing) (as : List DirAction) (st : DirState),
    Runs.run step (init disk) as = some st → st.AtRest →
      ∀ d ∈ st.treeCache.rows, st.disk d.key = .entries d.entries := by
  intro h
  obtain ⟨st, hr, hrest, hstale⟩ : ∃ st ∈ Runs.run step (init (rootWith []))
      (createdFile ++ anotherFile ++ [.listDir 1, .settle 1, .settle 0]),
      (st.calls = [] ∧ st.unreported = []) ∧
        ∃ d ∈ st.treeCache.rows, st.disk d.key ≠ .entries d.entries := by
    decide +kernel
  obtain ⟨d, hd, hne⟩ := hstale
  exact hne (h _ _ st hr hrest d hd)

end LateRefresh

end DirState

end BuilderPro
