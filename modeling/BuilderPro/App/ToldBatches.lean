import BuilderPro.App.ToldPaths

/-!
# What a batch tells

Each path is an entry of the batch or says that a root is gone (`Watch.note_eq`), and the events are
made of the entries of each root (`Watch.changed_mem_events`) and of the roots that are gone
(`Watch.exists_watchError`).
-/

namespace BuilderPro

namespace FsWatch

variable {rel path c d : NamePath}

namespace Watch

variable {w : Watch} {root r reason : String} {m : RootMatcher} {raw : List NamePath}

/-- The entry a path makes in a bucket. -/
def entryOf (w : Watch) (path : NamePath) : Option (String × String) :=
  match route w.matchers path with
  | none => none
  | some (m, rel) =>
    if isGitInternal rel then none
    else if relToWireString rel = "" then
      if w.now.pathExists path then some (m.root, "*") else none
    else if m.gitignore rel (w.now.isDir path) = .ignore ∧ !w.showIgnored then none
    else some (m.root, relToWireString rel)

/-- The root that has vanished, if a path tells so. -/
def vanishOf (w : Watch) (path : NamePath) : Option String :=
  match route w.matchers path with
  | none => none
  | some (m, rel) =>
    if !isGitInternal rel ∧ relToWireString rel = "" ∧ !w.now.pathExists path then some m.root
    else none

/-- The first path of a vanished root is kept. -/
def vanish (w : Watch) (v : KeyedTable (Prod.fst : String × NamePath → String)) (path : NamePath) :
    KeyedTable (Prod.fst : String × NamePath → String) :=
  match w.vanishOf path with
  | none => v
  | some root => (v.insert (root, path)).getD v

def batch (w : Watch) (raw : List NamePath) : Batch :=
  raw.foldl (Batch.note w.now w.matchers w.showIgnored) .empty

theorem events_eq (w : Watch) (raw : List NamePath) : w.events raw = (w.batch raw).events := rfl

theorem note_eq (b : Batch) (path : NamePath) : Batch.note w.now w.matchers w.showIgnored b path =
    ⟨(w.entryOf path).elim b.buckets fun x => insert x b.buckets,
      w.vanish b.vanishedRoots path⟩ := by
  unfold Batch.note vanish entryOf vanishOf
  rcases route w.matchers path with _ | ⟨m, rel⟩
  · rfl
  · by_cases hgit : isGitInternal rel
    · simp [hgit]
    · by_cases hself : relToWireString rel = ""
      · by_cases hexists : w.now.pathExists path <;> simp [hgit, hself, hexists]
      · by_cases hignored : m.gitignore rel (w.now.isDir path) = .ignore ∧ !w.showIgnored
        · simp [hgit, hself, hignored]
        · simp only [hgit, hself, hignored]
          simp

theorem mem_buckets_foldl {b : Batch} {x : String × String} :
    x ∈ (raw.foldl (Batch.note w.now w.matchers w.showIgnored) b).buckets ↔
      x ∈ b.buckets ∨ ∃ path ∈ raw, w.entryOf path = some x := by
  induction raw generalizing b with
  | nil => simp
  | cons path raw ih =>
    rw [List.foldl_cons, ih, note_eq]
    simp only [List.mem_cons, exists_eq_or_imp]
    rcases w.entryOf path with _ | y
    · simp
    · simp only [Option.elim_some, Finset.mem_insert, Option.some.injEq, eq_comm (a := x)]
      tauto

theorem mem_buckets {x : String × String} :
    x ∈ (w.batch raw).buckets ↔ ∃ path ∈ raw, w.entryOf path = some x := by
  rw [batch, mem_buckets_foldl]
  simp [Batch.empty]

theorem vanishedRoots_foldl (b : Batch) :
    (raw.foldl (Batch.note w.now w.matchers w.showIgnored) b).vanishedRoots =
      raw.foldl w.vanish b.vanishedRoots := by
  induction raw generalizing b with
  | nil => rfl
  | cons path raw ih => rw [List.foldl_cons, List.foldl_cons, ih, note_eq]

theorem exists_vanished {v : KeyedTable (Prod.fst : String × NamePath → String)} :
    (∃ x ∈ (raw.foldl w.vanish v).rows, x.1 = r) ↔
      (∃ x ∈ v.rows, x.1 = r) ∨ ∃ path ∈ raw, w.vanishOf path = some r := by
  induction raw generalizing v with
  | nil => simp
  | cons path raw ih =>
    rw [List.foldl_cons, ih]
    simp only [List.mem_cons, exists_eq_or_imp]
    unfold vanish
    rcases w.vanishOf path with _ | root
    · simp
    · rw [KeyedTable.exists_row, KeyedTable.exists_row, KeyedTable.isSome_lookup_insert_getD]
      simp only [Option.some.injEq, eq_comm (a := r), or_assoc]

/-- A path that is not git's own and not itself ignored. -/
def Heard (w : Watch) (c path : NamePath) : Prop :=
  dotGit ∉ path.drop c.length ∧ (w.showIgnored = false →
    buildRootGitignore w.started c (path.drop c.length) (w.now.isDir path) ≠ .ignore)

theorem drop_ne_nil (h : w.Owns c path) (hne : path ≠ c) : path.drop c.length ≠ [] := by
  intro hnil
  rw [List.drop_eq_nil_iff] at hnil
  exact hne (h.below.eq_of_length (h.below.length_le.antisymm hnil)).symm

theorem wanted_self (w : Watch) (c : NamePath) : w.Wanted c c := by
  refine ⟨by simp, fun _ => ?_⟩
  rintro ⟨a, ha, hunder, -⟩
  rw [List.drop_length, List.prefix_nil] at hunder
  exact ha hunder

theorem Wanted.heard (h : w.Wanted c path) (hbelow : path.drop c.length ≠ []) :
    w.Heard c path :=
  ⟨h.notGit, fun hshow hignored =>
    h.notIgnored hshow ⟨_, hbelow, List.prefix_rfl, by simpa using hignored⟩⟩

theorem entryOf_self (hm : w.teller c = some m) :
    w.entryOf c = if w.now.pathExists c then some (m.root, "*") else none := by
  obtain ⟨hroot, hc, -, -⟩ := teller_spec hm
  rw [entryOf, route_of_owns (owns_self hroot hc), hm, Option.map_some, List.drop_length]
  simp [isGitInternal, relToWireString_eq_empty]

theorem entryOf_below (h : w.Owns c path) (hm : w.teller c = some m) (hne : path ≠ c)
    {x : String × String} : w.entryOf path = some x ↔
      w.Heard c path ∧ x = (m.root, relToWireString (path.drop c.length)) := by
  obtain ⟨-, -, -, hgitignore⟩ := teller_spec hm
  rw [entryOf, route_of_owns h, hm, Option.map_some]
  simp only [relToWireString_eq_empty, drop_ne_nil h hne, if_false, isGitInternal, hgitignore,
    Heard, decide_eq_true_eq, Bool.not_eq_true', ne_eq]
  by_cases hgit : dotGit ∈ path.drop c.length
  · simp [hgit]
  · by_cases hshow : w.showIgnored = true
    · simp only [hgit, hshow, if_false, and_false, not_false_eq_true, Option.some.injEq,
        reduceCtorEq, false_implies, true_and]
      exact eq_comm
    · by_cases hignored :
          buildRootGitignore w.started c (path.drop c.length) (w.now.isDir path) = .ignore
      · simp [hgit, hshow, hignored]
      · simp only [hgit, hignored, if_false, false_and, not_false_eq_true, Option.some.injEq,
          implies_true, true_and]
        exact eq_comm

theorem owns_of_entryOf {x : String × String} (h : w.entryOf path = some x) :
    ∃ c m, w.Owns c path ∧ w.teller c = some m ∧ m.root = x.1 := by
  rcases hroute : route w.matchers path with _ | y
  · simp [entryOf, hroute] at h
  · have howns := owns_of_route hroute
    obtain ⟨m, hm⟩ := howns.exists_teller
    refine ⟨_, m, howns, hm, ?_⟩
    by_cases hself : path = y.1.rootPath
    · rw [← hself] at hm
      rw [entryOf_self hm] at h
      split_ifs at h
      rw [← Option.some.inj h]
    · obtain ⟨-, rfl⟩ := (entryOf_below howns hm hself).1 h
      rfl

theorem vanishOf_eq_some : w.vanishOf path = some r ↔
    ∃ m, w.teller path = some m ∧ m.root = r ∧ ¬w.now.pathExists path := by
  constructor
  · intro h
    rcases hroute : route w.matchers path with _ | y
    · simp [vanishOf, hroute] at h
    · have howns := owns_of_route hroute
      obtain ⟨m, hm⟩ := howns.exists_teller
      rw [vanishOf, route_of_owns howns, hm, Option.map_some] at h
      simp only [relToWireString_eq_empty] at h
      split_ifs at h with hcond
      obtain ⟨-, hnil, hgone⟩ := hcond
      by_cases hself : path = y.1.rootPath
      · rw [← hself] at hm
        exact ⟨m, hm, Option.some.inj h, by simpa using hgone⟩
      · exact absurd hnil (drop_ne_nil howns hself)
  · rintro ⟨m, hm, rfl, hgone⟩
    obtain ⟨hroot, hc, -, -⟩ := teller_spec hm
    rw [vanishOf, route_of_owns (owns_self hroot hc), hm, Option.map_some, List.drop_length]
    simp [isGitInternal, relToWireString_eq_empty, hgone]

/-- The root that is told of a directory is told of no other. -/
theorem eq_of_teller {m' : RootMatcher} (hm : w.teller c = some m) (hm' : w.teller d = some m')
    (hroot : m.root = m'.root) : c = d := by
  obtain ⟨-, hc, -, -⟩ := teller_spec hm
  obtain ⟨-, hd, -, -⟩ := teller_spec hm'
  rw [hroot, hd] at hc
  simpa using hc.symm

theorem mem_bucket (hm : w.teller c = some m) {s : String} :
    s ∈ (w.batch raw).bucket m.root ↔ (c ∈ raw ∧ w.now.pathExists c) ∧ s = "*" ∨
      ∃ path ∈ raw, (w.Owns c path ∧ w.Heard c path ∧ path ≠ c) ∧
        relToWireString (path.drop c.length) = s := by
  have hpair : s ∈ (w.batch raw).bucket m.root ↔ (m.root, s) ∈ (w.batch raw).buckets := by
    simp [Batch.bucket]
  rw [hpair, mem_buckets]
  constructor
  · rintro ⟨path, hpath, hentry⟩
    obtain ⟨d, m', howns, hm', hroot⟩ := owns_of_entryOf hentry
    obtain rfl := eq_of_teller hm' hm hroot
    by_cases hself : path = d
    · subst hself
      rw [entryOf_self hm] at hentry
      split_ifs at hentry with hexists
      exact .inl ⟨⟨hpath, hexists⟩, (congrArg Prod.snd (Option.some.inj hentry)).symm⟩
    · obtain ⟨hheard, hx⟩ := (entryOf_below howns hm hself).1 hentry
      exact .inr ⟨path, hpath, ⟨howns, hheard, hself⟩, (congrArg Prod.snd hx).symm⟩
  · rintro (⟨⟨hc, hexists⟩, rfl⟩ | ⟨path, hpath, ⟨howns, hheard, hself⟩, rfl⟩)
    · exact ⟨c, hc, by rw [entryOf_self hm, if_pos hexists]⟩
    · exact ⟨path, hpath, (entryOf_below howns hm hself).2 ⟨hheard, rfl⟩⟩

/-! ### The events -/

theorem mem_bucketPaths {set : Finset String} {s : String} (hs : s ≠ "*") :
    s ∈ bucketPaths set ↔ ¬(watchPathCap < set.card ∨ "*" ∈ set) ∧ s ∈ set := by
  unfold bucketPaths
  split_ifs with hwhole
  · simp [hs, hwhole]
  · simp [hwhole]

theorem sentinel_mem_bucketPaths {set : Finset String} :
    "*" ∈ bucketPaths set ↔ watchPathCap < set.card ∨ "*" ∈ set := by
  unfold bucketPaths
  split_ifs with hwhole
  · simp [hwhole]
  · rw [Finset.mem_sort]
    exact ⟨.inr, fun h => absurd h hwhole⟩

theorem length_bucketPaths_le (set : Finset String) : (bucketPaths set).length ≤ watchPathCap := by
  unfold bucketPaths
  split_ifs with hwhole
  · simp [watchPathCap]
  · rw [Finset.length_sort]
    omega

theorem mem_roots_of_buckets (hr : ∃ s, (r, s) ∈ (w.batch raw).buckets) :
    ∃ c m, w.teller c = some m ∧ m.root = r := by
  obtain ⟨s, hs⟩ := hr
  obtain ⟨path, -, hentry⟩ := mem_buckets.1 hs
  obtain ⟨c, m, -, hm, hroot⟩ := owns_of_entryOf hentry
  exact ⟨c, m, hm, hroot⟩

theorem changed_mem_events {relPaths : List String} :
    .changed r relPaths ∈ w.events raw ↔ (∃ c m, w.teller c = some m ∧ m.root = r) ∧
      ((w.batch raw).bucket r).Nonempty ∧ relPaths = bucketPaths ((w.batch raw).bucket r) := by
  have hbuckets : (∃ s, (r, s) ∈ (w.batch raw).buckets) ↔ ((w.batch raw).bucket r).Nonempty := by
    simp [Finset.Nonempty, Batch.bucket]
  rw [← hbuckets, events_eq, Batch.events, List.mem_append]
  constructor
  · rintro (hmem | hmem)
    · obtain ⟨r', hr', heq⟩ := List.mem_map.1 hmem
      rw [Finset.mem_sort, Finset.mem_image] at hr'
      obtain ⟨⟨r'', s⟩, hs, rfl⟩ := hr'
      obtain ⟨rfl, rfl⟩ := FsEvent.changed.inj heq
      exact ⟨mem_roots_of_buckets ⟨s, hs⟩, ⟨s, hs⟩, rfl⟩
    · obtain ⟨x, -, heq⟩ := List.mem_map.1 hmem
      simp at heq
  · rintro ⟨-, ⟨s, hs⟩, rfl⟩
    refine .inl (List.mem_map.2 ⟨r, ?_, rfl⟩)
    rw [Finset.mem_sort, Finset.mem_image]
    exact ⟨(r, s), hs, rfl⟩

theorem exists_watchError : (∃ reason, .watchError r reason ∈ w.events raw) ↔
    ∃ c ∈ raw, ∃ m, w.teller c = some m ∧ m.root = r ∧ ¬w.now.pathExists c := by
  have hrows : (∃ x ∈ (w.batch raw).vanishedRoots.rows, x.1 = r) ↔
      ∃ c ∈ raw, ∃ m, w.teller c = some m ∧ m.root = r ∧ ¬w.now.pathExists c := by
    rw [batch, vanishedRoots_foldl, exists_vanished]
    simp [Batch.empty, KeyedTable.empty, vanishOf_eq_some]
  rw [← hrows, events_eq, Batch.events]
  constructor
  · rintro ⟨reason, hmem⟩
    rcases List.mem_append.1 hmem with hmem | hmem
    · obtain ⟨r', -, heq⟩ := List.mem_map.1 hmem
      simp at heq
    · obtain ⟨x, hx, heq⟩ := List.mem_map.1 hmem
      exact ⟨x, List.mem_mergeSort.1 hx, (FsEvent.watchError.inj heq).1⟩
  · rintro ⟨x, hx, rfl⟩
    exact ⟨_, List.mem_append_right _ (List.mem_map.2 ⟨x, List.mem_mergeSort.2 hx, rfl⟩)⟩

end Watch

end FsWatch

end BuilderPro
