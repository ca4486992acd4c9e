import BuilderPro.App.ToldBatches

/-!
# What a batch of raw paths tells the roots

What the paths of a batch ask for is told, to every root, and nothing else, exactly when no root is
asked for under two names, every path told has a name that can be told, and no path is there that is
ignored by a directory it lies in (`losesNothing_iff`).
-/

namespace BuilderPro

namespace FsWatch

variable {rel path c d : NamePath}

namespace Watch

variable {w : Watch} {root r reason : String} {m : RootMatcher} {raw : List NamePath}

theorem mem_wires {s : String} : s ∈ w.wires raw c ↔
    ∃ path ∈ raw, (w.Owns c path ∧ w.Wanted c path ∧ path ≠ c) ∧
      relToWireString (path.drop c.length) = s := by
  simp [wires, and_assoc]

theorem mem_wantedPaths (h : w.Owns c path) :
    path ∈ w.wantedPaths raw ↔ path ∈ raw ∧ w.Wanted c path := by
  simp only [wantedPaths, List.mem_filter, decide_eq_true_eq]
  refine and_congr_right fun _ => ⟨fun hall => hall c h, fun hwanted d hd => ?_⟩
  rw [hd.unique h]
  exact hwanted

theorem self_mem_wantedPaths (hm : w.teller c = some m) : c ∈ w.wantedPaths raw ↔ c ∈ raw := by
  obtain ⟨hroot, hc, -, -⟩ := teller_spec hm
  rw [mem_wantedPaths (owns_self hroot hc)]
  exact ⟨And.left, fun h => ⟨h, w.wanted_self c⟩⟩

/-- What is told of the paths that are wanted. -/
theorem mem_bucket_wanted (hm : w.teller c = some m) {s : String} :
    s ∈ (w.batch (w.wantedPaths raw)).bucket m.root ↔
      (c ∈ raw ∧ w.now.pathExists c) ∧ s = "*" ∨ s ∈ w.wires raw c := by
  rw [mem_bucket hm, mem_wires, self_mem_wantedPaths hm]
  refine or_congr_right ⟨?_, ?_⟩
  · rintro ⟨path, hpath, ⟨howns, -, hself⟩, rfl⟩
    obtain ⟨hmem, hwanted⟩ := (mem_wantedPaths howns).1 hpath
    exact ⟨path, hmem, ⟨howns, hwanted, hself⟩, rfl⟩
  · rintro ⟨path, hpath, ⟨howns, hwanted, hself⟩, rfl⟩
    exact ⟨path, (mem_wantedPaths howns).2 ⟨hpath, hwanted⟩,
      ⟨howns, hwanted.heard (drop_ne_nil howns hself), hself⟩, rfl⟩

theorem bucket_wanted_subset (hm : w.teller c = some m) :
    (w.batch (w.wantedPaths raw)).bucket m.root ⊆ (w.batch raw).bucket m.root := by
  intro s hs
  rw [mem_bucket_wanted hm, mem_wires] at hs
  rw [mem_bucket hm]
  rcases hs with hself | ⟨path, hpath, ⟨howns, hwanted, hself⟩, rfl⟩
  · exact .inl hself
  · exact .inr ⟨path, hpath, ⟨howns, hwanted.heard (drop_ne_nil howns hself), hself⟩, rfl⟩

theorem wholesale_iff (hm : w.teller c = some m) : w.Wholesale raw c ↔
    watchPathCap < ((w.batch (w.wantedPaths raw)).bucket m.root).card ∨
      "*" ∈ (w.batch (w.wantedPaths raw)).bucket m.root := by
  unfold Wholesale
  rw [mem_bucket_wanted hm]
  by_cases hself : c ∈ raw ∧ w.now.pathExists c
  · simp [hself]
  · have hsame : (w.batch (w.wantedPaths raw)).bucket m.root = w.wires raw c := by
      refine Finset.ext fun s => ?_
      rw [mem_bucket_wanted hm]
      simp [hself]
    rw [hsame]
    simp only [hself, false_and, false_or]
    exact or_comm

theorem Wholesale.bucket (h : w.Wholesale raw c) (hm : w.teller c = some m) :
    watchPathCap < ((w.batch raw).bucket m.root).card ∨ "*" ∈ (w.batch raw).bucket m.root := by
  have hsub : (w.batch (w.wantedPaths raw)).bucket m.root ⊆ (w.batch raw).bucket m.root :=
    bucket_wanted_subset hm
  rcases (wholesale_iff hm).1 h with hcard | hstar
  · exact .inl (hcard.trans_le (Finset.card_le_card hsub))
  · exact .inr (hsub hstar)

/-! ### When nothing is lost -/

/-- What is told of a path that is not wanted. -/
theorem Heard.ignoredWithin (h : w.Heard c path) (hwanted : ¬w.Wanted c path) :
    w.showIgnored = false ∧ dotGit ∉ path.drop c.length ∧
      buildRootGitignore w.started c (path.drop c.length) (w.now.isDir path) ≠ .ignore := by
  have hshow : w.showIgnored = false := by
    by_contra hshow
    exact hwanted ⟨h.1, fun h' => absurd h' hshow⟩
  exact ⟨hshow, h.1, h.2 hshow⟩

theorem bucket_eq (ht : w.Tellable raw) (hm : w.teller c = some m) (hwhole : ¬w.Wholesale raw c) :
    (w.batch raw).bucket m.root = (w.batch (w.wantedPaths raw)).bucket m.root := by
  refine Finset.Subset.antisymm (fun s hs => ?_) (bucket_wanted_subset hm)
  rw [mem_bucket hm] at hs
  rw [mem_bucket_wanted hm]
  rcases hs with hself | ⟨path, hpath, ⟨howns, hheard, hself⟩, rfl⟩
  · exact .inl hself
  · by_cases hwanted : w.Wanted c path
    · exact .inr (mem_wires.2 ⟨path, hpath, ⟨howns, hwanted, hself⟩, rfl⟩)
    · obtain ⟨-, hgit, hignored⟩ := hheard.ignoredWithin hwanted
      rcases ht.ignoredThemselves path hpath c howns hwanted with h | h | h | h
      · exact absurd h hgit
      · exact absurd h hignored
      · exact absurd h hwhole
      · exact .inr h

theorem bucketPaths_eq (ht : w.Tellable raw) (hm : w.teller c = some m) :
    bucketPaths ((w.batch (w.wantedPaths raw)).bucket m.root) =
      bucketPaths ((w.batch raw).bucket m.root) := by
  by_cases hwhole : w.Wholesale raw c
  · unfold bucketPaths
    rw [if_pos ((wholesale_iff hm).1 hwhole), if_pos (hwhole.bucket hm)]
  · rw [bucket_eq ht hm hwhole]

theorem nonempty_of_whole {set : Finset String} (h : watchPathCap < set.card ∨ "*" ∈ set) :
    set.Nonempty := by
  rcases h with hcard | hstar
  · exact Finset.card_pos.1 (by omega)
  · exact ⟨_, hstar⟩

theorem bucket_nonempty_iff (ht : w.Tellable raw) (hm : w.teller c = some m) :
    ((w.batch (w.wantedPaths raw)).bucket m.root).Nonempty ↔
      ((w.batch raw).bucket m.root).Nonempty := by
  by_cases hwhole : w.Wholesale raw c
  · exact iff_of_true (nonempty_of_whole ((wholesale_iff hm).1 hwhole))
      (nonempty_of_whole (hwhole.bucket hm))
  · rw [bucket_eq ht hm hwhole]

theorem vanishedRoots_wanted (w : Watch) (raw : List NamePath) :
    (w.batch (w.wantedPaths raw)).vanishedRoots = (w.batch raw).vanishedRoots := by
  rw [batch, batch, vanishedRoots_foldl, vanishedRoots_foldl, wantedPaths, List.foldl_filter]
  congr 1
  funext v path
  split_ifs with hwanted
  · rfl
  · rw [vanish]
    rcases hgone : w.vanishOf path with _ | r
    · rfl
    · obtain ⟨m, hm, -⟩ := vanishOf_eq_some.1 hgone
      obtain ⟨hroot, hc, -, -⟩ := teller_spec hm
      have hself : ∀ c, w.Owns c path → w.Wanted c path := by
        intro c hc'
        rw [hc'.unique (owns_self hroot hc)]
        exact w.wanted_self path
      exact absurd (by simpa using hself) hwanted

theorem silent_of_tellable (ht : w.Tellable raw) :
    w.events (w.wantedPaths raw) = w.events raw := by
  have hroots : (w.batch (w.wantedPaths raw)).buckets.image Prod.fst =
      (w.batch raw).buckets.image Prod.fst := by
    have hbucket (b : Batch) (r : String) :
        r ∈ b.buckets.image Prod.fst ↔ (b.bucket r).Nonempty := by
      simp [Finset.Nonempty, Batch.bucket]
    have hteller {raw' : List NamePath} {r : String}
        (hr : r ∈ (w.batch raw').buckets.image Prod.fst) :
        ∃ c m, w.teller c = some m ∧ m.root = r := by
      obtain ⟨⟨r', s⟩, hs, rfl⟩ := Finset.mem_image.1 hr
      exact mem_roots_of_buckets ⟨s, hs⟩
    refine Finset.ext fun r => ⟨fun hr => ?_, fun hr => ?_⟩
    all_goals
      obtain ⟨c, m, hm, rfl⟩ := hteller hr
      rw [hbucket] at hr ⊢
    · exact (bucket_nonempty_iff ht hm).1 hr
    · exact (bucket_nonempty_iff ht hm).2 hr
  rw [events_eq, events_eq, Batch.events, Batch.events, hroots, vanishedRoots_wanted]
  congr 1
  refine List.map_congr_left fun r hr => ?_
  rw [Finset.mem_sort, Finset.mem_image] at hr
  obtain ⟨⟨r', s⟩, hs, rfl⟩ := hr
  obtain ⟨c, m, hm, hroot⟩ := mem_roots_of_buckets ⟨s, hs⟩
  rw [← hroot, bucketPaths_eq ht hm]

theorem covered_of_tellable (ht : w.Tellable raw) (hpath : path ∈ raw) (howns : w.Owns c path)
    (hwanted : w.Wanted c path) (hm : w.teller c = some m) :
    ∃ ev ∈ w.events raw, Covers m.root (path.drop c.length) ev := by
  have hsentinel (hwhole : w.Wholesale raw c) :
      ∃ ev ∈ w.events raw, Covers m.root (path.drop c.length) ev :=
    ⟨_, changed_mem_events.2 ⟨⟨c, m, hm, rfl⟩, nonempty_of_whole (hwhole.bucket hm), rfl⟩,
      rfl, .inr (sentinel_mem_bucketPaths.2 (hwhole.bucket hm))⟩
  have hgone (h : c ∈ raw ∧ ¬w.now.pathExists c) :
      ∃ ev ∈ w.events raw, Covers m.root (path.drop c.length) ev := by
    obtain ⟨reason, hmem⟩ := exists_watchError.2 ⟨c, h.1, m, hm, rfl, h.2⟩
    exact ⟨_, hmem, rfl⟩
  by_cases hself : path = c
  · subst hself
    by_cases hexists : w.now.pathExists path
    · exact hsentinel (.inl ⟨hpath, hexists⟩)
    · exact hgone ⟨hpath, hexists⟩
  · rcases ht.plain path hpath c howns hwanted with hplain | hwhole | ⟨h, -⟩
    · have hmem : relToWireString (path.drop c.length) ∈ (w.batch raw).bucket m.root :=
        bucket_wanted_subset hm ((mem_bucket_wanted hm).2
          (.inr (mem_wires.2 ⟨path, hpath, ⟨howns, hwanted, hself⟩, rfl⟩)))
      refine ⟨_, changed_mem_events.2 ⟨⟨c, m, hm, rfl⟩, ⟨_, hmem⟩, rfl⟩, rfl, ?_⟩
      by_cases hwhole : watchPathCap < ((w.batch raw).bucket m.root).card ∨
          "*" ∈ (w.batch raw).bucket m.root
      · exact .inr (sentinel_mem_bucketPaths.2 hwhole)
      · have hne : relToWireString (path.drop c.length) ≠ "*" :=
          fun heq => hwhole (.inr (heq ▸ hmem))
        exact .inl ⟨_, (mem_bucketPaths hne).2 ⟨hwhole, hmem⟩, plain_iff.1 hplain⟩
    · exact hsentinel hwhole
    · exact hgone h

theorem owned_of_tellable (ht : w.Tellable raw) (hm : w.teller c = some m) {s : String}
    (hs : s ∈ bucketPaths ((w.batch raw).bucket m.root)) (hstar : s ≠ "*") :
    ∃ path ∈ raw, w.Owns c path ∧ Utf8.bytes s = relBytes (path.drop c.length) := by
  obtain ⟨hwhole, hs⟩ := (mem_bucketPaths hstar).1 hs
  have hnot : ¬w.Wholesale raw c := fun h => hwhole (h.bucket hm)
  rw [bucket_eq ht hm hnot, mem_bucket_wanted hm] at hs
  have hwire : s ∈ w.wires raw c := hs.resolve_left fun h => hstar h.2
  obtain ⟨path, hpath, ⟨howns, hwanted, -⟩, rfl⟩ := mem_wires.1 hwire
  rcases ht.plain path hpath c howns hwanted with hplain | h | ⟨-, other, hother, hown, heq⟩
  · exact ⟨path, hpath, howns, plain_iff.1 hplain⟩
  · exact absurd h hnot
  · exact ⟨other, hother, hown, heq.symm⟩

theorem losesNothing_of_tellable (ht : w.Tellable raw) : w.LosesNothing raw := by
  refine ⟨fun path hpath c howns hwanted root hroot hc => ?_, silent_of_tellable ht,
    fun r relPaths hev => ?_, fun r relPaths hev => ?_⟩
  · obtain ⟨m, hm⟩ := howns.exists_teller
    obtain ⟨hmroot, hmc, -, -⟩ := teller_spec hm
    obtain rfl : root = m.root :=
      ht.oneSpelling path hpath c howns hwanted m.root hmroot hmc root hroot hc
    exact covered_of_tellable ht hpath howns hwanted hm
  · obtain ⟨⟨c, m, hm, rfl⟩, hnonempty, rfl⟩ := changed_mem_events.1 hev
    obtain ⟨hmroot, hmc, -, -⟩ := teller_spec hm
    refine ⟨c, hmc, ?_, fun s hs hstar => owned_of_tellable ht hm hs hstar⟩
    obtain ⟨s, hs⟩ := hnonempty
    rcases (mem_bucket hm).1 hs with ⟨⟨hc, -⟩, -⟩ | ⟨path, hpath, ⟨howns, -⟩, -⟩
    · exact ⟨c, hc, owns_self hmroot hmc⟩
    · exact ⟨path, hpath, howns⟩
  · obtain ⟨-, -, rfl⟩ := changed_mem_events.1 hev
    exact length_bucketPaths_le _

/-- What one root is told is what is wanted of it. -/
theorem LosesNothing.bucketPaths_eq (hl : w.LosesNothing raw) (hm : w.teller c = some m)
    (hnonempty : ((w.batch raw).bucket m.root).Nonempty) :
    bucketPaths ((w.batch raw).bucket m.root) =
      bucketPaths ((w.batch (w.wantedPaths raw)).bucket m.root) := by
  have hev := changed_mem_events.2 ⟨⟨c, m, hm, rfl⟩, hnonempty, rfl⟩
  rw [← hl.silent] at hev
  exact (changed_mem_events.1 hev).2.2

theorem LosesNothing.whole_iff (hl : w.LosesNothing raw) (hm : w.teller c = some m) :
    (watchPathCap < ((w.batch raw).bucket m.root).card ∨ "*" ∈ (w.batch raw).bucket m.root) ↔
      w.Wholesale raw c := by
  refine ⟨fun hwhole => ?_, fun h => h.bucket hm⟩
  have heq := hl.bucketPaths_eq hm (nonempty_of_whole hwhole)
  rw [← sentinel_mem_bucketPaths, heq, sentinel_mem_bucketPaths] at hwhole
  exact (wholesale_iff hm).2 hwhole

/-- Where no root is told as a whole, what it is told is what is wanted. -/
theorem LosesNothing.mem_wires (hl : w.LosesNothing raw) (hm : w.teller c = some m)
    (hnot : ¬w.Wholesale raw c) {s : String} (hs : s ∈ (w.batch raw).bucket m.root) :
    s ∈ w.wires raw c := by
  have hstar : s ≠ "*" := by
    rintro rfl
    exact hnot ((hl.whole_iff hm).1 (.inr hs))
  have hmem := (mem_bucketPaths hstar).2 ⟨mt (hl.whole_iff hm).1 hnot, hs⟩
  rw [hl.bucketPaths_eq hm ⟨s, hs⟩, mem_bucketPaths hstar] at hmem
  exact ((mem_bucket_wanted hm).1 hmem.2).resolve_left fun h => hstar h.2

/-- The event that covers a path is of the root that is told of its directory. -/
theorem eq_teller_of_covers {ev : FsEvent} (hc : w.started.canonicalize root = .ok c)
    (hev : ev ∈ w.events raw) (hcovers : Covers root rel ev) :
    ∃ m, w.teller c = some m ∧ m.root = root := by
  have hteller : ∃ d m, w.teller d = some m ∧ m.root = root := by
    rcases ev with ⟨r, relPaths⟩ | ⟨r, reason⟩
    · obtain ⟨rfl, -⟩ := hcovers
      exact (changed_mem_events.1 hev).1
    · obtain rfl : r = root := hcovers
      obtain ⟨d, -, m, hm, hroot, -⟩ := exists_watchError.1 ⟨reason, hev⟩
      exact ⟨d, m, hm, hroot⟩
  obtain ⟨d, m, hm, rfl⟩ := hteller
  obtain ⟨-, hd, -, -⟩ := teller_spec hm
  obtain rfl : c = d := by
    rw [hd] at hc
    simpa using hc.symm
  exact ⟨m, hm, rfl⟩

/-- A path that is listed as itself has a name that can be told. -/
theorem LosesNothing.plain_of_changed (hl : w.LosesNothing raw) (hm : w.teller c = some m)
    (hnot : ¬w.Wholesale raw c) {relPaths : List String}
    (hev : .changed m.root relPaths ∈ w.events raw)
    (hcovers : Covers m.root rel (.changed m.root relPaths)) : Plain rel := by
  obtain ⟨-, hlisted⟩ := hcovers
  obtain ⟨-, -, rfl⟩ := changed_mem_events.1 hev
  have hwhole := mt (hl.whole_iff hm).1 hnot
  rw [sentinel_mem_bucketPaths] at hlisted
  obtain ⟨s, hs, hbytes⟩ := hlisted.resolve_right hwhole
  have hstar : s ≠ "*" := by
    rintro rfl
    exact hwhole (sentinel_mem_bucketPaths.1 hs)
  obtain ⟨told, -, -, rfl⟩ :=
    Watch.mem_wires.1 (hl.mem_wires hm hnot ((mem_bucketPaths hstar).1 hs).2)
  exact plain_of_bytes hbytes

/-- What a path is listed as is the name of some path of its root. -/
theorem LosesNothing.exists_named (hl : w.LosesNothing raw) (hpath : path ∈ raw)
    (howns : w.Owns c path) (hwanted : w.Wanted c path) (hself : path ≠ c)
    (hnot : ¬w.Wholesale raw c) : ∃ other ∈ raw, w.Owns c other ∧
      relBytes (other.drop c.length) = Utf8.bytes (relToWireString (path.drop c.length)) := by
  obtain ⟨m, hm⟩ := howns.exists_teller
  obtain ⟨-, hmc, -, -⟩ := teller_spec hm
  have hmem := bucket_wanted_subset hm ((mem_bucket_wanted hm).2
    (.inr (Watch.mem_wires.2 ⟨path, hpath, ⟨howns, hwanted, hself⟩, rfl⟩)))
  have hwhole := mt (hl.whole_iff hm).1 hnot
  have hne : relToWireString (path.drop c.length) ≠ "*" :=
    fun heq => hwhole (.inr (heq ▸ hmem))
  obtain ⟨d, hd, -, howned⟩ :=
    hl.owned _ _ (changed_mem_events.2 ⟨⟨c, m, hm, rfl⟩, ⟨_, hmem⟩, rfl⟩)
  obtain rfl : c = d := by
    rw [hmc] at hd
    simpa using hd
  obtain ⟨other, hother, hown, heq⟩ := howned _ ((mem_bucketPaths hne).2 ⟨hwhole, hmem⟩) hne
  exact ⟨other, hother, hown, heq.symm⟩

theorem tellable_of_losesNothing (hl : w.LosesNothing raw) : w.Tellable raw := by
  refine ⟨fun path hpath c howns hwanted root hroot hc other hother hoc => ?_,
    fun path hpath c howns hwanted => ?_, fun path hpath c howns hwanted => ?_⟩
  · obtain ⟨ev, hev, hcovers⟩ := hl.covered path hpath c howns hwanted root hroot hc
    obtain ⟨ev', hev', hcovers'⟩ := hl.covered path hpath c howns hwanted other hother hoc
    obtain ⟨m, hm, rfl⟩ := eq_teller_of_covers hc hev hcovers
    obtain ⟨m', hm', rfl⟩ := eq_teller_of_covers hoc hev' hcovers'
    rw [Option.some.inj (hm.symm.trans hm')]
  · by_contra hnone
    rw [not_or, not_or] at hnone
    obtain ⟨hplain, hnot, hgone⟩ := hnone
    obtain ⟨m, hm⟩ := howns.exists_teller
    obtain ⟨hmroot, hmc, -, -⟩ := teller_spec hm
    have hself : path ≠ c := by
      rintro rfl
      have hempty : relToWireString [] = "" := relToWireString_eq_empty.2 rfl
      rw [List.drop_length, plain_iff, hempty, relBytes_eq_nil.2 rfl] at hplain
      exact hplain (by simp [Utf8.bytes_eq])
    obtain ⟨ev, hev, hcovers⟩ := hl.covered path hpath c howns hwanted m.root hmroot hmc
    rcases ev with ⟨r, relPaths⟩ | ⟨r, reason⟩
    · obtain rfl : r = m.root := hcovers.1
      exact hplain (hl.plain_of_changed hm hnot hev hcovers)
    · obtain rfl : r = m.root := hcovers
      obtain ⟨d, hd, m', hm', hroot, hmissing⟩ := exists_watchError.1 ⟨reason, hev⟩
      obtain rfl := eq_of_teller hm' hm hroot
      exact hgone ⟨⟨hd, hmissing⟩, hl.exists_named hpath howns hwanted hself hnot⟩
  · by_contra hnone
    simp only [not_or] at hnone
    obtain ⟨hgit, hignored, hnot, hwire⟩ := hnone
    obtain ⟨m, hm⟩ := howns.exists_teller
    have hself : path ≠ c := by
      rintro rfl
      exact hwanted (w.wanted_self path)
    have hmem := (mem_bucket hm).2
      (.inr ⟨path, hpath, ⟨howns, ⟨hgit, fun _ => hignored⟩, hself⟩, rfl⟩)
    exact hwire (hl.mem_wires hm hnot hmem)

/-- A batch loses and leaks nothing exactly if it can be told in full. -/
theorem losesNothing_iff (w : Watch) (raw : List NamePath) :
    w.LosesNothing raw ↔ w.Tellable raw :=
  ⟨tellable_of_losesNothing, losesNothing_of_tellable⟩

def nameW : Name := ⟨[0x77], by simp, by decide⟩

def nameA : Name := ⟨[0x61], by simp, by decide⟩

/-- A directory `/w`, with a file `/w/a` in it and no `.git`. -/
def smallFileSystem : FileSystem where
  canonicalize root :=
    if root = "/w" ∨ root = "/w/" then .ok [nameW] else .error "No such file or directory"
  pathExists path := path = [nameW] ∨ path = [nameW, nameA]
  isDir path := path = [nameW]
  isFile path := path = [nameW, nameA]
  buildGitignore _ := none

/-- A directory watched under two names: a file in it changes, and one of them is not told. -/
theorem twoSpellings_losesSomething :
    ¬(⟨smallFileSystem, smallFileSystem, ["/w", "/w/"], false⟩ : Watch).LosesNothing
      [[nameW, nameA]] := by
  intro hl
  have hc : smallFileSystem.canonicalize "/w" = .ok [nameW] := rfl
  have hc' : smallFileSystem.canonicalize "/w/" = .ok [nameW] := rfl
  have hone : ∀ root d, smallFileSystem.canonicalize root = .ok d → d = [nameW] := by
    intro root d hd
    simp only [smallFileSystem] at hd
    split_ifs at hd
    exact (Except.ok.inj hd).symm
  have hcovered := hl.covered _ (List.mem_singleton_self _) [nameW]
    ⟨⟨"/w", by simp, hc⟩, ⟨[nameA], rfl⟩, fun root _ d hd _ => by
      rw [hone root d hd]⟩
    ⟨by decide, fun _ => ?_⟩
  · obtain ⟨ev, hev, hcovers⟩ := hcovered "/w" (by simp) hc
    obtain ⟨ev', hev', hcovers'⟩ := hcovered "/w/" (by simp) hc'
    obtain ⟨m, hm, hroot⟩ := eq_teller_of_covers hc hev hcovers
    obtain ⟨m', hm', hroot'⟩ := eq_teller_of_covers hc' hev' hcovers'
    rw [hm] at hm'
    rw [← Option.some.inj hm', hroot] at hroot'
    simp at hroot'
  · rintro ⟨a, -, -, hignored⟩
    have hnone : buildRootGitignore smallFileSystem [nameW] = .empty := rfl
    rw [hnone] at hignored
    simp [Gitignore.empty] at hignored

end Watch

end FsWatch

end BuilderPro
