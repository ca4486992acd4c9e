import BuilderPro.App.FsWatch

/-!
# Where a path is told

A name that is UTF-8 without backslashes is told as it is (`plain_iff`).  Of the roots a path lies in,
`max_by_key` takes the last with the longest canonical prefix, so a path is told under the root it
belongs to, by one of that root's names (`Watch.route_of_owns`).
-/

namespace BuilderPro

namespace FsWatch

variable {rel path c d : NamePath}

theorem relBytes_eq_nil : relBytes rel = [] ↔ rel = [] := by
  rcases rel with _ | ⟨n, rel⟩
  · simp [relBytes]
  · have hname := n.ne_nil
    rcases rel with _ | ⟨n', rel⟩ <;> simp [relBytes, List.intercalate, hname]

theorem relToWireString_eq_empty : relToWireString rel = "" ↔ rel = [] := by
  rw [← relBytes_eq_nil, ← String.toList_inj]
  simp only [relToWireString, Utf8.decodeLossy, String.toList_map, String.toList_ofList]
  rcases relBytes rel with _ | ⟨b, l⟩
  · simp [Utf8.lossyFrom]
  · simp only [Utf8.lossyFrom]
    split <;> simp

theorem backslash_mem_bytes (s : String) : 0x5c ∈ Utf8.bytes s ↔ '\\' ∈ s.toList :=
  @Utf8.mem_bytes '\\' (by decide) s

/-- What some path is told as is only the path of one whose names are told as they are. -/
theorem plain_of_bytes {other : NamePath}
    (h : Utf8.bytes (relToWireString other) = relBytes rel) : Watch.Plain rel := by
  refine ⟨Utf8.isSome_decode.2 ⟨_, h⟩, ?_⟩
  rw [← h, backslash_mem_bytes, relToWireString, String.toList_map]
  intro hmem
  obtain ⟨c, -, hc⟩ := List.mem_map.1 hmem
  split_ifs at hc with hslash
  · simp at hc
  · exact hslash hc

theorem plain_iff : Watch.Plain rel ↔ Utf8.bytes (relToWireString rel) = relBytes rel := by
  refine ⟨?_, plain_of_bytes⟩
  rintro ⟨htext, hnone⟩
  have hsame := Utf8.bytes_decodeLossy.2 htext
  rw [← hsame, backslash_mem_bytes] at hnone
  have hwire : relToWireString rel = Utf8.decodeLossy (relBytes rel) := by
    rw [← String.toList_inj, relToWireString, String.toList_map]
    refine (List.map_congr_left fun c hc => ?_).trans (List.map_id _)
    rw [if_neg, id_eq]
    rintro rfl
    exact hnone hc
  rw [hwire, hsame]

theorem osLen_lt_of_below (h : c <+: d) (hne : c ≠ d) : osLen c < osLen d := by
  obtain ⟨rest, rfl⟩ := h
  have hrest : rest ≠ [] := by
    rintro rfl
    simp at hne
  obtain ⟨n, rest, rfl⟩ := List.exists_cons_of_ne_nil hrest
  have hname := List.length_pos_of_ne_nil n.ne_nil
  unfold osLen
  rw [if_neg (show c ++ n :: rest ≠ [] by simp)]
  split_ifs with hc
  · rw [hc]
    simp only [List.nil_append, List.map_cons, List.sum_cons]
    omega
  · simp only [List.map_append, List.sum_append, List.map_cons, List.sum_cons]
    omega

theorem prefix_of_le (hc : c <+: path) (hd : d <+: path) (h : c.length ≤ d.length) : c <+: d :=
  List.prefix_of_prefix_length_le hc hd h

/-- Of two prefixes of a path the longer in text is the longer in names. -/
theorem osLen_le_iff (hc : c <+: path) (hd : d <+: path) :
    osLen c ≤ osLen d ↔ c.length ≤ d.length := by
  constructor
  · intro h
    by_contra hlt
    have hunder := prefix_of_le hd hc (by omega)
    have hne : d ≠ c := by
      rintro rfl
      omega
    have hlonger := osLen_lt_of_below hunder hne
    omega
  · intro h
    by_cases heq : c = d
    · rw [heq]
    · exact (osLen_lt_of_below (prefix_of_le hc hd h) heq).le

theorem eq_of_osLen_eq (hc : c <+: path) (hd : d <+: path) (h : osLen c = osLen d) : c = d := by
  have hle := (osLen_le_iff hc hd).1 h.le
  have hge := (osLen_le_iff hd hc).1 h.ge
  exact (prefix_of_le hc hd hle).eq_of_length (by omega)

section

variable {α : Type} {key : α → ℕ} {l : List α} {a : α}

theorem maxByKey_eq_none : maxByKey key l = none ↔ l = [] := by
  rcases l with _ | ⟨a, l⟩
  · simp [maxByKey]
  · simp only [maxByKey]
    split
    · simp
    · split_ifs <;> simp

theorem maxByKey_spec (h : maxByKey key l = some a) : a ∈ l ∧ ∀ b ∈ l, key b ≤ key a := by
  induction l generalizing a with
  | nil => simp [maxByKey] at h
  | cons x l ih =>
    simp only [maxByKey] at h
    split at h
    · rename_i hnone
      obtain rfl := Option.some.inj h
      simp [maxByKey_eq_none.1 hnone]
    · rename_i b hb
      obtain ⟨hmem, hmax⟩ := ih hb
      split_ifs at h with hlt
      all_goals
        obtain rfl := Option.some.inj h
        refine ⟨by simp [hmem], fun y hy => ?_⟩
        rcases List.mem_cons.1 hy with rfl | hy
        · omega
        · have hle := hmax y hy
          omega

/-- The last of those with the greatest key is taken. -/
theorem maxByKey_eq_getLast? {k : ℕ} (hmax : ∀ b ∈ l, key b ≤ k) (hmem : ∃ b ∈ l, key b = k) :
    maxByKey key l = (l.filter fun b => key b = k).getLast? := by
  induction l with
  | nil => simp at hmem
  | cons x l ih =>
    have hle := hmax x (by simp)
    by_cases hrest : ∃ b ∈ l, key b = k
    · have hlast := ih (fun b hb => hmax b (by simp [hb])) hrest
      obtain ⟨b, hb, hkey⟩ := hrest
      have hne : l.filter (fun b => key b = k) ≠ [] :=
        List.ne_nil_of_mem (List.mem_filter.2 ⟨hb, by simpa using hkey⟩)
      have hsome := List.getLast?_eq_some_getLast hne
      have hk : key ((l.filter fun b => key b = k).getLast hne) = k := by
        simpa using (List.mem_filter.1 (List.getLast_mem hne)).2
      have hkeep : ¬k < key x := by omega
      rw [maxByKey, hlast, hsome]
      simp only [hk, hkeep, if_false]
      rw [List.filter_cons]
      split_ifs
      · rw [List.getLast?_cons, hsome]
        rfl
      · exact hsome.symm
    · have hx : key x = k := by
        obtain ⟨b, hb, hkey⟩ := hmem
        rcases List.mem_cons.1 hb with rfl | hb
        · exact hkey
        · exact absurd ⟨b, hb, hkey⟩ hrest
      have hnone : l.filter (fun b => key b = k) = [] := by
        rw [List.filter_eq_nil_iff]
        intro b hb hkey
        exact hrest ⟨b, hb, by simpa using hkey⟩
      have hfirst : maxByKey key (x :: l) = some x := by
        rw [maxByKey]
        split
        · rfl
        · rename_i b hb
          have hb' := (maxByKey_spec hb).1
          have hlt : key b < key x := by
            have hle' := hmax b (by simp [hb'])
            have hne : key b ≠ k := fun hkey => hrest ⟨b, hb', hkey⟩
            omega
          rw [if_pos hlt]
      rw [hfirst, List.filter_cons, if_pos (by simpa using hx), hnone]
      rfl

end

namespace Watch

variable {w : Watch} {root r reason : String} {m : RootMatcher} {raw : List NamePath}

/-! ### Where a path is told -/

theorem matchers_eq : w.matchers = w.roots.filterMap fun root =>
    match w.started.canonicalize root with
    | .ok c => some ⟨root, c, buildRootGitignore w.started c⟩
    | .error _ => none := by
  unfold matchers
  induction w.roots with
  | nil => rfl
  | cons root roots ih =>
    rw [List.filterMap_cons, ← ih, buildRootMatchers]
    rcases w.started.canonicalize root with e | c <;> rfl

theorem mem_matchers : m ∈ w.matchers ↔ m.root ∈ w.roots ∧
    w.started.canonicalize m.root = .ok m.rootPath ∧
      m.gitignore = buildRootGitignore w.started m.rootPath := by
  rw [matchers_eq, List.mem_filterMap]
  constructor
  · rintro ⟨root, hroot, hm⟩
    rcases hc : w.started.canonicalize root with e | c <;> rw [hc] at hm
    · simp at hm
    · obtain rfl := Option.some.inj hm
      exact ⟨hroot, hc, rfl⟩
  · rintro ⟨hroot, hc, hgitignore⟩
    refine ⟨m.root, hroot, ?_⟩
    simp only [hc, ← hgitignore]

/-- Who is told of the paths of a directory: of the roots that name it, the last. -/
def teller (w : Watch) (c : NamePath) : Option RootMatcher :=
  (w.matchers.filter fun m => m.rootPath = c).getLast?

theorem teller_spec (h : w.teller c = some m) :
    m.root ∈ w.roots ∧ w.started.canonicalize m.root = .ok c ∧ m.rootPath = c ∧
      m.gitignore = buildRootGitignore w.started c := by
  obtain ⟨hmem, hpath⟩ := List.mem_filter.1 (List.mem_of_getLast? h)
  obtain rfl : m.rootPath = c := by simpa using hpath
  obtain ⟨hroot, hc, hgitignore⟩ := mem_matchers.1 hmem
  exact ⟨hroot, hc, rfl, hgitignore⟩

theorem exists_teller (hroot : root ∈ w.roots) (hc : w.started.canonicalize root = .ok c) :
    ∃ m, w.teller c = some m := by
  have hmem : (⟨root, c, buildRootGitignore w.started c⟩ : RootMatcher) ∈
      w.matchers.filter fun m => m.rootPath = c :=
    List.mem_filter.2 ⟨mem_matchers.2 ⟨hroot, hc, rfl⟩, by simp⟩
  exact ⟨_, List.getLast?_eq_some_getLast (List.ne_nil_of_mem hmem)⟩

theorem Owns.unique (hc : w.Owns c path) (hd : w.Owns d path) : c = d := by
  obtain ⟨root, hroot, hcanon⟩ := hc.watched
  obtain ⟨root', hroot', hcanon'⟩ := hd.watched
  have hle := hd.longest root hroot c hcanon hc.below
  have hge := hc.longest root' hroot' d hcanon' hd.below
  exact (prefix_of_le hc.below hd.below hle).eq_of_length (by omega)

theorem owns_self (hroot : root ∈ w.roots) (hc : w.started.canonicalize root = .ok c) :
    w.Owns c c :=
  ⟨⟨root, hroot, hc⟩, List.prefix_rfl, fun _ _ _ _ hd => hd.length_le⟩

theorem Owns.exists_teller (h : w.Owns c path) : ∃ m, w.teller c = some m := by
  obtain ⟨root, hroot, hc⟩ := h.watched
  exact Watch.exists_teller hroot hc

theorem mem_candidates {x : RootMatcher × NamePath} :
    (x ∈ w.matchers.filterMap fun m => (stripPrefix m.rootPath path).map fun rel => (m, rel)) ↔
      x.1 ∈ w.matchers ∧ x.1.rootPath <+: path ∧ x.2 = path.drop x.1.rootPath.length := by
  simp only [List.mem_filterMap, Option.map_eq_some_iff, stripPrefix]
  constructor
  · rintro ⟨m, hm, rel, hrel, rfl⟩
    split_ifs at hrel with hunder
    exact ⟨hm, hunder, (Option.some.inj hrel).symm⟩
  · rintro ⟨hm, hunder, hrel⟩
    exact ⟨x.1, hm, x.2, by rw [if_pos hunder, hrel], rfl⟩

theorem candidate_of_canonicalize (hroot : root ∈ w.roots)
    (hd : w.started.canonicalize root = .ok d) (hunder : d <+: path) :
    (⟨root, d, buildRootGitignore w.started d⟩, path.drop d.length) ∈
      w.matchers.filterMap fun m => (stripPrefix m.rootPath path).map fun rel => (m, rel) :=
  mem_candidates.2 ⟨mem_matchers.2 ⟨hroot, hd, rfl⟩, hunder, rfl⟩

theorem owns_of_route {x : RootMatcher × NamePath} (h : route w.matchers path = some x) :
    w.Owns x.1.rootPath path := by
  obtain ⟨hmem, hmax⟩ := maxByKey_spec h
  obtain ⟨hm, hbelow, -⟩ := mem_candidates.1 hmem
  obtain ⟨hroot, hc, -⟩ := mem_matchers.1 hm
  refine ⟨⟨x.1.root, hroot, hc⟩, hbelow, fun root hroot' d hd hunder => ?_⟩
  have hle := hmax _ (candidate_of_canonicalize hroot' hd hunder)
  exact (osLen_le_iff hunder hbelow).1 hle

/-- A path goes to the last root that names the directory that owns it. -/
theorem route_of_owns (h : w.Owns c path) :
    route w.matchers path = (w.teller c).map fun m => (m, path.drop c.length) := by
  obtain ⟨root, hroot, hc⟩ := h.watched
  have hmax : ∀ x ∈ w.matchers.filterMap
      (fun m => (stripPrefix m.rootPath path).map fun rel => (m, rel)),
      osLen x.1.rootPath ≤ osLen c := by
    intro x hx
    obtain ⟨hm, hunder, -⟩ := mem_candidates.1 hx
    obtain ⟨hroot', hd, -⟩ := mem_matchers.1 hm
    exact (osLen_le_iff hunder h.below).2 (h.longest _ hroot' _ hd hunder)
  have hmem := candidate_of_canonicalize hroot hc h.below
  rw [route, maxByKey_eq_getLast? hmax ⟨_, hmem, rfl⟩, teller, ← List.getLast?_map]
  congr 1
  induction w.matchers with
  | nil => rfl
  | cons m ms ih =>
    have hsame : m.rootPath <+: path → (osLen m.rootPath = osLen c ↔ m.rootPath = c) :=
      fun hunder => ⟨fun hlen => eq_of_osLen_eq hunder h.below hlen, fun heq => by rw [heq]⟩
    rw [List.filterMap_cons, List.filter_cons]
    by_cases hunder : m.rootPath <+: path
    · have hstrip : stripPrefix m.rootPath path = some (path.drop m.rootPath.length) :=
        if_pos hunder
      simp only [hstrip, Option.map_some, List.filter_cons, hsame hunder]
      by_cases heq : m.rootPath = c
      · simpa [heq] using ih
      · simpa [heq] using ih
    · have hne : m.rootPath ≠ c := fun heq => hunder (heq ▸ h.below)
      simpa [stripPrefix, hunder, hne] using ih

end Watch

end FsWatch

end BuilderPro
