import BuilderPro.Lib.Runs
import BuilderPro.Lib.TreeKeys
import BuilderPro.Orchd.Trees
import Mathlib.Data.String.Basic

/-!
# The order of a project's goals

`list_goals` sorts the goals by their `ord`s and those of the goals above them, each printed with
twelve digits and joined by dots.  This is pre-order as long as siblings of one `ord` have nothing
below them and the prints of siblings are in the order of their `ord`s; the verbs keep it so under
conditions on where they put a goal (`goals_listed_iff`).
-/

namespace BuilderPro

open Results

namespace Store

/-- The part of a goal's sort key that is its own. -/
def ordText (g : Goal) : List Char := (printf012d g.ord).toList

/-- A list that the query may give: in the order of the sort keys, and in any where they are equal. -/
def MayList (s : Store) (p : String) (gs : List Goal) : Prop :=
  ∃ keyed : List (String × Goal), keyed.Perm (s.goalTree p) ∧ (keyed.Pairwise fun x y => x.1 ≤ y.1) ∧
    gs = keyed.map Prod.snd

/-- Every goal of a project once, each before those below it, with its subtree in one block, and
siblings by their `ord`s. -/
structure ListsInOrder (s : Store) (p : String) (gs : List Goal) : Prop where
  all : gs.Perm (s.rowsOf Goal p)
  preorder : s.goals.InPreorder Goal.parentId gs
  siblings : gs.Pairwise fun g h => g.parentId = h.parentId → g.ord ≤ h.ord

def Siblings (g h : Goal) : Prop := g.projectId = h.projectId ∧ g.parentId = h.parentId

instance (g h : Goal) : Decidable (Siblings g h) := inferInstanceAs (Decidable (_ ∧ _))

/-- No `ord` is negative, the prints of siblings are in their order, and siblings of one `ord` have no
goals below them. -/
structure Orderly (s : Store) : Prop where
  nonneg : ∀ g ∈ s.goals.rows, 0 ≤ g.ord
  prints : ∀ g ∈ s.goals.rows, ∀ h ∈ s.goals.rows, Siblings g h → g.ord < h.ord →
    ordText g < ordText h
  ties : ∀ g ∈ s.goals.rows, ∀ h ∈ s.goals.rows, g ≠ h → Siblings g h → g.ord = h.ord →
    s.goals.Leaf Goal.parentId g

variable {s t : Store} {p : String} {gs : List Goal} {g h : Goal}

/-! ### The list -/

theorem lt_of_isDigit {c : Char} (h : c.isDigit = true) : '.' < c := by
  simp only [Char.isDigit, Bool.and_eq_true, decide_eq_true_eq] at h
  have hdot : '.' < '0' := by decide
  exact lt_of_lt_of_le hdot h.1

theorem toList_printf {n : ℤ} (hn : 0 ≤ n) : ∃ k, (printf012d n).toList =
    List.replicate k '0' ++ Nat.toDigits 10 n.natAbs := by
  unfold printf012d
  dsimp only
  rw [if_neg (not_lt.2 hn), String.empty_append, String.toList_append, String.toList_ofList,
    Nat.toString_eq_repr, Nat.toList_repr]
  exact ⟨_, rfl⟩

theorem lt_of_mem_printf {n : ℤ} (hn : 0 ≤ n) {c : Char} (h : c ∈ (printf012d n).toList) :
    '.' < c := by
  obtain ⟨k, hprint⟩ := toList_printf hn
  rw [hprint] at h
  rcases List.mem_append.1 h with h | h
  · rw [List.eq_of_mem_replicate h]
    exact lt_of_isDigit rfl
  · exact lt_of_isDigit (Nat.isDigit_of_mem_toDigits (by omega) le_rfl h)

theorem Orderly.wellLabelled (ho : s.Orderly) :
    s.goals.WellLabelled Goal.parentId Goal.projectId ordText '.' where
  above g hg c hc := lt_of_mem_printf (ho.nonneg g hg) hc
  ties g hg h hh hne hp hparent htext := by
    refine ho.ties g hg h hh hne ⟨hp, hparent⟩ ?_
    rcases lt_trichotomy g.ord h.ord with hlt | heq | hgt
    · have hprint := ho.prints g hg h hh ⟨hp, hparent⟩ hlt
      exact absurd htext hprint.ne
    · exact heq
    · have hprint := ho.prints h hh g hg ⟨hp.symm, hparent.symm⟩ hgt
      exact absurd htext hprint.ne'

theorem joined_of_goalSortKey {n : ℕ} {id key : String} (h : s.goalSortKey p n id = some key) :
    ∃ g, s.goals.lookup id = some g ∧ g.projectId = p ∧
      s.goals.Joined Goal.parentId ordText '.' g key.toList := by
  induction n generalizing id key with
  | zero => cases h
  | succ n ih =>
    rw [goalSortKey] at h
    rcases hg : s.goals.lookup id with _ | g <;> rw [hg] at h
    · cases h
    · simp only [] at h
      split_ifs at h with hp
      refine ⟨g, rfl, not_not.1 hp, ?_⟩
      rcases hparent : g.parentId with _ | q <;> rw [hparent] at h
      · obtain rfl := Option.some.inj h
        exact .root hparent
      · obtain ⟨key', hkey', rfl⟩ := Option.map_eq_some_iff.1 h
        obtain ⟨x, hx, -, hjoined⟩ := ih hkey'
        have hunder := KeyedTable.Joined.under hparent hx hjoined
        rw [String.toList_append, String.toList_append, List.append_assoc]
        exact hunder

theorem joined_of_mem_goalTree {e : String × Goal} (he : e ∈ s.goalTree p) :
    e.2 ∈ s.goals.rows ∧ e.2.projectId = p ∧
      s.goals.Joined Goal.parentId ordText '.' e.2 e.1.toList := by
  rw [goalTree, List.mem_filterMap] at he
  obtain ⟨g, hg, hkey⟩ := he
  obtain ⟨key, hkey', rfl⟩ := Option.map_eq_some_iff.1 hkey
  obtain ⟨x, hx, hxp, hxj⟩ := joined_of_goalSortKey hkey'
  have hrow : s.goals.lookup g.id = some g := KeyedTable.mem_rows.1 (List.mem_filter.1 hg).1
  obtain rfl := Option.some.inj (hx.symm.trans hrow)
  exact ⟨(KeyedTable.lookup_eq_some.1 hx).1, hxp, hxj⟩

/-- The list that is given is one of them. -/
theorem mayList_of_listGoals (h : s.listGoals p = .ok gs) : s.MayList p gs := by
  unfold listGoals at h
  rcases hp : s.projects.lookup p with _ | x <;> rw [hp] at h
  · cases h
  · obtain rfl := Except.ok.inj h
    exact ⟨_, List.perm_insertionSort _ _, List.pairwise_insertionSort _ _, rfl⟩

theorem MayList.perm (ht : s.GoalTrees) (hp : s.HasProject p) (h : s.MayList p gs) :
    gs.Perm (s.rowsOf Goal p) := by
  obtain ⟨keyed, hperm, -, rfl⟩ := h
  obtain ⟨gs', hgs', hall⟩ := ht.listGoals hp
  obtain ⟨keyed', hperm', -, rfl⟩ := mayList_of_listGoals hgs'
  exact ((hperm.trans hperm'.symm).map _).trans hall

theorem MayList.listsInOrder (ht : s.GoalTrees) (ho : s.Orderly) (hp : s.HasProject p)
    (h : s.MayList p gs) : s.ListsInOrder p gs := by
  have hall := h.perm ht hp
  obtain ⟨keyed, hperm, hsorted, rfl⟩ := h
  have hjoined : ∀ e ∈ keyed, e.2 ∈ s.goals.rows ∧ e.2.projectId = p ∧
      s.goals.Joined Goal.parentId ordText '.' e.2 e.1.toList :=
    fun e he => joined_of_mem_goalTree (hperm.subset he)
  have hrows : s.goals.SortedRows Goal.parentId Goal.projectId ordText '.' p
      (keyed.map fun e => (e.1.toList, e.2)) := by
    refine ⟨?_, ?_, ?_, ?_, ?_⟩
    · rw [List.forall_mem_map]
      exact fun e he => (hjoined e he).1
    · rw [List.forall_mem_map]
      exact fun e he => (hjoined e he).2.2
    · rw [List.forall_mem_map]
      exact fun e he => (hjoined e he).2.1
    · rw [List.map_map]
      exact hall.nodup_iff.2 ((List.Nodup.of_map _ s.goals.nodup).filter _)
    · rw [List.pairwise_map]
      exact hsorted.imp fun hle => String.le_iff_toList_le.1 hle
  have hmap : (keyed.map fun e => (e.1.toList, e.2)).map Prod.snd = keyed.map Prod.snd := by
    rw [List.map_map]
    rfl
  have hpreorder := KeyedTable.inPreorder_of_sorted ht.trees ho.wellLabelled hrows
  have hlabels := KeyedTable.labels_of_sorted hrows
  rw [hmap] at hpreorder hlabels
  refine ⟨hall, hpreorder, hlabels.imp_of_mem fun {g h} hg hh htext hparent => ?_⟩
  by_contra hlt
  have hmem {x : Goal} (hx : x ∈ keyed.map Prod.snd) : x ∈ s.goals.rows ∧ x.projectId = p := by
    obtain ⟨e, he, rfl⟩ := List.mem_map.1 hx
    exact ⟨(hjoined e he).1, (hjoined e he).2.1⟩
  have hsiblings : Siblings h g := ⟨(hmem hh).2.trans (hmem hg).2.symm, hparent.symm⟩
  have hprint := ho.prints h (hmem hh).1 g (hmem hg).1 hsiblings (not_le.1 hlt)
  exact absurd (htext hparent) (not_le.2 hprint)

/-! ### The order tells how the `ord`s lie -/

/-- The order of the keys, with `f` the first among equals. -/
def KeyLE (f : Goal) (x y : String × Goal) : Prop := x.1 < y.1 ∨ x.1 = y.1 ∧ (y.2 = f → x.2 = f)

instance (f : Goal) : DecidableRel (KeyLE f) := fun _ _ => inferInstanceAs (Decidable (_ ∨ _))

instance (f : Goal) : Std.Total (KeyLE f) where
  total x y := by
    rcases lt_trichotomy x.1 y.1 with hlt | heq | hgt
    · exact .inl (.inl hlt)
    · by_cases hx : x.2 = f
      · exact .inl (.inr ⟨heq, fun _ => hx⟩)
      · exact .inr (.inr ⟨heq.symm, fun h => absurd h hx⟩)
    · exact .inr (.inl hgt)

instance (f : Goal) : IsTrans (String × Goal) (KeyLE f) where
  trans x y z := by
    rintro (hxy | ⟨hxy, hf⟩) (hyz | ⟨hyz, hf'⟩)
    · exact .inl (hxy.trans hyz)
    · exact .inl (hyz ▸ hxy)
    · exact .inl (hxy ▸ hyz)
    · exact .inr ⟨hxy.trans hyz, fun hz => hf (hf' hz)⟩

/-- The list with `f` first among the goals of its key. -/
def listFirst (s : Store) (p : String) (f : Goal) : List (String × Goal) :=
  (s.goalTree p).insertionSort (KeyLE f)

theorem mayList_listFirst (f : Goal) : s.MayList p ((s.listFirst p f).map Prod.snd) := by
  refine ⟨_, List.perm_insertionSort _ _, ?_, rfl⟩
  refine (List.pairwise_insertionSort (KeyLE f) (s.goalTree p)).imp ?_
  rintro x y (hlt | ⟨heq, -⟩)
  · exact hlt.le
  · exact heq.le

theorem exists_mem_goalTree (ht : s.GoalTrees) (hg : g ∈ s.goals.rows) (hp : g.projectId = p) :
    ∃ key, (key, g) ∈ s.goalTree p := by
  obtain ⟨gs, hgs, hall⟩ := ht.listGoals (hp ▸ ht.owned g hg)
  obtain ⟨keyed, hperm, -, rfl⟩ := mayList_of_listGoals hgs
  have hmem : g ∈ s.rowsOf Goal p := List.mem_filter.2 ⟨hg, decide_eq_true (congrArg some hp)⟩
  obtain ⟨⟨key, x⟩, he, rfl⟩ := List.mem_map.1 (hall.symm.subset hmem)
  exact ⟨key, hperm.subset he⟩

/-- A goal is listed before those whose keys are not below its own. -/
theorem not_keyLE {k k' : String} (hne : h ≠ g) (hle : k ≤ k') : ¬KeyLE g (k', h) (k, g) := by
  rintro (hlt | ⟨-, hfirst⟩)
  · exact absurd hlt (not_lt.2 hle)
  · exact hne (hfirst rfl)

/-- Where every list is in order, so are the `ord`s. -/
theorem orderly_of_listsInOrder (ht : s.GoalTrees) (hn : ∀ g ∈ s.goals.rows, 0 ≤ g.ord)
    (hall : ∀ p gs, s.HasProject p → s.MayList p gs → s.ListsInOrder p gs) : s.Orderly where
  nonneg := hn
  prints g hg h hh hsib hlt := by
    by_contra hprint
    have hne : g ≠ h := fun heq => hlt.ne (heq ▸ rfl)
    obtain ⟨k, hk⟩ := exists_mem_goalTree ht hg hsib.1
    obtain ⟨k', hk'⟩ := exists_mem_goalTree ht hh rfl
    obtain ⟨l, hl, hjoined⟩ := (joined_of_mem_goalTree hk).2.2.sibling hsib.2.symm
    have hle : k' ≤ k := by
      rw [String.le_iff_toList_le, (joined_of_mem_goalTree hk').2.2.unique hjoined, hl]
      exact KeyedTable.append_le_append (not_lt.1 hprint)
    -- the list that prefers `h` has it before `g`
    have hperm := List.perm_insertionSort (KeyLE h) (s.goalTree h.projectId)
    have hpair := KeyedTable.pair_of_pairwise (List.pairwise_insertionSort (KeyLE h) _)
      (hperm.symm.subset hk') (hperm.symm.subset hk) (fun heq => hne (Prod.mk.inj heq).2)
      (not_keyLE hne hle)
    have hsiblings := (hall _ _ (ht.owned h hh) (mayList_listFirst h)).siblings
    have hord := hsiblings.sublist (hpair.map Prod.snd)
    simp only [List.map_cons, List.map_nil, List.pairwise_cons, List.mem_singleton,
      forall_eq] at hord
    exact absurd hlt (not_lt.2 (hord.1 hsib.2.symm))
  ties g hg h hh hne hsib hord z hz hparent := by
    obtain ⟨y, hy, hyp⟩ := ht.trees.parent_mem z hz g.id hparent
    obtain rfl := Option.some.inj ((KeyedTable.mem_rows.1 hg).symm.trans hy)
    obtain ⟨k, hk⟩ := exists_mem_goalTree ht hg rfl
    obtain ⟨k', hk'⟩ := exists_mem_goalTree ht hh hsib.1.symm
    obtain ⟨kz, hkz⟩ := exists_mem_goalTree ht hz hyp.symm
    obtain ⟨l, hl, hjoined⟩ := (joined_of_mem_goalTree hk).2.2.sibling hsib.2.symm
    have htext : ordText h = ordText g := by rw [ordText, ordText, hord]
    have heq : k' = k := by
      rw [← String.toList_inj, (joined_of_mem_goalTree hk').2.2.unique hjoined, hl, htext]
    subst heq
    have hlong := (joined_of_mem_goalTree hkz).2.2.unique
      (.under hparent (KeyedTable.mem_rows.1 hg) (joined_of_mem_goalTree hk).2.2)
    have hlt : k' < kz := by
      rw [String.lt_iff_toList_lt, hlong]
      have hnil : k'.toList ++ [] < k'.toList ++ '.' :: ordText z :=
        List.append_left_lt (List.nil_lt_cons _ _)
      rwa [List.append_nil] at hnil
    have hacyclic := ht.trees.acyclic g.id
    -- `g`, then `h`, then what is below `g`
    have hperm := List.perm_insertionSort (KeyLE g) (s.goalTree g.projectId)
    have htriple := KeyedTable.triple_of_pairwise (List.pairwise_insertionSort (KeyLE g) _)
      (hperm.symm.subset hk) (hperm.symm.subset hk') (hperm.symm.subset hkz)
      ⟨fun heq => hne (Prod.mk.inj heq).2.symm, not_keyLE hne.symm le_rfl⟩
      ⟨fun heq => hlt.ne' (Prod.mk.inj heq).1, fun hle => hle.elim hlt.asymm fun h => hlt.ne' h.1⟩
      ⟨fun heq => hlt.ne' (Prod.mk.inj heq).1, fun hle => hle.elim hlt.asymm fun h => hlt.ne' h.1⟩
    have hblocks := (hall _ _ (ht.owned g hg) (mayList_listFirst g)).preorder.blocks
    obtain ⟨n, hn⟩ := hblocks g hg _ _ _ (htriple.map Prod.snd) KeyedTable.below_self
      (KeyedTable.below_self.under (KeyedTable.mem_rows.1 hz) hparent hy)
    rcases n with _ | n
    · exact hne (List.inj_on_of_nodup_map s.goals.nodup hg hh (Option.some.inj hn.symm))
    · refine hacyclic (n + 1) (by omega) ?_
      rw [Forest.climb_succ, KeyedTable.link, KeyedTable.mem_rows.1 hh] at hn
      rw [Forest.climb_succ, KeyedTable.link, hy]
      simpa [hsib.2] using hn

/-! ### Where a goal is put -/

/-- A goal fits under `parent` with `ord`: the parent shares its `ord` with no sibling, the prints of
the goals there tell `ord` from theirs, and where one has the same `ord`, neither has goals below. -/
structure Fits (s : Store) (id p : String) (parent : Option String) (ord : ℤ) : Prop where
  above : ∀ x ∈ s.goals.rows, parent = some x.id → ∀ y ∈ s.goals.rows, y.id ≠ id → x ≠ y →
    Siblings x y → x.ord ≠ y.ord
  prints : ∀ y ∈ s.goals.rows, y.id ≠ id → y.projectId = p → y.parentId = parent →
    (y.ord < ord → printf012d y.ord < printf012d ord) ∧
      (ord < y.ord → printf012d ord < printf012d y.ord)
  ties : ∀ y ∈ s.goals.rows, y.id ≠ id → y.projectId = p → y.parentId = parent → y.ord = ord →
    ∀ z ∈ s.goals.rows, z.id ≠ id → z.parentId ≠ some id ∧ z.parentId ≠ some y.id

instance (id p : String) (parent : Option String) (ord : ℤ) :
    Decidable (s.Fits id p parent ord) :=
  have : Decidable (∀ x ∈ s.goals.rows, parent = some x.id → ∀ y ∈ s.goals.rows, y.id ≠ id →
    x ≠ y → Siblings x y → x.ord ≠ y.ord) := inferInstance
  decidable_of_iff (_ ∧ _ ∧ _) ⟨fun h => ⟨h.1, h.2.1, h.2.2⟩, fun h => ⟨h.above, h.prints, h.ties⟩⟩

instance : Decidable s.Orderly :=
  have (g : Goal) : Decidable (s.goals.Leaf Goal.parentId g) :=
    inferInstanceAs (Decidable (∀ z ∈ s.goals.rows, z.parentId ≠ some g.id))
  decidable_of_iff (_ ∧ _ ∧ _) ⟨fun h => ⟨h.1, h.2.1, h.2.2⟩, fun h => ⟨h.nonneg, h.prints, h.ties⟩⟩

/-- No goal is its own parent. -/
theorem GoalTrees.parent_ne (ht : s.GoalTrees) (hg : g ∈ s.goals.rows) :
    g.parentId ≠ some g.id := by
  intro hparent
  have hlookup : s.goals.lookup g.id = some g := KeyedTable.mem_rows.1 hg
  refine ht.trees.acyclic g.id 1 Nat.one_pos ?_
  rw [Forest.climb_one, KeyedTable.link, hlookup]
  exact hparent

/-- A goal put in keeps the `ord`s in order exactly where it fits. -/
theorem orderly_put_iff (ho : s.Orderly) (ht : t.GoalTrees) (hord : 0 ≤ g.ord)
    (hrows : ∀ x, x ∈ t.goals.rows ↔ x = g ∨ x ∈ s.goals.rows ∧ x.id ≠ g.id) :
    t.Orderly ↔ s.Fits g.id g.projectId g.parentId g.ord := by
  have hg : g ∈ t.goals.rows := (hrows g).2 (.inl rfl)
  have hold {x : Goal} (hx : x ∈ s.goals.rows) (hid : x.id ≠ g.id) : x ∈ t.goals.rows :=
    (hrows x).2 (.inr ⟨hx, hid⟩)
  constructor
  · intro ho'
    refine ⟨fun x hx hparent y hy hid hne hsib heq => ?_, fun y hy hid hp hparent => ?_,
      fun y hy hid hp hparent heq z hz hzid => ?_⟩
    · have hxid : x.id ≠ g.id := fun h => ht.parent_ne hg (hparent.trans (congrArg some h))
      exact ho'.ties x (hold hx hxid) y (hold hy hid) hne hsib heq g hg hparent
    · have hprints := ho'.prints y (hold hy hid) g hg ⟨hp, hparent⟩
      have hprints' := ho'.prints g hg y (hold hy hid) ⟨hp.symm, hparent.symm⟩
      rw [ordText, ordText, ← String.lt_iff_toList_lt] at hprints hprints'
      exact ⟨hprints, hprints'⟩
    · have hne : g ≠ y := fun h => hid (h ▸ rfl)
      have hleaf := ho'.ties g hg y (hold hy hid) hne ⟨hp.symm, hparent.symm⟩ heq.symm
      have hleaf' := ho'.ties y (hold hy hid) g hg hne.symm ⟨hp, hparent⟩ heq
      exact ⟨hleaf z (hold hz hzid), hleaf' z (hold hz hzid)⟩
  · intro hf
    refine ⟨fun x hx => ?_, fun x hx y hy hsib hlt => ?_, fun x hx y hy hne hsib heq z hz => ?_⟩
    · rcases (hrows x).1 hx with rfl | ⟨hx, -⟩
      · exact hord
      · exact ho.nonneg x hx
    · rw [ordText, ordText, ← String.lt_iff_toList_lt]
      rcases (hrows x).1 hx with rfl | ⟨hxs, hxid⟩ <;> rcases (hrows y).1 hy with rfl | ⟨hys, hyid⟩
      · exact absurd hlt (lt_irrefl _)
      · exact (hf.prints y hys hyid hsib.1.symm hsib.2.symm).2 hlt
      · exact (hf.prints x hxs hxid hsib.1 hsib.2).1 hlt
      · have hprint := ho.prints x hxs y hys hsib hlt
        rwa [ordText, ordText, ← String.lt_iff_toList_lt] at hprint
    · intro hparent
      rcases (hrows x).1 hx with rfl | ⟨hxs, hxid⟩ <;> rcases (hrows y).1 hy with rfl | ⟨hys, hyid⟩
      · exact hne rfl
      · rcases (hrows z).1 hz with rfl | ⟨hzs, hzid⟩
        · exact ht.parent_ne hz hparent
        · exact (hf.ties y hys hyid hsib.1.symm hsib.2.symm heq.symm z hzs hzid).1 hparent
      · rcases (hrows z).1 hz with rfl | ⟨hzs, hzid⟩
        · exact ht.parent_ne hx (hsib.2.trans hparent)
        · exact (hf.ties x hxs hxid hsib.1 hsib.2 heq z hzs hzid).2 hparent
      · rcases (hrows z).1 hz with rfl | ⟨hzs, hzid⟩
        · exact hf.above x hxs hparent y hys hyid hne hsib heq
        · exact ho.ties x hxs y hys hne hsib heq z hzs hparent

/-- Goals that stay in their places, or go. -/
theorem Orderly.of_places (ho : s.Orderly) (hrows : ∀ x ∈ t.goals.rows, ∃ y ∈ s.goals.rows,
    y.id = x.id ∧ y.projectId = x.projectId ∧ y.parentId = x.parentId ∧ y.ord = x.ord) :
    t.Orderly where
  nonneg x hx := by
    obtain ⟨y, hy, -, -, -, hord⟩ := hrows x hx
    exact hord ▸ ho.nonneg y hy
  prints x hx y hy hsib hlt := by
    obtain ⟨x', hx', -, hp, hparent, hord⟩ := hrows x hx
    obtain ⟨y', hy', -, hp', hparent', hord'⟩ := hrows y hy
    have hprint := ho.prints x' hx' y' hy' ⟨hp.trans (hsib.1.trans hp'.symm),
      hparent.trans (hsib.2.trans hparent'.symm)⟩ (by rwa [hord, hord'])
    rwa [ordText, ordText, hord, hord'] at hprint
  ties x hx y hy hne hsib heq z hz hbelow := by
    obtain ⟨x', hx', hid, hp, hparent, hord⟩ := hrows x hx
    obtain ⟨y', hy', hid', hp', hparent', hord'⟩ := hrows y hy
    obtain ⟨z', hz', -, -, hz'parent, -⟩ := hrows z hz
    have hne' : x' ≠ y' := by
      rintro rfl
      exact hne (List.inj_on_of_nodup_map t.goals.nodup hx hy (hid.symm.trans hid'))
    have hsib' : Siblings x' y' :=
      ⟨hp.trans (hsib.1.trans hp'.symm), hparent.trans (hsib.2.trans hparent'.symm)⟩
    have hleaf := ho.ties x' hx' y' hy' hne' hsib' (hord.trans (heq.trans hord'.symm))
    refine hleaf z' hz' ?_
    rw [hz'parent, hid]
    exact hbelow

/-! ### The verbs -/

variable {parent : Option String} {kind : GoalKind} {title body id : String} {ord now : ℤ}

theorem nextGoalOrd_nonneg (hn : ∀ g ∈ s.goals.rows, 0 ≤ g.ord) : 0 ≤ s.nextGoalOrd p parent := by
  unfold nextGoalOrd
  dsimp only
  generalize hsib : (s.goals.rows.filter fun g => g.projectId = p ∧ g.parentId = parent) = sib
  rcases hmax : (sib.map Goal.ord).max? with _ | m
  · exact le_rfl
  · obtain ⟨g, hg, rfl⟩ := List.mem_map.1 (List.max?_mem hmax)
    rw [← hsib] at hg
    have hord := hn g (List.mem_filter.1 hg).1
    rw [Option.map_some, Option.getD_some]
    omega

theorem createGoal_put (h : s.createGoal p parent kind title body id now = .ok (t, g)) :
    g.id = id ∧ g.projectId = p ∧ g.parentId = parent ∧ g.ord = s.nextGoalOrd p parent ∧
      ∀ x, x ∈ t.goals.rows ↔ x = g ∨ x ∈ s.goals.rows ∧ x.id ≠ g.id := by
  obtain ⟨hinsert, hid, hp, hparent, hord⟩ := createGoal_rows h
  obtain ⟨hfree, hrows⟩ := KeyedTable.insert_eq_some.1 hinsert
  refine ⟨hid, hp, hparent, hord, fun x => ?_⟩
  have hnew : x ∈ s.goals.rows → x.id ≠ g.id := by
    intro hx heq
    have hlookup : s.goals.lookup x.id = some x := KeyedTable.mem_rows.1 hx
    rw [heq, hfree] at hlookup
    cases hlookup
  rw [hrows, List.mem_append, List.mem_singleton, or_comm]
  exact or_congr_right (iff_self_and.2 hnew)

theorem moveGoal_put (h : s.moveGoal id parent ord now = .ok (t, g)) :
    g.id = id ∧ g.parentId = parent ∧ g.ord = ord ∧ 0 ≤ ord ∧
      (∀ x, s.goals.lookup id = some x → g.projectId = x.projectId) ∧
      ∀ x, x ∈ t.goals.rows ↔ x = g ∨ x ∈ s.goals.rows ∧ x.id ≠ g.id := by
  obtain ⟨old, hold, hgoals, rfl, hp, hparent, hord⟩ := moveGoal_rows h
  have hnonneg : 0 ≤ ord := by
    simp only [moveGoal, ite_throw_eq_ok, throw_bind, bind_eq_ok] at h
    exact not_lt.1 h.1
  refine ⟨rfl, hparent, hord, hnonneg, fun x hx => ?_, fun x => ?_⟩
  · obtain rfl := Option.some.inj (hold.symm.trans hx)
    exact hp
  · rw [hgoals, KeyedTable.mem_replace]
    have hrow : ∃ z ∈ s.goals.rows, z.id = g.id := KeyedTable.exists_row.2 (by rw [hold]; rfl)
    rw [and_iff_left hrow]

theorem updateGoal_places {title body : Option String} {status : Option GoalStatus}
    {refs : Option (List String)} (h : s.updateGoal id title body status refs now = .ok (t, g)) :
    ∀ x ∈ t.goals.rows, ∃ y ∈ s.goals.rows,
      y.id = x.id ∧ y.projectId = x.projectId ∧ y.parentId = x.parentId ∧ y.ord = x.ord := by
  obtain ⟨old, -, hold, hr⟩ := updateRow_eq_ok h fun x => by split_ifs <;> rfl
  obtain ⟨rfl, rfl⟩ := Prod.mk.inj hr
  intro x hx
  rcases KeyedTable.mem_replace.1 hx with ⟨rfl, -⟩ | ⟨hx, -⟩
  · refine ⟨old, (KeyedTable.lookup_eq_some.1 hold).1, ?_⟩
    split_ifs <;> exact ⟨rfl, rfl, rfl, rfl⟩
  · exact ⟨x, hx, rfl, rfl, rfl, rfl⟩

theorem updateGoal_write {title body : Option String} {status : Option GoalStatus}
    {refs : Option (List String)} (h : s.updateGoal id title body status refs now = .ok (t, g)) :
    s.Write t := by
  obtain ⟨old, -, hold, hr⟩ := updateRow_eq_ok h fun x => by split_ifs <;> rfl
  obtain ⟨rfl, -⟩ := Prod.mk.inj hr
  exact .replaceGoal old _ hold (by split_ifs <;> rfl) (by split_ifs <;> rfl)
    (by split_ifs <;> rfl)

theorem deleteGoal_places (h : s.deleteGoal id = .ok t) : ∀ x ∈ t.goals.rows, ∃ y ∈ s.goals.rows,
    y.id = x.id ∧ y.projectId = x.projectId ∧ y.parentId = x.parentId ∧ y.ord = x.ord := by
  intro x hx
  rw [deleteGoal_rows h] at hx
  exact ⟨x, (List.mem_filter.1 hx).1, rfl, rfl, rfl, rfl⟩

end Store

/-! ### Runs -/

inductive GoalVerb
  | createGoal (projectId : String) (parentId : Option String) (kind : GoalKind)
      (title body id : String) (now : ℤ)
  | updateGoal (id : String) (title body : Option String) (status : Option GoalStatus)
      (metricRefs : Option (List String)) (now : ℤ)
  | moveGoal (id : String) (newParentId : Option String) (newOrd now : ℤ)
  | deleteGoal (id : String)
  deriving DecidableEq, Repr

/-- A store, and whether a sum has left the 64 bits of an `ord`. -/
structure GoalRun where
  db : Store
  overflowed : Bool

namespace GoalRun

open Store

def i64Max : ℤ := 9223372036854775807

variable (st : GoalRun)

def step : GoalVerb → Option GoalRun
  | .createGoal p parent kind title body id now =>
    match st.db.createGoal p parent kind title body id now with
    | .error _ => some st
    | .ok (t, g) =>
      if g.ord ≤ i64Max then some { st with db := t } else some { st with overflowed := true }
  | .updateGoal id title body status refs now =>
    match st.db.updateGoal id title body status refs now with
    | .error _ => some st
    | .ok (t, _) => some { st with db := t }
  | .moveGoal id parent ord now =>
    match st.db.moveGoal id parent ord now with
    | .error _ => some st
    | .ok (t, _) => some { st with db := t }
  | .deleteGoal id =>
    match st.db.deleteGoal id with
    | .error _ => some st
    | .ok t => some { st with db := t }

/-- No sum has overflowed, and every project's list is in order, whichever way equal keys fall. -/
def Listed : Prop :=
  st.overflowed = false ∧ ∀ p, st.db.HasProject p →
    (∃ gs, st.db.listGoals p = .ok gs ∧ st.db.MayList p gs) ∧
      ∀ gs, st.db.MayList p gs → st.db.ListsInOrder p gs

/-- A verb that is granted puts its goal where it fits. -/
def Fits : GoalVerb → Prop
  | .createGoal p parent kind title body id now =>
    (st.db.createGoal p parent kind title body id now).isOk →
      st.db.nextGoalOrd p parent ≤ i64Max ∧ st.db.Fits id p parent (st.db.nextGoalOrd p parent)
  | .moveGoal id parent ord now =>
    (st.db.moveGoal id parent ord now).isOk →
      ∀ g, st.db.goals.lookup id = some g → st.db.Fits id g.projectId parent ord
  | .updateGoal .. | .deleteGoal .. => True

/-- What all verbs keep. -/
def Sound : Prop := st.db.GoalTrees ∧ ∀ g ∈ st.db.goals.rows, 0 ≤ g.ord

variable {st} {st' : GoalRun} {v : GoalVerb}

theorem Sound.listed_iff (h : st.Sound) : st.Listed ↔ st.overflowed = false ∧ st.db.Orderly := by
  refine and_congr_right fun _ => ⟨fun hl => ?_, fun ho p hp => ?_⟩
  · exact orderly_of_listsInOrder h.1 h.2 fun p gs hp hgs => (hl p hp).2 gs hgs
  · obtain ⟨gs, hgs, -⟩ := h.1.listGoals hp
    exact ⟨⟨gs, hgs, mayList_of_listGoals hgs⟩, fun gs hgs => hgs.listsInOrder h.1 ho hp⟩

/-- A verb is refused, or overflows, or puts a goal where it may fit, or leaves the goals in their
places. -/
inductive Effect (st : GoalRun) (v : GoalVerb) : GoalRun → Prop
  | refused (hfits : st.Fits v) : Effect st v st
  | overflows (hfits : ¬st.Fits v) : Effect st v { st with overflowed := true }
  | puts (t : Store) (g : Goal) (htrees : st.db.GoalTrees → t.GoalTrees)
      (hord : (∀ x ∈ st.db.goals.rows, 0 ≤ x.ord) → 0 ≤ g.ord)
      (hrows : ∀ x, x ∈ t.goals.rows ↔ x = g ∨ x ∈ st.db.goals.rows ∧ x.id ≠ g.id)
      (hfits : st.Fits v ↔ st.db.Fits g.id g.projectId g.parentId g.ord) :
      Effect st v { st with db := t }
  | leaves (t : Store) (htrees : st.db.GoalTrees → t.GoalTrees) (hfits : st.Fits v)
      (hrows : ∀ x ∈ t.goals.rows, ∃ y ∈ st.db.goals.rows, y.id = x.id ∧
        y.projectId = x.projectId ∧ y.parentId = x.parentId ∧ y.ord = x.ord) :
      Effect st v { st with db := t }

theorem step_effect (hs : step st v = some st') : Effect st v st' := by
  cases v with
  | createGoal p parent kind title body id now =>
    rw [step] at hs
    rcases hr : st.db.createGoal p parent kind title body id now with err | ⟨t, g⟩ <;>
      rw [hr] at hs
    · obtain rfl := Option.some.inj hs
      refine .refused fun hok => ?_
      rw [hr] at hok
      cases hok
    · obtain ⟨rfl, rfl, rfl, hord, hrows⟩ := createGoal_put hr
      have hfits : st.Fits (.createGoal g.projectId g.parentId kind title body g.id now) ↔
          g.ord ≤ i64Max ∧ st.db.Fits g.id g.projectId g.parentId g.ord := by
        rw [Fits, hr, ← hord]
        exact forall_prop_of_true rfl
      by_cases hmax : g.ord ≤ i64Max
      · obtain rfl := Option.some.inj (hs.symm.trans (if_pos hmax)).symm
        refine .puts t g (fun ht => Write.goalTrees ht (createGoal_write hr)) (fun hn => ?_) hrows
          (hfits.trans (and_iff_right hmax))
        rw [hord]
        exact nextGoalOrd_nonneg hn
      · obtain rfl := Option.some.inj (hs.symm.trans (if_neg hmax)).symm
        exact .overflows fun hf => hmax (hfits.1 hf).1
  | updateGoal id title body status refs now =>
    rw [step] at hs
    rcases hr : st.db.updateGoal id title body status refs now with err | ⟨t, g⟩ <;> rw [hr] at hs
    · obtain rfl := Option.some.inj hs
      exact .refused trivial
    · obtain rfl := Option.some.inj hs
      exact .leaves t (fun ht => Write.goalTrees ht (updateGoal_write hr)) trivial
        (updateGoal_places hr)
  | moveGoal id parent ord now =>
    rw [step] at hs
    rcases hr : st.db.moveGoal id parent ord now with err | ⟨t, g⟩ <;> rw [hr] at hs
    · obtain rfl := Option.some.inj hs
      refine .refused fun hok => ?_
      rw [hr] at hok
      cases hok
    · obtain rfl := Option.some.inj hs
      obtain ⟨rfl, rfl, rfl, hnonneg, hp, hrows⟩ := moveGoal_put hr
      obtain ⟨old, hold, -⟩ := moveGoal_rows hr
      refine .puts t g (fun ht => Write.goalTrees ht (moveGoal_write hr)) (fun _ => hnonneg) hrows ?_
      rw [Fits, hr, hold, hp old hold]
      exact ⟨fun hf => hf rfl old rfl, fun hf _ x hx => Option.some.inj hx ▸ hf⟩
  | deleteGoal id =>
    rw [step] at hs
    rcases hr : st.db.deleteGoal id with err | t <;> rw [hr] at hs
    · obtain rfl := Option.some.inj hs
      exact .refused trivial
    · obtain rfl := Option.some.inj hs
      exact .leaves t (fun ht => Write.goalTrees ht (deleteGoal_write hr)) trivial
        (deleteGoal_places hr)

theorem Sound.step (h : st.Sound) (hs : st.step v = some st') : st'.Sound := by
  obtain ⟨ht, hn⟩ := h
  cases step_effect hs with
  | refused => exact ⟨ht, hn⟩
  | overflows => exact ⟨ht, hn⟩
  | puts t g htrees hord hrows =>
    refine ⟨htrees ht, fun x hx => ?_⟩
    rcases (hrows x).1 hx with rfl | ⟨hx, -⟩
    · exact hord hn
    · exact hn x hx
  | leaves t htrees _ hrows =>
    refine ⟨htrees ht, fun x hx => ?_⟩
    obtain ⟨y, hy, -, -, -, hord⟩ := hrows x hx
    exact hord ▸ hn y hy

theorem listed_step_iff (h : st.Sound) (hl : st.Listed) (hs : st.step v = some st') :
    st'.Listed ↔ st.Fits v := by
  have h' := h.step hs
  obtain ⟨hflag, ho⟩ := h.listed_iff.1 hl
  rw [h'.listed_iff]
  cases step_effect hs with
  | refused hfits => exact iff_of_true ⟨hflag, ho⟩ hfits
  | overflows hfits => exact iff_of_false (fun hl => Bool.noConfusion hl.1) hfits
  | puts t g htrees hord hrows hfits =>
    rw [hfits, and_iff_right hflag]
    exact orderly_put_iff ho (htrees h.1) (hord h.2) hrows
  | leaves t _ hfits hrows => exact iff_of_true ⟨hflag, ho.of_places hrows⟩ hfits

/-- The lists stay in pre-order, and no sum overflows, in exactly the runs whose verbs put each goal
where it fits. -/
theorem goals_listed_iff {s : Store} (ht : s.GoalTrees) (ho : s.Orderly) (vs : List GoalVerb) :
    Runs.Throughout step Listed ⟨s, false⟩ vs ↔ Runs.Along step Fits ⟨s, false⟩ vs := by
  have hsound : Sound ⟨s, false⟩ := ⟨ht, ho.nonneg⟩
  exact Runs.throughout_iff (I := Sound) (fun _ _ _ h hs => h.step hs)
    (fun _ _ _ h hl hs => listed_step_iff h hl hs) hsound (hsound.listed_iff.2 ⟨rfl, ho⟩) vs

section Split

instance (v : GoalVerb) : Decidable (st.Fits v) := by
  cases v <;> unfold Fits
  · infer_instance
  · infer_instance
  · refine @instDecidableForall _ _ _ ?_
    rcases st.db.goals.lookup _ with _ | g
    · exact isTrue nofun
    · exact decidable_of_iff _ ⟨fun h x hx => Option.some.inj hx ▸ h, fun h => h g rfl⟩
  · infer_instance

/-- A project with its strategic goal. -/
def started : Store :=
  match Store.empty.createProject ⟨true, ["support"]⟩ "P" "" ["w"] ⟨"p", "root", "n", "r"⟩ 0 with
  | .ok r => r.1
  | .error _ => .empty

theorem goalTrees_started : started.GoalTrees := by
  unfold started
  split
  · rename_i h
    exact Write.goalTrees wellFormedTrees_empty.goals (createProject_write h)
  · exact wellFormedTrees_empty.goals

def twoGoals : List GoalVerb :=
  [.createGoal "p" (some "root") .additional "A" "" "a" 1,
    .createGoal "p" (some "root") .additional "B" "" "b" 2]

/-- Goals below each of two are listed with them, unless the two have been given one `ord`. -/
theorem goals_split_by_equal_ords :
    Runs.Throughout step Listed ⟨started, false⟩
      (twoGoals ++ [.createGoal "p" (some "a") .additional "C" "" "c" 3]) ∧
    ¬Runs.Throughout step Listed ⟨started, false⟩
      (twoGoals ++ [.moveGoal "b" (some "root") 0 3,
        .createGoal "p" (some "a") .additional "C" "" "c" 4]) := by
  rw [goals_listed_iff goalTrees_started (by decide +kernel),
    goals_listed_iff goalTrees_started (by decide +kernel)]
  decide +kernel

end Split

end GoalRun

end BuilderPro
