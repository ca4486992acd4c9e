import BuilderPro.Lib.TreeTable
import Mathlib.Data.List.Lex

/-!
# Trees sorted by joined keys

A row's joined key is its label behind the labels of the rows above it, with a separator between
them.  Where the separator is below all that labels have, and siblings of one label have nothing
below them, the rows sorted by their joined keys are in pre-order (`inPreorder_of_sorted`).
-/

namespace KeyedTable

open Forest

variable {κ β γ α : Type*} {key : β → κ} [DecidableEq κ] [LinearOrder α]

section Defs

variable (t : KeyedTable key) (parent : β → Option κ) (group : β → γ) (label : β → List α) (sep : α)

inductive Joined : β → List α → Prop
  | root {x : β} (hx : parent x = none) : Joined x (label x)
  | under {x y : β} {q : κ} {l : List α} (hx : parent x = some q) (hy : t.lookup q = some y)
      (hl : Joined y l) : Joined x (l ++ sep :: label x)

/-- `x` is `a`, or below it. -/
def Below (a x : β) : Prop := ∃ n, climb (t.link parent) n (key x) = some (key a)

/-- No row has this one for its parent. -/
def Leaf (x : β) : Prop := ∀ z ∈ t.rows, parent z ≠ some (key x)

/-- No row comes after one below it, and what is between two rows of a subtree is of it. -/
structure InPreorder (xs : List β) : Prop where
  parents : xs.Pairwise fun x y => ∀ n, climb (t.link parent) (n + 1) (key x) ≠ some (key y)
  blocks : ∀ a ∈ t.rows, ∀ x y z, [x, y, z].Sublist xs → t.Below parent a x → t.Below parent a z →
    t.Below parent a y

/-- The labels have nothing that is not above the separator, and siblings of one label are leaves. -/
structure WellLabelled : Prop where
  above : ∀ x ∈ t.rows, ∀ c ∈ label x, sep < c
  ties : ∀ x ∈ t.rows, ∀ y ∈ t.rows, x ≠ y → group x = group y → parent x = parent y →
    label x = label y → t.Leaf parent x

end Defs

variable {t : KeyedTable key} {parent : β → Option κ} {group : β → γ} {label : β → List α} {sep : α}
  {a x y z : β} {k l p r : List α}

/-! ### Lists in their order -/

theorem cons_le_cons_iff {c d : α} : c :: l ≤ d :: r ↔ c < d ∨ c = d ∧ l ≤ r := by
  rw [← not_lt, List.cons_lt_cons_iff, not_or, not_lt, not_and, not_lt]
  constructor
  · rintro ⟨hcd, h⟩
    rcases hcd.lt_or_eq with hlt | rfl
    · exact .inl hlt
    · exact .inr ⟨rfl, h rfl⟩
  · rintro (hlt | ⟨rfl, h⟩)
    · exact ⟨hlt.le, fun heq => absurd heq hlt.ne'⟩
    · exact ⟨le_rfl, fun _ => h⟩

/-- What is between two lists with a prefix has it. -/
theorem prefix_of_between (hx : l ++ k ≤ r) (hy : r ≤ l ++ p) :
    ∃ s, r = l ++ s ∧ k ≤ s ∧ s ≤ p := by
  induction l generalizing r with
  | nil => exact ⟨r, rfl, hx, hy⟩
  | cons c l ih =>
    rcases r with _ | ⟨d, r⟩
    · rw [List.cons_append, ← not_lt] at hx
      exact absurd (List.nil_lt_cons c (l ++ k)) hx
    · rw [List.cons_append, cons_le_cons_iff] at hx hy
      rcases hx with hcd | ⟨rfl, hx⟩
      · rcases hy with hdc | ⟨rfl, -⟩
        · exact absurd hcd hdc.asymm
        · exact absurd hcd (lt_irrefl _)
      · rcases hy with hlt | ⟨-, hy⟩
        · exact absurd hlt (lt_irrefl _)
        · obtain ⟨s, rfl, hs, hs'⟩ := ih hx hy
          exact ⟨s, rfl, hs, hs'⟩

omit [LinearOrder α] in
/-- The last separator of a list. -/
theorem append_sep_inj {l' p' : List α} (hp : sep ∉ p) (hp' : sep ∉ p')
    (h : l ++ sep :: p = l' ++ sep :: p') : l = l' ∧ p = p' := by
  obtain ⟨s, rfl, hs⟩ | ⟨s, rfl, hs⟩ := List.append_eq_append_iff.1 h
  · rcases s with _ | ⟨c, s⟩
    · simpa using hs
    · obtain ⟨rfl, rfl⟩ := List.cons.inj hs
      simp at hp
  · rcases s with _ | ⟨c, s⟩
    · simpa [eq_comm] using hs
    · obtain ⟨rfl, rfl⟩ := List.cons.inj hs
      simp at hp'

theorem append_le_append (h : k ≤ p) : l ++ k ≤ l ++ p := by
  induction l with
  | nil => exact h
  | cons c l ih =>
    rw [List.cons_append, List.cons_append, cons_le_cons_iff]
    exact .inr ⟨rfl, ih⟩

section Before

omit [LinearOrder α] [DecidableEq κ]

variable {r : β → β → Prop} {bs : List β}

/-- What may not come before a member comes after it. -/
theorem after_of_pairwise (h : bs.Pairwise r) (hx : x ∈ bs) :
    ∃ l₁ l₂, bs = l₁ ++ x :: l₂ ∧ ∀ y ∈ bs, y ≠ x → ¬r y x → y ∈ l₂ := by
  obtain ⟨l₁, l₂, rfl⟩ := List.append_of_mem hx
  refine ⟨l₁, l₂, rfl, fun y hy hne hyx => ?_⟩
  rcases List.mem_append.1 hy with hy | hy
  · exact absurd ((List.pairwise_append.1 h).2.2 y hy x List.mem_cons_self) hyx
  · exact (List.mem_cons.1 hy).resolve_left hne

theorem pair_of_pairwise (h : bs.Pairwise r) (hx : x ∈ bs) (hy : y ∈ bs) (hne : y ≠ x)
    (hyx : ¬r y x) : [x, y].Sublist bs := by
  obtain ⟨l₁, l₂, rfl, hafter⟩ := after_of_pairwise h hx
  exact ((List.singleton_sublist.2 (hafter y hy hne hyx)).cons_cons x).trans
    (List.sublist_append_right _ _)

theorem triple_of_pairwise (h : bs.Pairwise r) (hx : x ∈ bs) (hy : y ∈ bs) (hz : z ∈ bs)
    (hyx : y ≠ x ∧ ¬r y x) (hzx : z ≠ x ∧ ¬r z x) (hzy : z ≠ y ∧ ¬r z y) :
    [x, y, z].Sublist bs := by
  obtain ⟨l₁, l₂, rfl, hafter⟩ := after_of_pairwise h hx
  have htail := (List.pairwise_cons.1 (List.pairwise_append.1 h).2.1).2
  have hpair := pair_of_pairwise htail (hafter y hy hyx.1 hyx.2) (hafter z hz hzx.1 hzx.2) hzy.1
    hzy.2
  exact (hpair.cons_cons x).trans (List.sublist_append_right _ _)

end Before

/-! ### Joined keys -/

theorem Joined.above (h : t.Joined parent label sep x k) (hx : x ∈ t.rows)
    (hl : t.WellLabelled parent group label sep) : ∀ c ∈ k, sep ≤ c := by
  induction h with
  | root _ => exact fun c hc => (hl.above _ hx c hc).le
  | @under x y q l hp hy _ ih =>
    intro c hc
    rcases List.mem_append.1 hc with hc | hc
    · exact ih (lookup_eq_some.1 hy).1 c hc
    · rcases List.mem_cons.1 hc with rfl | hc
      · exact le_rfl
      · exact (hl.above _ hx c hc).le

/-- Rows of one joined key are siblings of one label. -/
theorem Joined.inj (hx : t.Joined parent label sep x k) (hy : t.Joined parent label sep y k)
    (hxrow : x ∈ t.rows) (hyrow : y ∈ t.rows) (ht : t.Trees parent group)
    (hl : t.WellLabelled parent group label sep) (hg : group x = group y) :
    parent x = parent y ∧ label x = label y := by
  have hplain {z : β} (hz : z ∈ t.rows) : sep ∉ label z := fun h => lt_irrefl _ (hl.above z hz sep h)
  induction hx generalizing y with
  | @root x hpx =>
    generalize hk : label x = k at hy
    cases hy with
    | root hpy => exact ⟨hpx.trans hpy.symm, rfl⟩
    | under =>
      have hsep := hplain hxrow
      rw [hk] at hsep
      simp at hsep
  | @under x x' q k hpx hx' hjoined ih =>
    generalize hk : k ++ sep :: label x = k' at hy
    cases hy with
    | root =>
      have hsep := hplain hyrow
      rw [← hk] at hsep
      simp at hsep
    | @under _ y' q' l hpy hy' hjoined' =>
      obtain ⟨rfl, hlabel⟩ := append_sep_inj (hplain hxrow) (hplain hyrow) hk
      refine ⟨?_, hlabel⟩
      obtain ⟨x'', hx'', hgx⟩ := ht.parent_mem x hxrow q hpx
      obtain ⟨y'', hy'', hgy⟩ := ht.parent_mem y hyrow q' hpy
      obtain rfl := Option.some.inj (hx'.symm.trans hx'')
      obtain rfl := Option.some.inj (hy'.symm.trans hy'')
      have hgroup : group x' = group y' := (hgx.trans hg).trans hgy.symm
      have hxrow' := (lookup_eq_some.1 hx').1
      have hyrow' := (lookup_eq_some.1 hy').1
      obtain ⟨hparent, hlabel'⟩ := ih hjoined' hxrow' hyrow' hgroup
      by_cases heq : x' = y'
      · rw [hpx, hpy, ← key_eq hx', ← key_eq hy', heq]
      · have hleaf := hl.ties x' hxrow' y' hyrow' heq hgroup hparent hlabel'
        rw [← key_eq hx'] at hpx
        exact absurd hpx (hleaf x hxrow)

theorem below_self : t.Below parent x x := ⟨0, rfl⟩

theorem Below.under {q : κ} (h : t.Below parent a y) (hx : t.lookup (key x) = some x)
    (hp : parent x = some q) (hy : t.lookup q = some y) : t.Below parent a x := by
  obtain ⟨n, hn⟩ := h
  refine ⟨n + 1, ?_⟩
  rw [climb_succ, link, hx, Option.bind_some, hp, Option.bind_some, ← key_eq hy]
  exact hn

/-- What goes on with a separator is below. -/
theorem Joined.exists_below (h : t.Joined parent label sep x k) (hx : x ∈ t.rows)
    (ht : t.Trees parent group) (hl : t.WellLabelled parent group label sep)
    (hk : k = l ++ p) (hp : p = [] ∨ ∃ p', p = sep :: p') :
    ∃ b ∈ t.rows, t.Joined parent label sep b l ∧ t.Below parent b x ∧ group b = group x := by
  have hplain {z : β} (hz : z ∈ t.rows) : sep ∉ label z := fun h => lt_irrefl _ (hl.above z hz sep h)
  induction h generalizing l p with
  | @root x hpx =>
    rcases hp with rfl | ⟨p', rfl⟩
    · rw [List.append_nil] at hk
      exact ⟨x, hx, hk ▸ .root hpx, below_self, rfl⟩
    · have hsep := hplain hx
      rw [hk] at hsep
      simp at hsep
  | @under x y q k hpx hy hjoined ih =>
    rcases hp with rfl | ⟨p', rfl⟩
    · rw [List.append_nil] at hk
      exact ⟨x, hx, hk ▸ .under hpx hy hjoined, below_self, rfl⟩
    · -- the prefix ends before the last separator
      obtain ⟨s, hs, hrest⟩ : ∃ s, k = l ++ s ∧ (s = [] ∨ ∃ s', s = sep :: s') := by
        obtain ⟨s, rfl, hs⟩ | ⟨s, rfl, hs⟩ := List.append_eq_append_iff.1 hk
        · rcases s with _ | ⟨c, s⟩
          · exact ⟨[], by simp, .inl rfl⟩
          · have hsep := hplain hx
            rw [(List.cons.inj hs).2] at hsep
            simp at hsep
        · rcases s with _ | ⟨c, s⟩
          · exact ⟨[], rfl, .inl rfl⟩
          · obtain ⟨rfl, -⟩ := List.cons.inj hs
            exact ⟨_, rfl, .inr ⟨s, rfl⟩⟩
      obtain ⟨y', hy', hgroup⟩ := ht.parent_mem x hx q hpx
      obtain rfl := Option.some.inj (hy.symm.trans hy')
      obtain ⟨b, hb, hbl, hbelow, hg⟩ := ih (lookup_eq_some.1 hy).1 hs hrest
      exact ⟨b, hb, hbl, hbelow.under (mem_rows.1 hx) hpx hy, hg.trans hgroup⟩

omit [LinearOrder α] in
theorem Joined.unique (h : t.Joined parent label sep x k) (h' : t.Joined parent label sep x l) :
    k = l := by
  induction h generalizing l with
  | root hx =>
    cases h' with
    | root => rfl
    | under hx' => simp [hx] at hx'
  | under hx hy _ ih =>
    cases h' with
    | root hx' => simp [hx] at hx'
    | under hx' hy' hjoined =>
      obtain rfl := Option.some.inj (hx.symm.trans hx')
      obtain rfl := Option.some.inj (hy.symm.trans hy')
      rw [ih hjoined]

omit [LinearOrder α] in
/-- The key of a row goes on from that of one above it. -/
theorem Joined.of_climb (h : t.Joined parent label sep x k) (hx : x ∈ t.rows) (ha : a ∈ t.rows)
    (ht : t.Trees parent group) {n : ℕ} (hn : climb (t.link parent) n (key x) = some (key a)) :
    group a = group x ∧ ∃ l, t.Joined parent label sep a l ∧
      (n = 0 ∧ k = l ∨ ∃ p, k = l ++ sep :: p) := by
  induction h generalizing n with
  | @root x hpx =>
    rcases n with _ | n
    · obtain rfl : x = a := List.inj_on_of_nodup_map t.nodup hx ha (Option.some.inj hn)
      exact ⟨rfl, _, .root hpx, .inl ⟨rfl, rfl⟩⟩
    · rw [climb_succ, link, mem_rows.1 hx, Option.bind_some, hpx] at hn
      simp at hn
  | @under x y q k hpx hy hjoined ih =>
    rcases n with _ | n
    · obtain rfl : x = a := List.inj_on_of_nodup_map t.nodup hx ha (Option.some.inj hn)
      exact ⟨rfl, _, .under hpx hy hjoined, .inl ⟨rfl, rfl⟩⟩
    · rw [climb_succ, link, mem_rows.1 hx, Option.bind_some, hpx, Option.bind_some,
        ← key_eq hy] at hn
      obtain ⟨y', hy', hgroup⟩ := ht.parent_mem x hx q hpx
      obtain rfl := Option.some.inj (hy.symm.trans hy')
      obtain ⟨hg, l, hl, ⟨-, rfl⟩ | ⟨p, rfl⟩⟩ := ih (lookup_eq_some.1 hy).1 hn
      · exact ⟨hg.trans hgroup, _, hl, .inr ⟨_, rfl⟩⟩
      · exact ⟨hg.trans hgroup, _, hl, .inr ⟨p ++ sep :: label x, by simp⟩⟩

/-- Nothing else is below a leaf. -/
theorem Leaf.eq_of_below (h : t.Leaf parent a) (ha : a ∈ t.rows) (hx : x ∈ t.rows)
    (hbelow : t.Below parent a x) : x = a := by
  obtain ⟨_ | n, hn⟩ := hbelow
  · exact List.inj_on_of_nodup_map t.nodup hx ha (Option.some.inj hn)
  · rw [climb_add, Option.bind_eq_some_iff] at hn
    obtain ⟨q, -, hq⟩ := hn
    rw [climb_one] at hq
    obtain ⟨y, hy, hp⟩ := link_eq_some.1 hq
    exact absurd hp (h y (lookup_eq_some.1 hy).1)

omit [LinearOrder α] in
/-- Siblings' keys differ in the labels at their ends. -/
theorem Joined.sibling (h : t.Joined parent label sep x k) (hy : parent y = parent x) :
    ∃ l, k = l ++ label x ∧ t.Joined parent label sep y (l ++ label y) := by
  cases h with
  | root hx => exact ⟨[], rfl, .root (hy.trans hx)⟩
  | @under _ z q l hx hz hl =>
    refine ⟨l ++ [sep], by simp, ?_⟩
    rw [List.append_assoc]
    exact .under (hy.trans hx) hz hl

/-! ### Sorted rows -/

variable {xs : List (List α × β)} {g : γ}

/-- Rows of a group, each with its joined key, in the order of these. -/
structure SortedRows (t : KeyedTable key) (parent : β → Option κ) (group : β → γ)
    (label : β → List α) (sep : α) (g : γ) (xs : List (List α × β)) : Prop where
  rows : ∀ e ∈ xs, e.2 ∈ t.rows
  joined : ∀ e ∈ xs, t.Joined parent label sep e.2 e.1
  group : ∀ e ∈ xs, group e.2 = g
  nodup : (xs.map Prod.snd).Nodup
  sorted : xs.Pairwise fun e e' => e.1 ≤ e'.1

theorem inPreorder_of_sorted (ht : t.Trees parent group)
    (hl : t.WellLabelled parent group label sep)
    (h : t.SortedRows parent group label sep g xs) : t.InPreorder parent (xs.map Prod.snd) where
  parents := by
    rw [List.pairwise_map]
    refine h.sorted.imp_of_mem fun {e e'} he he' hle n hn => ?_
    obtain ⟨-, l, hjoined, ⟨hzero, -⟩ | ⟨p, hp⟩⟩ :=
      (h.joined e he).of_climb (h.rows e he) (h.rows e' he') ht hn
    · omega
    · rw [hp, (h.joined e' he').unique hjoined] at hle
      have hlt : l < l ++ sep :: p := by
        have hnil : l ++ [] < l ++ sep :: p := List.append_left_lt (List.nil_lt_cons _ _)
        rwa [List.append_nil] at hnil
      exact absurd hle (not_le.2 hlt)
  blocks a ha x y z hsub hax haz := by
    obtain ⟨es, hes, heq⟩ := List.sublist_map_iff.1 hsub
    obtain ⟨ex, ey, ez, rfl⟩ : ∃ ex ey ez, es = [ex, ey, ez] := by
      rcases es with _ | ⟨ex, _ | ⟨ey, _ | ⟨ez, _ | ⟨e, es⟩⟩⟩⟩ <;> simp at heq ⊢
    simp only [List.map_cons, List.map_nil, List.cons.injEq, and_true] at heq
    obtain ⟨rfl, rfl, rfl⟩ := heq
    have hsorted := h.sorted.sublist hes
    simp only [List.pairwise_cons, List.mem_cons, List.not_mem_nil, or_false, forall_eq_or_imp,
      forall_eq] at hsorted
    obtain ⟨⟨hxy, -⟩, hyz, -⟩ := hsorted
    have hx := hes.subset (show ex ∈ [ex, ey, ez] by simp)
    have hy := hes.subset (show ey ∈ [ex, ey, ez] by simp)
    have hz := hes.subset (show ez ∈ [ex, ey, ez] by simp)
    obtain ⟨n, hn⟩ := hax
    obtain ⟨m, hm⟩ := haz
    obtain ⟨hga, l, hal, hkx⟩ := (h.joined ex hx).of_climb (h.rows ex hx) ha ht hn
    obtain ⟨-, l', hal', hkz⟩ := (h.joined ez hz).of_climb (h.rows ez hz) ha ht hm
    obtain rfl := hal.unique hal'
    obtain ⟨px, hpx⟩ : ∃ px, ex.1 = l ++ px := by
      rcases hkx with ⟨-, hkx⟩ | ⟨p, hkx⟩
      · exact ⟨[], by rw [hkx, List.append_nil]⟩
      · exact ⟨_, hkx⟩
    obtain ⟨pz, hpz, hend⟩ : ∃ pz, ez.1 = l ++ pz ∧ (pz = [] ∨ ∃ p, pz = sep :: p) := by
      rcases hkz with ⟨-, hkz⟩ | ⟨p, hkz⟩
      · exact ⟨[], by rw [hkz, List.append_nil], .inl rfl⟩
      · exact ⟨_, hkz, .inr ⟨p, rfl⟩⟩
    rw [hpx] at hxy
    rw [hpz] at hyz
    obtain ⟨s, hs, -, hsz⟩ := prefix_of_between hxy hyz
    -- what `y`'s key goes on with begins no later than a separator
    have hstart : s = [] ∨ ∃ p, s = sep :: p := by
      rcases s with _ | ⟨c, s⟩
      · exact .inl rfl
      · have hc : sep ≤ c := (h.joined ey hy).above (h.rows ey hy) hl c (by rw [hs]; simp)
        rcases hend with rfl | ⟨p, rfl⟩
        · exact absurd (List.nil_lt_cons c s) (not_lt.2 hsz)
        · rcases cons_le_cons_iff.1 hsz with hlt | ⟨rfl, -⟩
          · exact absurd hlt (not_lt.2 hc)
          · exact .inr ⟨s, rfl⟩
    obtain ⟨b, hb, hbl, hby, hgb⟩ :=
      (h.joined ey hy).exists_below (h.rows ey hy) ht hl hs hstart
    have hgroup : group a = group b := by
      rw [hga, hgb, h.group ex hx, h.group ey hy]
    obtain ⟨hparent, hlabel⟩ := hal.inj hbl ha hb ht hl hgroup
    by_cases hab : a = b
    · rwa [hab]
    · have hleaf := hl.ties a ha b hb hab hgroup hparent hlabel
      have hxa := hleaf.eq_of_below ha (h.rows ex hx) ⟨n, hn⟩
      have hza := hleaf.eq_of_below ha (h.rows ez hz) ⟨m, hm⟩
      have hnodup := h.nodup.sublist hsub
      simp [hxa, hza] at hnodup

/-- The siblings among sorted rows are in the order of their labels. -/
theorem labels_of_sorted (h : t.SortedRows parent group label sep g xs) :
    (xs.map Prod.snd).Pairwise fun x y => parent x = parent y → label x ≤ label y := by
  rw [List.pairwise_map]
  refine h.sorted.imp_of_mem fun {e e'} he he' hle hparent => ?_
  have hx := h.joined e he
  have hy := h.joined e' he'
  generalize hk : e.1 = k at hx hle
  generalize hk' : e'.1 = l at hy hle
  cases hx with
  | root hpx =>
    cases hy with
    | root => exact hle
    | under hpy => simp [hparent, hpy] at hpx
  | under hpx hy' hjoined =>
    cases hy with
    | root hpy => simp [hparent, hpy] at hpx
    | under hpy hy'' hjoined' =>
      obtain rfl := Option.some.inj (hpx.symm.trans (hparent.trans hpy))
      obtain rfl := Option.some.inj (hy'.symm.trans hy'')
      obtain rfl := hjoined.unique hjoined'
      obtain ⟨s, hs, hles, -⟩ := prefix_of_between hle le_rfl
      rw [← List.append_cancel_left hs] at hles
      rcases cons_le_cons_iff.1 hles with hlt | ⟨-, hlabel⟩
      · exact absurd hlt (lt_irrefl _)
      · exact hlabel

end KeyedTable
