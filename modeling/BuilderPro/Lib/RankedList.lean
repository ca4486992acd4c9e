import Mathlib.Data.List.Sort
import Mathlib.Logic.Equiv.Basic

/-!
# Lists kept by ranks

A list in the order of a number that each entry has: what becomes of it when an entry is added
behind the others, when two entries change places and when an entry's number moves to one that
leaves it where it stands.
-/

variable {α β : Type*} [LinearOrder β]

/-- The list is in the order of its entries' ranks, which are distinct. -/
def Ranked (v : α → β) (l : List α) : Prop := l.Pairwise fun a b => v a < v b

/-- A rank lies between two others, or is one of them. -/
def Between (a b c : β) : Prop := min a b ≤ c ∧ c ≤ max a b

instance (a b c : β) : Decidable (Between a b c) := inferInstanceAs (Decidable (_ ∧ _))

/-- Two entries of a list change places. -/
def exchange [DecidableEq α] (a b : α) (l : List α) : List α :=
  if a ∈ l ∧ b ∈ l then l.map (Equiv.swap a b) else l

theorem swap_mem [DecidableEq α] {a b x : α} {l : List α} (ha : a ∈ l) (hb : b ∈ l) (hx : x ∈ l) :
    Equiv.swap a b x ∈ l := by
  by_cases hxa : x = a
  · rwa [hxa, Equiv.swap_apply_left]
  · by_cases hxb : x = b
    · rwa [hxb, Equiv.swap_apply_right]
    · rwa [Equiv.swap_apply_of_ne_of_ne hxa hxb]

theorem mem_exchange [DecidableEq α] {a b x : α} {l : List α} : x ∈ exchange a b l ↔ x ∈ l := by
  unfold exchange
  split_ifs with h
  · rw [List.mem_map]
    constructor
    · rintro ⟨y, hy, rfl⟩
      exact swap_mem h.1 h.2 hy
    · intro hx
      exact ⟨Equiv.swap a b x, swap_mem h.1 h.2 hx, Equiv.swap_apply_self _ _ _⟩
  · rfl

namespace Ranked

variable {v v' : α → β} {l l' : List α} {a b : α}

theorem nodup_map (h : Ranked v l) : (l.map v).Nodup :=
  List.pairwise_map.2 (h.imp fun hab => hab.ne)

theorem nodup (h : Ranked v l) : l.Nodup := h.nodup_map.of_map v

theorem congr (h : Ranked v l) (hv : ∀ x ∈ l, v' x = v x) : Ranked v' l :=
  h.imp_of_mem fun ha hb hab => by rwa [hv _ ha, hv _ hb]

theorem filter (h : Ranked v l) (p : α → Bool) : Ranked v (l.filter p) := List.Pairwise.filter p h

theorem concat (h : Ranked v l) (ha : ∀ x ∈ l, v x < v a) : Ranked v (l ++ [a]) :=
  List.pairwise_append.2 ⟨h, List.pairwise_singleton _ _, fun x hx _ hb => by
    rw [List.mem_singleton.1 hb]
    exact ha x hx⟩

/-- An entry whose rank meets none on its way stays where it is. -/
theorem shift [DecidableEq α] (h : Ranked v l) (ha : ∀ x ∈ l, x ≠ a → ¬Between (v a) (v' a) (v x))
    (hv : ∀ x ∈ l, x ≠ a → v' x = v x) : Ranked v' l := by
  have hapart {x y : α} (hx : x ∈ l) (hy : y ∈ l) (hxy : v x < v y) : v' x < v' y := by
    by_cases hxa : x = a
    · subst hxa
      have hyx : y ≠ x := fun h => hxy.ne (congrArg v h.symm)
      rw [hv y hy hyx]
      have hgap := ha y hy hyx
      rw [Between, not_and, not_le] at hgap
      exact (le_max_right _ _).trans_lt (hgap ((min_le_left _ _).trans hxy.le))
    · rw [hv x hx hxa]
      by_cases hya : y = a
      · subst hya
        have hgap := ha x hx hxa
        rw [Between, not_and'] at hgap
        have hlt := hgap (hxy.le.trans (le_max_left _ _))
        rw [not_le] at hlt
        exact hlt.trans_le (min_le_right _ _)
      · rwa [hv y hy hya]
  exact h.imp_of_mem hapart

/-- Entries that exchange their ranks exchange their places. -/
theorem exchanged [DecidableEq α] (h : Ranked v l) (hab : a ∈ l ↔ b ∈ l)
    (hv : ∀ x ∈ l, v' x = v (Equiv.swap a b x)) : Ranked v' (exchange a b l) := by
  unfold exchange
  split_ifs with hmem
  · refine List.pairwise_map.2 (h.imp_of_mem fun {x y} hx hy hxy => ?_)
    have hswap {z : α} (hz : z ∈ l) : v' (Equiv.swap a b z) = v z := by
      rw [hv _ (swap_mem hmem.1 hmem.2 hz), Equiv.swap_apply_self]
    rwa [hswap hx, hswap hy]
  · refine h.congr fun x hx => (hv x hx).trans (congrArg v ?_)
    refine Equiv.swap_apply_of_ne_of_ne ?_ ?_
    · rintro rfl
      exact hmem ⟨hx, hab.1 hx⟩
    · rintro rfl
      exact hmem ⟨hab.2 hx, hx⟩

/-- The ranks leave no choice of the order. -/
theorem eq_of_perm (h : Ranked v l) (hp : l'.Perm l) (hs : l'.Pairwise fun a b => v a ≤ v b) :
    l' = l := by
  refine hp.eq_of_pairwise (fun a b ha hb hab hba => ?_) hs (h.imp fun hab => hab.le)
  exact List.inj_on_of_nodup_map h.nodup_map (hp.subset ha) hb (le_antisymm hab hba)

end Ranked
