import BuilderPro.App.GoalClicks

/-!
# The order of siblings

Were the clicks under way undone, the goals under a parent would have distinct `ord`s, in the order
that creations, deletions and the successful clicks have made (`Ordered`).  A request that moves a
goal to where its click has it (`Moves`) keeps that, and so does every step in turn
(`Ordered.step`).
-/

namespace BuilderPro

namespace GoalTreeState

variable {st st' : GoalTreeState}

section OrderedSteps

variable {w : Swap} {id : String} {ord : ℤ}

theorem Seen.mem_ids (h : st.Seen) (hw : w ∈ st.swaps.rows) (hc : w.captured id ≠ none) :
    id ∈ st.ids := by
  obtain ⟨hgoal, hneighbor, -⟩ := h.pairs w hw
  rw [ne_eq, Swap.captured_eq_none, not_and_or, not_not, not_not] at hc
  rcases hc with rfl | rfl
  · exact hgoal.1
  · exact hneighbor.1

/-- The goals of a click are siblings. -/
theorem Seen.siblings (h : st.Seen) (hw : w ∈ st.swaps.rows) {a b : Goal}
    (ha : st.db.goals.lookup a.id = some a) (hb : st.db.goals.lookup b.id = some b)
    (hca : w.captured a.id ≠ none) (hcb : w.captured b.id ≠ none) :
    a.projectId = b.projectId ∧ a.parentId = b.parentId := by
  obtain ⟨hgoal, hneighbor, -, hproject, hparent⟩ := h.pairs w hw
  have hseen {x : Goal} (hx : st.db.goals.lookup x.id = some x) (hc : w.captured x.id ≠ none) :
      x.projectId = w.goal.projectId ∧ x.parentId = w.goal.parentId := by
    rw [ne_eq, Swap.captured_eq_none, not_and_or, not_not, not_not] at hc
    rcases hc with hc | hc
    · exact hgoal.2 x (hc ▸ hx)
    · obtain ⟨hp, hq⟩ := hneighbor.2 x (hc ▸ hx)
      exact ⟨hp.trans hproject, hq.trans hparent⟩
  obtain ⟨hap, haq⟩ := hseen ha hca
  obtain ⟨hbp, hbq⟩ := hseen hb hcb
  exact ⟨hap.trans hbp.symm, haq.trans hbq.symm⟩

theorem Ordered.create {p title body : String} {parent : Option String} {kind : GoalKind} {now : ℤ}
    (h : st.Ordered) (hseen : st.Seen)
    (hc : st.InTurn (.createGoal p parent kind title body id now))
    (hs : st.step (.createGoal p parent kind title body id now) = some st') : st'.Ordered := by
  obtain ⟨hid, hs⟩ := Option.ite_none_left_eq_some.1 hs
  split at hs
  · rename_i db g hdb
    cases hs
    obtain ⟨hinsert, rfl, hproject, hparent, hord⟩ := Store.createGoal_rows hdb
    have hlookup {k : String} (hk : k ∈ st.ids) : db.goals.lookup k = st.db.goals.lookup k := by
      rw [KeyedTable.lookup_insert hinsert, if_neg fun hkg : k = g.id => hid (hkg ▸ hk)]
    have hlookup' : db.goals.lookup g.id = some g := by
      rw [KeyedTable.lookup_insert hinsert, if_pos rfl]
    set st' : GoalTreeState :=
      { st with
        db := db, ids := g.id :: st.ids
        order := fun p' q =>
          if p' = p ∧ q = parent then st.order p' q ++ [g.id] else st.order p' q } with hst'
    have hu {w : Swap} (hw : w ∈ st.swaps.rows) : st'.UnderWay w ↔ st.UnderWay w := by
      obtain ⟨hgoal, hneighbor, -⟩ := hseen.pairs w hw
      simp only [UnderWay, hst', hlookup hgoal.1, hlookup hneighbor.1]
    have hapart : st'.Apart := fun w hw w' hw' hu₁ hu₂ =>
      h.apart w hw w' hw' ((hu hw).1 hu₁) ((hu hw').1 hu₂)
    have hheld (id : String) (ord : ℤ) : st'.Holds id ord ↔ st.Holds id ord :=
      exists_congr fun w => and_congr_right fun hw => and_congr_left' (hu hw)
    have hrank {x : String} (hx : x ∈ st.ids) : st'.rank x = st.rank x := by
      have hx' : st'.db.goals.lookup x = st.db.goals.lookup x := hlookup hx
      rcases hg : st.db.goals.lookup x with _ | y
      · rw [rank, rank, hx', hg]
        rfl
      · rw [rank_of_lookup hg, rank_of_lookup (hx'.trans hg)]
        exact settledOrd_congr h.apart hapart rfl (hheld y.id) fun _ => rfl
    have hids {p' : String} {q : Option String} {x : String} (hx : x ∈ st.order p' q) :
        x ∈ st.ids := by
      obtain ⟨y, hy, -⟩ := (h.mem p' q x).1 hx
      exact KeyedTable.key_eq hy ▸ hseen.ids y (KeyedTable.lookup_eq_some.1 hy).1
    refine ⟨hapart, fun w hw hu' y hy ord ho => ?_, fun p' q x => ?_, fun p' q => ?_⟩
    · have hy : y ∈ db.goals.rows := hy
      rw [(KeyedTable.insert_eq_some.1 hinsert).2, List.mem_append, List.mem_singleton] at hy
      rcases hy with hy | rfl
      · exact h.given w hw ((hu hw).1 hu') y hy ord ho
      · exact absurd (hseen.mem_ids hw (Swap.captured_ne_none_of_given ho)) hid
    · show x ∈ (if p' = p ∧ q = parent then st.order p' q ++ [g.id] else st.order p' q) ↔
        ∃ y, db.goals.lookup x = some y ∧ y.projectId = p' ∧ y.parentId = q
      rw [KeyedTable.lookup_insert hinsert]
      have hold : x ≠ g.id → (x ∈ (if p' = p ∧ q = parent then st.order p' q ++ [g.id]
          else st.order p' q) ↔ x ∈ st.order p' q) := by
        intro hx
        split_ifs <;> simp [hx]
      by_cases hx : x = g.id
      · rw [hx, if_pos rfl]
        by_cases hpq : p' = p ∧ q = parent
        · rw [if_pos hpq, hpq.1, hpq.2]
          simp [hproject, hparent]
        · rw [if_neg hpq]
          refine iff_of_false (fun hmem => hid (hids hmem)) ?_
          rintro ⟨y, hy, rfl, rfl⟩
          obtain rfl := Option.some.inj hy
          exact hpq ⟨hproject, hparent⟩
      · rw [hold hx, if_neg hx]
        exact h.mem p' q x
    · have hcongr : Ranked st'.rank (st.order p' q) :=
        (h.ranked p' q).congr fun x hx => hrank (hids hx)
      show Ranked st'.rank (if p' = p ∧ q = parent then st.order p' q ++ [g.id] else st.order p' q)
      split_ifs with hpq
      · obtain ⟨rfl, rfl⟩ := hpq
        refine hcongr.concat fun x hx => ?_
        obtain ⟨y, hy, hyp, hyq⟩ := (h.mem p' q x).1 hx
        have hidle : st'.Idle g.id := fun w hw _ =>
          by_contra fun hcap => hid (hseen.mem_ids hw hcap)
        rw [hrank (hids hx), rank_of_lookup hy, rank_of_lookup hlookup', settledOrd_of_idle hidle,
          hord]
        exact hc y (KeyedTable.lookup_eq_some.1 hy).1 hyp hyq
      · exact hcongr
  · cases hs
    exact ⟨h.apart, h.given, h.mem, h.ranked⟩

/-- The goals that a deletion leaves. -/
theorem lookup_deleteGoal {db : Store} (hdb : st.db.deleteGoal id = .ok db) {k : String} :
    db.goals.lookup k = (st.db.goals.lookup k).filter fun g => !st.db.underGoal id g.id := by
  rw [Store.deleteGoal_rows hdb, KeyedTable.lookup_keep]

theorem Ordered.delete (h : st.Ordered) (hseen : st.Seen) (hc : st.InTurn (.deleteGoal id))
    (hs : st.step (.deleteGoal id) = some st') : st'.Ordered := by
  simp only [step] at hs
  split at hs
  · rename_i db hdb
    cases hs
    set st' : GoalTreeState :=
      { st with
        db := db
        order := fun p q => (st.order p q).filter fun x => (db.goals.lookup x).isSome } with hst'
    have hlookup {k : String} {g : Goal} : db.goals.lookup k = some g ↔
        st.db.goals.lookup k = some g ∧ st.db.underGoal id k = false := by
      rw [lookup_deleteGoal hdb, Option.filter_eq_some_iff]
      refine and_congr_right fun hg => ?_
      rw [KeyedTable.key_eq hg, Bool.not_eq_true']
    have hu {w : Swap} (hu' : st'.UnderWay w) : st.UnderWay w := by
      obtain ⟨hstage, hgoal, hneighbor⟩ := hu'
      obtain ⟨g, hg⟩ := Option.isSome_iff_exists.1 hgoal
      obtain ⟨n, hn⟩ := Option.isSome_iff_exists.1 hneighbor
      exact ⟨hstage, by simp [(hlookup.1 hg).1], by simp [(hlookup.1 hn).1]⟩
    have hapart : st'.Apart := fun w hw w' hw' hu₁ hu₂ => h.apart w hw w' hw' (hu hu₁) (hu hu₂)
    -- a click with a goal that stays goes on, unless its other goal is the one that is named
    have hkeep {w : Swap} {y : Goal} (hw : w ∈ st.swaps.rows) (huw : st.UnderWay w)
        (hy : db.goals.lookup y.id = some y) (hcap : w.captured y.id ≠ none)
        (hnot : w.captured id = none) : st'.UnderWay w := by
      have hstays {k : String} (hk : (st.db.goals.lookup k).isSome) (hck : w.captured k ≠ none) :
          (db.goals.lookup k).isSome := by
        obtain ⟨z, hz⟩ := Option.isSome_iff_exists.1 hk
        obtain rfl : z.id = k := KeyedTable.key_eq hz
        obtain ⟨hy, hyu⟩ := hlookup.1 hy
        have hzid : z.id ≠ id := fun hzid => hck (hzid ▸ hnot)
        have hzu : st.db.underGoal id z.id = false := by
          by_contra hzu
          rw [Bool.not_eq_false] at hzu
          have hparent := (hseen.siblings hw hz hy hck hcap).2
          rw [Store.underGoal_of_sibling hz hy hparent hzid hzu] at hyu
          cases hyu
        rw [hlookup.2 ⟨hz, hzu⟩]
        rfl
      refine ⟨huw.1, hstays huw.2.1 (by simp), hstays huw.2.2 ?_⟩
      rw [Swap.captured_neighbor (hseen.pairs w hw).2.2.1]
      exact Option.some_ne_none _
    have hgone : db.goals.lookup id = none := by
      rcases hg : db.goals.lookup id with _ | g
      · rfl
      · have hu := (hlookup.1 hg).2
        rw [Store.underGoal, Bool.eq_false_iff, ne_eq, Forest.reaches_iff] at hu
        exact (hu ⟨0, Nat.succ_pos _, rfl⟩).elim
    have hmem (p : String) (q : Option String) (x : String) : x ∈ st'.order p q ↔
        ∃ g, db.goals.lookup x = some g ∧ g.projectId = p ∧ g.parentId = q := by
      simp only [hst', List.mem_filter, h.mem, Option.isSome_iff_exists, hlookup]
      constructor
      · rintro ⟨⟨g, hg, hpq⟩, g', hg', hu'⟩
        exact ⟨g, ⟨hg, hu'⟩, hpq⟩
      · rintro ⟨g, ⟨hg, hu'⟩, hpq⟩
        exact ⟨⟨g, hg, hpq⟩, g, hg, hu'⟩
    -- the settled order of a goal that stays is kept, unless it goes by the one that is named
    have hrank {y : Goal} (hy : db.goals.lookup y.id = some y)
        (hnot : ∀ w ∈ st.swaps.rows, st.UnderWay w → w.captured y.id ≠ none →
          w.captured id = none) : st'.rank y.id = st.rank y.id := by
      rw [rank_of_lookup (hlookup.1 hy).1, rank_of_lookup (show st'.db.goals.lookup _ = _ from hy)]
      refine settledOrd_congr h.apart hapart rfl (fun ord => ⟨?_, ?_⟩) fun _ => rfl
      · rintro ⟨w, hw, hu', hcap⟩
        exact ⟨w, hw, hu hu', hcap⟩
      · rintro ⟨w, hw, hu', hcap⟩
        have hne : w.captured y.id ≠ none := by simp [hcap]
        exact ⟨w, hw, hkeep hw hu' hy hne (hnot w hw hu' hne), hcap⟩
    refine ⟨hapart, fun w hw hu' y hy => ?_, hmem, fun p q => ?_⟩
    · have hy' : y ∈ db.goals.rows := hy
      exact h.given w hw (hu hu') y
        (KeyedTable.lookup_eq_some.1 (hlookup.1 (KeyedTable.mem_rows.1 hy')).1).1
    · have hl : Ranked st.rank (st'.order p q) := (h.ranked p q).filter _
      by_cases hone : ∃ y ∈ st.db.goals.rows, y.id ∈ st'.order p q ∧ ∃ w ∈ st.swaps.rows,
          st.UnderWay w ∧ w.captured y.id ≠ none ∧ w.captured id ≠ none
      · obtain ⟨y, hy, hyl, w, hw, huw, hcy, hcid⟩ := hone
        have hstays {x : String} (hx : x ∈ st'.order p q) : x ≠ id := by
          rintro rfl
          obtain ⟨g, hg, -⟩ := (hmem p q x).1 hx
          rw [hgone] at hg
          cases hg
        obtain ⟨y', hy', hyp, hyq⟩ := (hmem p q y.id).1 hyl
        obtain rfl : y' = y :=
          Option.some.inj ((hlookup.1 hy').1.symm.trans (KeyedTable.mem_rows.1 hy))
        have hidle : st'.Idle y'.id := by
          intro v hv huv
          by_contra hcv
          obtain rfl := h.apart v hv w hw (hu huv) huw y'.id hcv hcy
          rw [ne_eq, Swap.captured_eq_none, not_and_or, not_not, not_not] at hcid
          rcases hcid with rfl | rfl
          · simp [UnderWay, hst', hgone] at huv
          · simp [UnderWay, hst', hgone] at huv
        refine hl.shift (a := y'.id) (fun x hx hxy => ?_) fun x hx hxy => ?_
        · obtain ⟨z, hz, hzp, hzq⟩ := (hmem p q x).1 hx
          obtain rfl := KeyedTable.key_eq hz
          rw [rank_of_lookup (hlookup.1 hz).1, rank_of_lookup (hlookup.1 hy').1,
            rank_of_lookup (show st'.db.goals.lookup _ = _ from hy'), settledOrd_of_idle hidle]
          exact hc w hw huw hcid y' hy (hstays hyl) hcy z
            (KeyedTable.lookup_eq_some.1 (hlookup.1 hz).1).1 (hzp.trans hyp.symm)
            (hzq.trans hyq.symm) hxy fun hzid => hstays hx (Option.some.inj hzid)
        · obtain ⟨z, hz, -⟩ := (hmem p q x).1 hx
          obtain rfl := KeyedTable.key_eq hz
          refine hrank hz fun v hv huv hcz => by_contra fun hcv => ?_
          -- a click has two goals
          obtain rfl := h.apart v hv w hw huv huw id hcv hcid
          rw [ne_eq, Swap.captured_eq_none, not_and_or, not_not, not_not] at hcz hcid hcy
          have hzid := hstays hx
          have hyid := hstays hyl
          grind
      · refine hl.congr fun x hx => ?_
        obtain ⟨y, hy, -⟩ := (hmem p q x).1 hx
        obtain rfl := KeyedTable.key_eq hy
        refine hrank hy fun w hw huw hcap => by_contra fun hcid => hone ?_
        exact ⟨y, (KeyedTable.lookup_eq_some.1 (hlookup.1 hy).1).1, hx, w, hw, huw, hcap, hcid⟩
  · cases hs
    exact h

theorem mem_erase_iff {no : ℕ} (hw : st.swaps.lookup no = some w) {v : Swap} :
    v ∈ (st.swaps.erase no).rows ↔ v ∈ st.swaps.rows ∧ v ≠ w := by
  obtain ⟨hwmem, hno⟩ := KeyedTable.lookup_eq_some.1 hw
  rw [KeyedTable.erase, KeyedTable.keep, List.mem_filter]
  refine and_congr_right fun hv => ?_
  rw [decide_eq_true_iff, not_iff_not]
  constructor
  · intro hvno
    exact Option.some.inj ((hvno ▸ KeyedTable.mem_rows.1 hv).symm.trans hw)
  · rintro rfl
    exact hno

/-- A click that is not under way leaves nothing behind. -/
theorem Ordered.drop {no : ℕ} (h : st.Ordered) (hw : st.swaps.lookup no = some w)
    (hu : ¬st.UnderWay w) : Ordered { st with swaps := st.swaps.erase no } := by
  set st' : GoalTreeState := { st with swaps := st.swaps.erase no }
  have hrows {v : Swap} (hv : v ∈ st'.swaps.rows) : v ∈ st.swaps.rows :=
    ((mem_erase_iff hw).1 hv).1
  have hapart : st'.Apart := fun v hv v' hv' => h.apart v (hrows hv) v' (hrows hv')
  have hheld (id : String) (ord : ℤ) : st'.Holds id ord ↔ st.Holds id ord := by
    constructor
    · rintro ⟨v, hv, hc⟩
      exact ⟨v, hrows hv, hc⟩
    · rintro ⟨v, hv, huv, hc⟩
      refine ⟨v, (mem_erase_iff hw).2 ⟨hv, ?_⟩, huv, hc⟩
      rintro rfl
      exact hu huv
  refine ⟨hapart, fun v hv => h.given v (hrows hv), h.mem, fun p q => ?_⟩
  refine (h.ranked p q).congr fun x hx => ?_
  obtain ⟨g, hg, -⟩ := (h.mem p q x).1 hx
  rw [rank_of_lookup hg, rank_of_lookup (show st'.db.goals.lookup x = some g from hg)]
  exact settledOrd_congr h.apart hapart rfl (hheld g.id) fun _ => rfl

/-- A new click is not under way. -/
theorem Ordered.click {no : ℕ} {p : String} {pick : List Goal → Goal → Option Goal}
    (h : st.Ordered) (hs : st.click no p id pick = some st') : st'.Ordered := by
  simp only [GoalTreeState.click, Option.bind_eq_some_iff] at hs
  obtain ⟨goal, -, hs⟩ := hs
  split at hs
  · rename_i n hn
    obtain ⟨swaps, hswaps, rfl⟩ := Option.map_eq_some_iff.1 hs
    set st' : GoalTreeState := { st with swaps := swaps }
    have hrows {v : Swap} (hv : v ∈ st'.swaps.rows) (hu : st'.UnderWay v) : v ∈ st.swaps.rows := by
      have hv : v ∈ swaps.rows := hv
      rw [(KeyedTable.insert_eq_some.1 hswaps).2, List.mem_append, List.mem_singleton] at hv
      rcases hv with hv | rfl
      · exact hv
      · exact absurd rfl hu.1
    have hapart : st'.Apart := fun v hv v' hv' hu hu' =>
      h.apart v (hrows hv hu) v' (hrows hv' hu') hu hu'
    have hheld (id : String) (ord : ℤ) : st'.Holds id ord ↔ st.Holds id ord := by
      constructor
      · rintro ⟨v, hv, hu, hc⟩
        exact ⟨v, hrows hv hu, hu, hc⟩
      · rintro ⟨v, hv, hu, hc⟩
        refine ⟨v, ?_, hu, hc⟩
        show v ∈ swaps.rows
        rw [(KeyedTable.insert_eq_some.1 hswaps).2]
        exact List.mem_append_left _ hv
    refine ⟨hapart, fun v hv hu => h.given v (hrows hv hu) hu, h.mem, fun p q => ?_⟩
    refine (h.ranked p q).congr fun x hx => ?_
    obtain ⟨g, hg, -⟩ := (h.mem p q x).1 hx
    rw [rank_of_lookup hg, rank_of_lookup (show st'.db.goals.lookup x = some g from hg)]
    exact settledOrd_congr h.apart hapart rfl (hheld g.id) fun _ => rfl
  · cases hs
    exact h

theorem Ordered.succeed {no : ℕ} (h : st.Ordered) (hseen : st.Seen)
    (hs : st.step (.succeed no) = some st') : st'.Ordered := by
  simp only [step, Option.bind_eq_some_iff] at hs
  obtain ⟨w, hw, hs⟩ := hs
  obtain ⟨hstage, ⟨⟩⟩ := Option.ite_none_right_eq_some.1 hs
  have hwmem := (KeyedTable.lookup_eq_some.1 hw).1
  have hne := (hseen.pairs w hwmem).2.2.1
  by_cases huw : st.UnderWay w
  · set st' : GoalTreeState :=
      { st with
        swaps := st.swaps.erase no
        order := fun p q => exchange w.goal.id w.neighbor.id (st.order p q) } with hst'
    have hrows {v : Swap} (hv : v ∈ st'.swaps.rows) : v ∈ st.swaps.rows :=
      ((mem_erase_iff hw).1 hv).1
    have hapart : st'.Apart := fun v hv v' hv' => h.apart v (hrows hv) v' (hrows hv')
    obtain ⟨-, hgoal, hneighbor⟩ := id huw
    obtain ⟨x, hx⟩ := Option.isSome_iff_exists.1 hgoal
    obtain ⟨y, hy⟩ := Option.isSome_iff_exists.1 hneighbor
    have hxid : x.id = w.goal.id := KeyedTable.key_eq hx
    have hyid : y.id = w.neighbor.id := KeyedTable.key_eq hy
    have hcx : w.captured x.id = some w.goal.ord := by rw [hxid, Swap.captured_goal]
    have hcy : w.captured y.id = some w.neighbor.ord := by rw [hyid, Swap.captured_neighbor hne]
    have hidle {z : String} (hz : w.captured z ≠ none) : st'.Idle z := fun v hv huv =>
      by_contra fun hcv => ((mem_erase_iff hw).1 hv).2 (h.apart v (hrows hv) w hwmem huv huw z hcv hz)
    -- the goals' rows have each other's settled order
    have hxord : st'.rank w.goal.id = st.rank w.neighbor.id := by
      rw [rank_of_lookup hy, rank_of_lookup (show st'.db.goals.lookup _ = _ from hx),
        settledOrd_of_idle (hidle (by simp [hcx])),
        settledOrd_of_holds h.apart ⟨w, hwmem, huw, hcy⟩]
      exact h.given w hwmem huw x (KeyedTable.lookup_eq_some.1 hx).1 _ (by simp [hxid])
    have hyord : st'.rank w.neighbor.id = st.rank w.goal.id := by
      rw [rank_of_lookup hx, rank_of_lookup (show st'.db.goals.lookup _ = _ from hy),
        settledOrd_of_idle (hidle (by simp [hcy])),
        settledOrd_of_holds h.apart ⟨w, hwmem, huw, hcx⟩]
      refine h.given w hwmem huw y (KeyedTable.lookup_eq_some.1 hy).1 _ ?_
      rw [hyid, Swap.given_neighbor hne, if_pos hstage]
      rfl
    refine ⟨hapart, fun v hv => h.given v (hrows hv), fun p q id => mem_exchange.trans (h.mem p q id),
      fun p q => (h.ranked p q).exchanged ?_ fun z hz => ?_⟩
    · obtain ⟨hp, hq⟩ := hseen.siblings hwmem (hxid ▸ hx) (hyid ▸ hy) (by simp [hcx])
        (by simp [hcy])
      simp only [h.mem, hx, hy, Option.some.injEq, exists_eq_left', hp, hq]
    · by_cases hzg : z = w.goal.id
      · rw [hzg, Equiv.swap_apply_left, hxord]
      · by_cases hzn : z = w.neighbor.id
        · rw [hzn, Equiv.swap_apply_right, hyord]
        · rw [Equiv.swap_apply_of_ne_of_ne hzg hzn]
          obtain ⟨g, hg, -⟩ := (h.mem p q z).1 hz
          obtain rfl := KeyedTable.key_eq hg
          rw [rank_of_lookup hg, rank_of_lookup (show st'.db.goals.lookup _ = some g from hg)]
          refine settledOrd_congr h.apart hapart rfl (fun ord => ⟨?_, ?_⟩) fun _ => rfl
          · rintro ⟨v, hv, hc⟩
            exact ⟨v, hrows hv, hc⟩
          · rintro ⟨v, hv, huv, hc⟩
            refine ⟨v, (mem_erase_iff hw).2 ⟨hv, ?_⟩, huv, hc⟩
            rintro rfl
            rw [Swap.captured_eq_none.2 ⟨hzg, hzn⟩] at hc
            cases hc
  · have hdrop := h.drop hw huw
    refine ⟨hdrop.apart, hdrop.given, fun p q id => mem_exchange.trans (h.mem p q id),
      fun p q => ?_⟩
    have hnot : ¬(w.goal.id ∈ st.order p q ∧ w.neighbor.id ∈ st.order p q) := by
      rintro ⟨hgoal, hneighbor⟩
      obtain ⟨g, hg, -⟩ := (h.mem p q _).1 hgoal
      obtain ⟨n, hn, -⟩ := (h.mem p q _).1 hneighbor
      exact huw ⟨by simp [hstage], by simp [hg], by simp [hn]⟩
    have heq : exchange w.goal.id w.neighbor.id (st.order p q) = st.order p q := if_neg hnot
    show Ranked _ (exchange w.goal.id w.neighbor.id (st.order p q))
    rw [heq]
    exact hdrop.ranked p q

/-- A granted request of a click: a goal's row gets a new `ord`. -/
structure Moves (st st' : GoalTreeState) (w : Swap) (x x' : Goal) : Prop where
  row : st.db.goals.lookup x.id = some x
  id : x'.id = x.id
  project : x'.projectId = x.projectId
  parent : x'.parentId = x.parentId
  lookup : ∀ k, st'.db.goals.lookup k = if k = x.id then some x' else st.db.goals.lookup k
  swap : w ∈ st.swaps.rows
  swaps : ∀ v, v ∈ st'.swaps.rows ↔ v = w.advance ∨ (v ∈ st.swaps.rows ∧ v ≠ w)
  order : st'.order = st.order
  captured : w.captured x.id ≠ none

namespace Moves

variable {x x' : Goal}

theorem underWay_iff (hm : Moves st st' w x x') {v : Swap} : st'.UnderWay v ↔ st.UnderWay v := by
  have hpresent (k : String) :
      (st'.db.goals.lookup k).isSome = (st.db.goals.lookup k).isSome := by
    rw [hm.lookup]
    split_ifs with hk
    · rw [hk, hm.row, Option.isSome_some, Option.isSome_some]
    · rfl
  simp only [UnderWay, hpresent]

theorem mem (hm : Moves st st' w x x') (h : st.Ordered) (p : String) (q : Option String)
    (id : String) : id ∈ st'.order p q ↔
      ∃ g, st'.db.goals.lookup id = some g ∧ g.projectId = p ∧ g.parentId = q := by
  rw [hm.order, h.mem, hm.lookup]
  split_ifs with hid
  · rw [hid, hm.row]
    simp [hm.project, hm.parent]
  · rfl

theorem old_row (hm : Moves st st' w x x') {g : Goal} (hg : st'.db.goals.lookup g.id = some g)
    (hne : g.id ≠ x.id) : st.db.goals.lookup g.id = some g := by
  rwa [hm.lookup, if_neg hne] at hg

theorem new_row (hm : Moves st st' w x x') {g : Goal} (hg : st'.db.goals.lookup g.id = some g)
    (hid : g.id = x.id) : g = x' := by
  rw [hm.lookup, if_pos hid] at hg
  exact (Option.some.inj hg).symm

/-- The click's other goal is gone: the goal moves to where it stands. -/
theorem ordered_alone (hm : Moves st st' w x x') (h : st.Ordered) (hu : ¬st.UnderWay w.advance)
    (hidle : st.Idle x.id) (hclear : st.Clear x x'.ord none) : st'.Ordered := by
  have huw : ¬st.UnderWay w := fun huw => hu ⟨w.advance_stage, huw.2⟩
  have hrows {v : Swap} (hv : v ∈ st'.swaps.rows) (huv : st'.UnderWay v) :
      v ∈ st.swaps.rows ∧ st.UnderWay v := by
    rw [hm.underWay_iff] at huv
    rcases (hm.swaps v).1 hv with rfl | ⟨hv, -⟩
    · exact absurd huv hu
    · exact ⟨hv, huv⟩
  have hapart : st'.Apart := fun v hv v' hv' huv huv' =>
    h.apart v (hrows hv huv).1 v' (hrows hv' huv').1 (hrows hv huv).2 (hrows hv' huv').2
  have hheld (id : String) (ord : ℤ) : st'.Holds id ord ↔ st.Holds id ord := by
    constructor
    · rintro ⟨v, hv, huv, hc⟩
      exact ⟨v, (hrows hv huv).1, (hrows hv huv).2, hc⟩
    · rintro ⟨v, hv, huv, hc⟩
      refine ⟨v, (hm.swaps v).2 (.inr ⟨hv, ?_⟩), hm.underWay_iff.2 huv, hc⟩
      rintro rfl
      exact huw huv
  have hidle' : st'.Idle x'.id := by
    rw [hm.id, idle_iff]
    exact fun ord hh => idle_iff.1 hidle ord ((hheld _ ord).1 hh)
  have hrank' : st'.rank x.id = x'.ord := by
    rw [rank_of_lookup ((hm.lookup x.id).trans (if_pos rfl)), settledOrd_of_idle hidle']
  have hrank {id : String} (hid : id ≠ x.id) : st'.rank id = st.rank id := by
    have hlookup : st'.db.goals.lookup id = st.db.goals.lookup id :=
      (hm.lookup id).trans (if_neg hid)
    rcases hg : st.db.goals.lookup id with _ | g
    · rw [rank, rank, hlookup, hg]
      rfl
    · rw [rank_of_lookup hg, rank_of_lookup (hlookup.trans hg)]
      exact settledOrd_congr h.apart hapart rfl (hheld g.id) fun _ => rfl
  refine ⟨hapart, fun v hv huv g hg ord hord => ?_, hm.mem h, fun p q => ?_⟩
  · obtain ⟨hv, huv⟩ := hrows hv huv
    have hcv := Swap.captured_ne_none_of_given hord
    have hne : g.id ≠ x.id := fun hgx => hcv (hgx ▸ hidle v hv huv)
    exact h.given v hv huv g
      (KeyedTable.lookup_eq_some.1 (hm.old_row (KeyedTable.mem_rows.1 hg) hne)).1 ord hord
  · rw [hm.order]
    by_cases hxl : x.id ∈ st.order p q
    · refine (h.ranked p q).shift (a := x.id) (fun id hid hne => ?_) fun id _ => hrank
      obtain ⟨y, hy, hxp, hxq⟩ := (h.mem p q _).1 hxl
      obtain rfl := Option.some.inj (hm.row.symm.trans hy)
      obtain ⟨g, hg, hgp, hgq⟩ := (h.mem p q id).1 hid
      obtain rfl := KeyedTable.key_eq hg
      rw [rank_of_lookup hg, rank_of_lookup hm.row, hrank']
      exact hclear g (KeyedTable.lookup_eq_some.1 hg).1 (hgp.trans hxp.symm) (hgq.trans hxq.symm)
        hne (Option.some_ne_none _)
    · exact (h.ranked p q).congr fun id hid => hrank fun hidx => hxl (hidx ▸ hid)

/-- Both goals are there: they keep their settled orders. -/
theorem ordered_pair (hm : Moves st st' w x x') (h : st.Ordered) (hu : st.UnderWay w.advance)
    (hfree : ∀ v ∈ st.swaps.rows, v ≠ w → st.UnderWay v → ∀ id, w.captured id ≠ none →
      v.captured id = none)
    (hset : ∀ g ∈ st.db.goals.rows, ∀ ord ∈ w.captured g.id, st.settledOrd g = ord)
    (hgiven : ∀ g ∈ st'.db.goals.rows, ∀ ord ∈ w.advance.given g.id, g.ord = ord) :
    st'.Ordered := by
  have hapart : st'.Apart := by
    intro v hv v' hv' huv huv' id hcv hcv'
    rw [hm.underWay_iff] at huv huv'
    rcases (hm.swaps v).1 hv with rfl | ⟨hv, hvw⟩ <;>
      rcases (hm.swaps v').1 hv' with rfl | ⟨hv', hvw'⟩
    · rfl
    · exact absurd (hfree v' hv' hvw' huv' id hcv) hcv'
    · exact absurd (hfree v hv hvw huv id hcv') hcv
    · exact h.apart v hv v' hv' huv huv' id hcv hcv'
  refine ⟨hapart, fun v hv huv g hg ord hord => ?_, hm.mem h, fun p q => ?_⟩
  · rw [hm.underWay_iff] at huv
    rcases (hm.swaps v).1 hv with rfl | ⟨hv, hvw⟩
    · exact hgiven g hg ord hord
    · have hcv := Swap.captured_ne_none_of_given hord
      have hne : g.id ≠ x.id := fun hgx => hcv (hfree v hv hvw huv _ (hgx ▸ hm.captured))
      exact h.given v hv huv g
        (KeyedTable.lookup_eq_some.1 (hm.old_row (KeyedTable.mem_rows.1 hg) hne)).1 ord hord
  · rw [hm.order]
    refine (h.ranked p q).congr fun id hid => ?_
    obtain ⟨g, hg, -⟩ := (h.mem p q id).1 hid
    obtain rfl := KeyedTable.key_eq hg
    have hadvance : w.advance ∈ st'.swaps.rows := (hm.swaps _).2 (.inl rfl)
    rcases hcw : w.captured g.id with _ | ord
    · have hne : g.id ≠ x.id := fun hgx => hm.captured (hgx ▸ hcw)
      have hg' : st'.db.goals.lookup g.id = some g := by rwa [hm.lookup, if_neg hne]
      rw [rank_of_lookup hg, rank_of_lookup hg']
      refine settledOrd_congr h.apart hapart rfl (fun ord => ⟨?_, ?_⟩) fun _ => rfl
      · rintro ⟨v, hv, huv, hc⟩
        rcases (hm.swaps v).1 hv with rfl | ⟨hv, -⟩
        · rw [Swap.advance_captured, hcw] at hc
          cases hc
        · exact ⟨v, hv, hm.underWay_iff.1 huv, hc⟩
      · rintro ⟨v, hv, huv, hc⟩
        refine ⟨v, (hm.swaps v).2 (.inr ⟨hv, ?_⟩), hm.underWay_iff.2 huv, hc⟩
        rintro rfl
        rw [hcw] at hc
        cases hc
    · have hholds : st'.Holds g.id ord := ⟨_, hadvance, hm.underWay_iff.2 hu, hcw⟩
      rw [rank_of_lookup hg, hset g (KeyedTable.lookup_eq_some.1 hg).1 ord hcw]
      obtain ⟨g', hg', hid'⟩ : ∃ g', st'.db.goals.lookup g.id = some g' ∧ g'.id = g.id := by
        rw [hm.lookup]
        split_ifs with hgx
        · exact ⟨x', rfl, hm.id.trans hgx.symm⟩
        · exact ⟨g, hg, rfl⟩
      rw [rank_of_lookup hg', settledOrd_of_holds hapart (hid'.symm ▸ hholds)]

end Moves

/-- What `MoveGoal` makes of the row that a click moves. -/
theorem moves_of_moveGoal {no : ℕ} {now : ℤ} {g x' : Goal} {db : Store} (hseen : st.Seen)
    (hw : st.swaps.lookup no = some w) (hr : w.request = some (g, ord))
    (hdb : st.db.moveGoal g.id g.parentId ord now = .ok (db, x')) :
    ∃ x, Moves st { st with db := db, swaps := st.swaps.replace w.advance } w x x' ∧
      x.id = g.id ∧ x'.ord = ord := by
  obtain ⟨hwmem, hno⟩ := KeyedTable.lookup_eq_some.1 hw
  obtain ⟨x, hx, hrows, hid, hproject, hparent, hord⟩ := Store.moveGoal_rows hdb
  have hxid : x.id = g.id := KeyedTable.key_eq hx
  have hadvance : st.swaps.lookup w.advance.no = some w := by rwa [Swap.advance_no, hno]
  refine ⟨x, ⟨hxid ▸ hx, hid.trans hxid.symm, hproject, ?_, fun k => ?_, hwmem, fun v => ?_, rfl,
    ?_⟩, hxid, hord⟩
  · exact hparent.trans ((hseen.known_request hwmem hr).2 x hx).2.symm
  · show db.goals.lookup k = _
    rw [hrows, KeyedTable.lookup_replace (k := k) (x := x') (hid ▸ hx), hid, hxid]
  · rw [KeyedTable.mem_replace]
    constructor
    · rintro (⟨rfl, -⟩ | ⟨hv, hne⟩)
      · exact .inl rfl
      · exact .inr ⟨hv, fun hvw => hne (hvw ▸ rfl)⟩
    · rintro (rfl | ⟨hv, hne⟩)
      · exact .inl ⟨rfl, w, hwmem, rfl⟩
      · refine .inr ⟨hv, fun hvno => hne ?_⟩
        exact Option.some.inj ((hvno ▸ KeyedTable.mem_rows.1 hv).symm.trans hadvance)
  · rw [hxid, ne_eq, Swap.captured_eq_none]
    rw [Swap.request] at hr
    rintro ⟨hgoal, hneighbor⟩
    split at hr
    · exact hgoal (congrArg Goal.id (Prod.mk.inj (Option.some.inj hr)).1).symm
    · exact hneighbor (congrArg Goal.id (Prod.mk.inj (Option.some.inj hr)).1).symm
    · cases hr

theorem Ordered.serve {no : ℕ} {now : ℤ} (h : st.Ordered) (hseen : st.Seen)
    (hc : st.InTurn (.serve no now)) (hs : st.step (.serve no now) = some st') : st'.Ordered := by
  simp only [step, Option.bind_eq_some_iff, Option.map_eq_some_iff] at hs
  obtain ⟨w, hw, ⟨g, ord⟩, hr, hs⟩ := hs
  have hturn := hc w hw
  have hwmem := (KeyedTable.lookup_eq_some.1 hw).1
  have hne := (hseen.pairs w hwmem).2.2.1
  split at hs
  · rename_i db x' hdb
    obtain ⟨x, hm, hxid, hxord⟩ := moves_of_moveGoal hseen hw hr hdb
    rw [← hs]
    rcases hstage : w.stage
    · -- the goal takes the neighbor's `ord`
      obtain ⟨rfl, rfl⟩ : w.goal = g ∧ w.neighbor.ord = ord := by
        simpa [Swap.request, hstage] using hr
      simp only [MovesInTurn, hstage] at hturn
      obtain ⟨hidle, hturn⟩ := hturn x (hxid ▸ hm.row)
      by_cases hpresent : (st.db.goals.lookup w.neighbor.id).isSome
      · rw [if_pos hpresent] at hturn
        obtain ⟨n, hn⟩ := Option.isSome_iff_exists.1 hpresent
        have hnid : n.id = w.neighbor.id := KeyedTable.key_eq hn
        obtain ⟨hgord, hturn⟩ := hturn
        obtain ⟨hnord, hnidle⟩ := hturn n hn
        refine hm.ordered_pair h ⟨w.advance_stage, by simp [Swap.advance, ← hxid, hm.row], hpresent⟩
          (fun v hv _ huv id hcid => ?_) (fun y hy o ho => ?_) fun y hy o ho => ?_
        · rw [ne_eq, Swap.captured_eq_none, not_and_or, not_not, not_not] at hcid
          rcases hcid with rfl | rfl
          · exact hxid ▸ hidle v hv huv
          · exact hnid ▸ hnidle v hv huv
        · rcases Swap.mem_captured ho with ⟨hid, rfl⟩ | ⟨hid, rfl⟩
          · have hyx : st.db.goals.lookup x.id = some y :=
              (hid.trans hxid.symm) ▸ KeyedTable.mem_rows.1 hy
            obtain rfl := Option.some.inj (hm.row.symm.trans hyx)
            exact (settledOrd_of_idle hidle).trans hgord
          · obtain rfl := Option.some.inj (hn.symm.trans (hid ▸ KeyedTable.mem_rows.1 hy))
            exact (settledOrd_of_idle hnidle).trans hnord
        · rcases Swap.mem_given ho with ⟨hid, rfl⟩ | ⟨hid, rfl⟩
          · rw [hm.new_row (KeyedTable.mem_rows.1 hy) (hid.trans hxid.symm)]
            exact hxord
          · rw [if_neg (by simp [Swap.advance, hstage])]
            have hyx : y.id ≠ x.id := fun hyx => hne (hid.symm.trans (hyx.trans hxid))
            have hold := hm.old_row (KeyedTable.mem_rows.1 hy) hyx
            obtain rfl := Option.some.inj (hn.symm.trans (hid ▸ hold))
            exact hnord
      · rw [if_neg hpresent] at hturn
        exact hm.ordered_alone h (fun hu => hpresent hu.2.2) hidle (hxord ▸ hturn)
    · -- the neighbor takes the goal's
      obtain ⟨rfl, rfl⟩ : w.neighbor = g ∧ w.goal.ord = ord := by
        simpa [Swap.request, hstage] using hr
      simp only [MovesInTurn, hstage] at hturn
      by_cases huw : st.UnderWay w
      · refine hm.ordered_pair h ⟨w.advance_stage, huw.2⟩
          (fun v hv hvw huv id hcid => by_contra fun hcv =>
            hvw (h.apart v hv w hwmem huv huw id hcv hcid))
          (fun y hy o ho => settledOrd_of_holds h.apart ⟨w, hwmem, huw, ho⟩) fun y hy o ho => ?_
        rcases Swap.mem_given ho with ⟨hid, rfl⟩ | ⟨hid, rfl⟩
        · have hyx : y.id ≠ x.id := fun hyx => hne (hxid.symm.trans (hyx.symm.trans hid))
          have hold := hm.old_row (KeyedTable.mem_rows.1 hy) hyx
          exact h.given w hwmem huw y (KeyedTable.lookup_eq_some.1 hold).1 _ (hid ▸ Swap.given_goal)
        · rw [if_pos (by simp [Swap.advance, hstage]),
            hm.new_row (KeyedTable.mem_rows.1 hy) (hid.trans hxid.symm)]
          exact hxord
      · rw [if_neg huw] at hturn
        obtain ⟨hidle, hclear⟩ := hturn x (hxid ▸ hm.row)
        exact hm.ordered_alone h (fun hu => huw ⟨by simp [hstage], hu.2⟩) hidle (hxord ▸ hclear)
    · simp [Swap.request, hstage] at hr
  · rename_i e hdb
    rw [← hs]
    refine h.drop hw fun huw => ?_
    rcases hstage : w.stage
    · exact huw.1 hstage
    · simp only [Swap.request, hstage, Option.some.injEq, Prod.mk.injEq] at hr
      obtain ⟨rfl, rfl⟩ := hr
      simp [MovesInTurn, hstage, huw, hdb, Except.isOk, Except.toBool] at hturn
    · simp [Swap.request, hstage] at hr

theorem Ordered.step {a : GoalTreeAction} (h : st.Ordered) (hseen : st.Seen) (hc : st.InTurn a)
    (hs : st.step a = some st') : st'.Ordered := by
  rcases a with _ | id | p | i | ⟨no, p, id⟩ | ⟨no, p, id⟩ | ⟨no, now⟩ | no | no
  · exact h.create hseen hc hs
  · exact h.delete hseen hc hs
  · simp only [GoalTreeState.step] at hs
    split at hs <;> cases hs
    · exact ⟨h.apart, h.given, h.mem, h.ranked⟩
    · exact h
  · obtain ⟨r, -, rfl⟩ := Option.map_eq_some_iff.1 hs
    exact ⟨h.apart, h.given, h.mem, h.ranked⟩
  · exact h.click hs
  · exact h.click hs
  · exact h.serve hseen hc hs
  · obtain ⟨w, hw, rfl⟩ := Option.map_eq_some_iff.1 hs
    exact h.drop hw (hc w hw)
  · exact h.succeed hseen hs

end OrderedSteps

end GoalTreeState

end BuilderPro
