import BuilderPro.Sessiond.AttachInvariant

/-!
# The steps of the reader and of forwarders

The reader gives a chunk to the ring and then to the sinks; a forwarder strips a chunk, sees whether
it has been cancelled, and sends.
-/

namespace BuilderPro

namespace AttachSys

variable {s t : AttachSys} {cap : ℕ} {u : Sub} {out : List UInt8} {k m : ℕ}

/-- A step after which nothing was given to the ring, the sinks or the subscriptions. -/
theorem carries_quiet (ha : t.attach = s.attach) (he : t.entry = s.entry) (hl : t.latest = s.latest)
    (hr : t.received = s.received) (hs : t.subs = s.subs) (hp : t.pushed = s.pushed)
    (hb : t.broadcasting = s.broadcasting) (hd : s.reader = .done → t.reader = .done) :
    Carries s t :=
  ⟨ha, he, hl, hr, by rw [hs], fun i u hu _ => ⟨u, by rwa [hs], id,
    fun _ _ m hf => ⟨m, hf.congr hp hb hd⟩⟩,
    by rw [hp], .inl hp⟩

theorem offer_unstarted {chunk : List UInt8} (h : u.pc = .unstarted) :
    (u.offer chunk).pc = .unstarted := by
  unfold Sub.offer
  split_ifs <;> exact h

theorem attachInv_readerStep (hs : AttachInv cap s) (hsafe : s.attachSafe .reader)
    (h : s.readerStep = some t) : AttachInv cap t := by
  unfold readerStep at h
  split at h
  case h_1 => cases h
  case h_2 chunk hr =>
    cases h
    have hring : (s.ring.push chunk) = (ScrollbackRing.new cap).pushAll (s.pushed ++ [chunk]) := by
      rw [hs.ring, ScrollbackRing.pushAll_append]
      rfl
    refine Carries.inv (s := s) ⟨rfl, rfl, rfl, rfl, rfl, fun i u hu _ => ⟨u, hu, id,
      fun _ _ m hf => ⟨m, hf.push hr rfl rfl⟩⟩, List.prefix_append _ _, .inr ?_⟩ hs hring (by simp)
    simp only [attachSafe, hr, Bool.and_eq_true, bne_iff_ne] at hsafe
    refine ⟨fun i hi => ?_, fun c hc => ?_, hsafe.2⟩
    · simp [hi] at hsafe
    · simp [hc] at hsafe
  case h_3 chunk hr =>
    cases h
    refine Carries.inv (s := s) ⟨rfl, rfl, rfl, rfl, by simp, fun i u hu _ => ⟨u.offer chunk, ?_,
      offer_unstarted, fun _ _ m hf => ⟨m, hf.offer hr rfl rfl⟩⟩, List.prefix_rfl, .inl rfl⟩ hs
      hs.ring (by simp)
    simp [hu]
  case h_4 hr =>
    cases h
    refine Carries.inv (s := s) (carries_quiet rfl rfl rfl rfl rfl rfl ?_ ?_) hs hs.ring
      fun _ => rfl
    · simp [broadcasting, hr]
    · simp [hr]
  case h_5 hr =>
    cases h
    refine Carries.inv (s := s) ⟨rfl, rfl, rfl, rfl, by simp, fun i u hu _ =>
      ⟨{ u with subscribed := false }, by simp [hu], id, fun _ _ m hf => ⟨m, hf.clear hr rfl rfl⟩⟩,
      List.prefix_rfl, .inl rfl⟩ hs hs.ring fun _ => hs.inactive (.inl hr)
  case h_6 => cases h

/-- A forwarder's own move, when it keeps what the forwarder has been fed. -/
theorem carries_setSub {i : ℕ} (hi : s.subs[i]? = some u) {u' : Sub}
    (hpc : u.pc = .unstarted → u'.pc = .unstarted)
    (hf : s.latest = some (.live i) ∨ u.pc = .unstarted →
      ∀ out k m, Fed s u out k m → ∃ m', Fed s u' out k m') : Carries s (s.setSub i u') := by
  have hlt : i < s.subs.length := (List.getElem?_eq_some_iff.1 hi).1
  refine ⟨rfl, rfl, rfl, rfl, by simp [setSub], fun j v hj hwhich => ?_, List.prefix_rfl, .inl rfl⟩
  by_cases hji : i = j
  · subst hji
    obtain rfl : u = v := by simpa [hi] using hj
    refine ⟨u', by simp [setSub, hlt], hpc, fun out k m h => ?_⟩
    obtain ⟨m', h⟩ := hf hwhich out k m h
    exact ⟨m', h.congr rfl rfl id⟩
  · exact ⟨v, by simpa [setSub, hji] using hj, id, fun out k m h => ⟨m, h.congr rfl rfl id⟩⟩

theorem stripAll_snoc (xs : List (List UInt8)) (x : List UInt8) {o : List UInt8}
    {st : LiveOscStripper} (h : LiveOscStripper.new.stripAll xs = (o, st)) :
    LiveOscStripper.new.stripAll (xs ++ [x]) = (o ++ (st.strip x).1, (st.strip x).2) := by
  rw [LiveOscStripper.stripAll_append, h]
  simp [LiveOscStripper.stripAll]

/-- Stripping the chunk in hand. -/
theorem Fed.strip_next (h : Fed s u out k m) {bytes : List UInt8} (hpc : u.pc = .check bytes) :
    Fed s { u with
      stripper := (u.stripper.strip bytes).2
      pc := if (u.stripper.strip bytes).1 = [] then .poll else .send (u.stripper.strip bytes).1 }
      out k (m + 1) := by
  have hrest := h.rest
  rw [show u.inHand = [bytes] by simp [Sub.inHand, hpc]] at hrest
  have hstrip := h.strip
  rw [show u.cleaned = [] by simp [Sub.cleaned, hpc], List.append_nil] at hstrip
  have hlt : m < s.pushed.length := by
    have := congrArg List.length hrest
    simp only [List.length_drop, List.length_append, List.length_cons] at this
    omega
  have hget : s.pushed.take (m + 1) = s.pushed.take m ++ [bytes] := by
    have hm : s.pushed[m]? = some bytes := by
      have := congrArg (·[0]?) hrest
      simpa using this
    rw [List.take_add_one, hm]
    rfl
  have hle : k ≤ (s.pushed.take m).length := by
    rw [List.length_take]
    have := h.le
    omega
  refine ⟨by have := h.le; omega, hlt, ?_, ?_, h.cancel, h.fed, fun hd => ?_⟩
  · rw [hget, List.drop_append_of_le_length hle, stripAll_snoc _ _ hstrip]
    split_ifs with he <;> simp [Sub.cleaned, he]
  · rw [← List.drop_drop, hrest]
    split_ifs <;> simp [Sub.inHand]
  · split_ifs at hd

/-- A move that takes nothing from the channel but into the hand, and strips nothing. -/
theorem Fed.move (h : Fed s u out k m) {u' : Sub}
    (hq : u'.inHand ++ u'.queue = u.inHand ++ u.queue) (hc : u'.cleaned = u.cleaned)
    (hst : u'.stripper = u.stripper) (hcancel : u'.cancel = u.cancel)
    (hsub : u'.subscribed = u.subscribed)
    (hd : u'.pc = .done → u'.queue = [] ∧ s.reader = .done ∧ u'.stripper.carry = []) :
    Fed s u' out k m :=
  ⟨h.le, h.len, by rw [hc, hst]; exact h.strip, by rw [hq]; exact h.rest,
    hcancel.trans h.cancel, by rw [hsub]; exact h.fed, hd⟩

/-- A forwarder's moves but for its sends. -/
theorem forwardStep_carries {i : ℕ} (hi : s.subs[i]? = some u)
    (hsafe : s.attachSafe (.forward i)) (hns : ∀ cleaned, u.pc ≠ .send cleaned)
    (h : s.forwardStep i u = some t) : Carries s t := by
  unfold forwardStep at h
  split at h
  case h_1 => cases h
  case h_2 hpc =>
    cases h
    refine carries_setSub hi (by simp [hpc]) fun _ _ _ m hf =>
      ⟨m, hf.move ?_ ?_ rfl rfl rfl ?_⟩
    · simp [Sub.inHand, hpc, hf.cancel]
    · simp [Sub.cleaned, hpc, hf.cancel]
    · simp [hf.cancel]
  case h_3 hpc =>
    split at h
    · rename_i bytes queue hq
      cases h
      refine carries_setSub hi (by simp [hpc]) fun _ _ _ m hf =>
        ⟨m, hf.move ?_ ?_ rfl rfl rfl ?_⟩
      · simp [Sub.inHand, hpc, hq]
      · simp [Sub.cleaned, hpc]
      · simp
    · rename_i hq
      cases h
      refine carries_setSub hi (by simp [hpc]) fun hlatest _ _ m hf =>
        ⟨m, hf.move ?_ ?_ rfl rfl rfl ?_⟩
      · by_cases hsub : u.subscribed <;> simp [Sub.inHand, hpc, hsub]
      · by_cases hsub : u.subscribed <;> simp [Sub.cleaned, hpc, hsub]
      · by_cases hsub : u.subscribed
        · simp [hsub]
        · have hl : s.latest = some (.live i) := hlatest.resolve_right (by simp [hpc])
          have hcarry : u.stripper.carry = [] := by
            simpa [attachSafe, hi, hpc, hsub, hq, hl] using hsafe
          exact fun _ => ⟨hq, hf.fed.resolve_left hsub, hcarry⟩
  case h_4 bytes hpc =>
    split_ifs at h with hcancel
    · cases h
      refine carries_setSub hi (by simp [hpc]) fun _ _ _ _ hf => ?_
      rw [hf.cancel] at hcancel
      cases hcancel
    · cases h
      exact carries_setSub hi (by simp [hpc]) fun _ _ _ m hf => ⟨m + 1, hf.strip_next hpc⟩
  case h_5 cleaned hpc => exact absurd hpc (hns cleaned)
  case h_6 => cases h

/-- A started forwarder is of no attachment being made. -/
theorem Phase.started (hs : s.Phase cap) {i : ℕ} (hi : s.subs[i]? = some u)
    (hpc : u.pc ≠ .unstarted) (u' : Sub) (received : List AttachPush) :
    Phase cap (setSub { s with received := received } i u') := by
  have hne : ∀ (j : ℕ) v, s.subs[j]? = some v → v.pc = .unstarted →
      (s.subs.set i u')[j]? = some v := by
    intro j v hj hv
    have hij : i ≠ j := fun h => by
      rw [← h, hi] at hj
      obtain rfl := Option.some.inj hj
      exact hpc hv
    rwa [List.getElem?_set_ne hij]
  unfold Phase at hs ⊢
  simp only [setSub]
  rcases ha : s.attach with _ | _ | _ | j | _ | ⟨e, c⟩ | j | e | j | j <;> rw [ha] at hs
  · trivial
  · trivial
  · trivial
  · obtain ⟨v, hv, hvpc, hf⟩ := hs
    exact ⟨v, hne j v hv hvpc, hvpc, hf.congr rfl rfl id⟩
  · trivial
  · cases e with
    | live j =>
      obtain ⟨v, k, hv, hvpc, ⟨m, hf⟩, hr⟩ := hs
      exact ⟨v, k, hne j v hv hvpc, hvpc, ⟨m, hf.congr rfl rfl id⟩, hr.congr rfl⟩
    | replayOnly => exact hs.congr rfl
  · obtain ⟨hl, v, hv, hvpc⟩ := hs
    exact ⟨hl, v, hne j v hv hvpc, hvpc⟩
  · exact hs
  · exact hs
  · exact hs

/-- The latest attachment's forwarder sends. -/
theorem attachInv_send (hs : AttachInv cap s) {i : ℕ} (hi : s.subs[i]? = some u)
    {cleaned : List UInt8} (hpc : u.pc = .send cleaned) (hl : s.latest = some (.live i)) :
    AttachInv cap
      (setSub { s with received := s.received ++ [.output cleaned] } i { u with pc := .poll }) := by
  have hlt : i < s.subs.length := (List.getElem?_eq_some_iff.1 hi).1
  have hlatest := hs.latest
  unfold Latest at hlatest
  rw [hl] at hlatest
  obtain ⟨content, out, k, m, v, hfrom, hr, hv, hf⟩ := hlatest
  obtain rfl : u = v := by simpa [hi] using hv
  refine ⟨hs.ring, hs.inactive, hs.phase.started hi (by simp [hpc]) _ _, ?_, ?_, hs.entryOld,
    hs.latestOld⟩
  · unfold Latest
    simp only [setSub, hl]
    refine ⟨content, out ++ cleaned, k, m, { u with pc := .poll }, by simp [hfrom], hr.congr rfl,
      by simp [hlt], hf.le, hf.len, ?_, ?_, hf.cancel, hf.fed, by simp⟩
    · simpa [Sub.cleaned, hpc] using hf.strip
    · simpa [Sub.inHand, hpc, broadcasting] using hf.rest
  · intro j hj
    simpa [setSub] using hs.entry j hj

theorem attachInv_forwardStep (hs : AttachInv cap s) {i : ℕ} (hi : s.subs[i]? = some u)
    (hsafe : s.attachSafe (.forward i)) (h : s.forwardStep i u = some t) : AttachInv cap t := by
  by_cases hsend : ∃ cleaned, u.pc = .send cleaned
  · obtain ⟨cleaned, hpc⟩ := hsend
    have hl : s.latest = some (.live i) := by simpa [attachSafe, hi, hpc] using hsafe
    have ht : t = setSub { s with received := s.received ++ [.output cleaned] } i
        { u with pc := .poll } := by
      simp only [forwardStep, hpc] at h
      exact (Option.some.inj h).symm
    rw [ht]
    exact attachInv_send hs hi hpc hl
  · have hcar := forwardStep_carries hi hsafe (not_exists.1 hsend) h
    have hsame : t.ring = s.ring ∧ t.pushed = s.pushed ∧ t.reader = s.reader ∧
        t.isActive = s.isActive := by
      unfold forwardStep at h
      split at h <;> (try split at h) <;> cases h <;> exact ⟨rfl, rfl, rfl, rfl⟩
    obtain ⟨h1, h2, h3, h4⟩ := hsame
    exact hcar.inv hs (by rw [h1, h2]; exact hs.ring) (by rw [h3, h4]; exact hs.inactive)

end AttachSys

end BuilderPro
