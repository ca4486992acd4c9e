import BuilderPro.Sessiond.ForwarderSteps

/-!
# Attach delivers every byte once

From its latest replay on, a connection is sent the ring's snapshot and then the chunks the ring was
given after it, stripped, each once and in order (`delivered_of_safe`): in every run in which the
reader is not between the ring and the sinks when the connection subscribes, gives the ring no chunk
between the subscription and the snapshot or after a replay without a subscription, the sanitizer
holds nothing at the snapshot, the forwarder's stripper nothing at its end, and no older forwarder
still sends after the newer replay.
-/

namespace BuilderPro

namespace AttachSys

variable {s t : AttachSys} {cap : ℕ} {u : Sub} {out : List UInt8} {k m : ℕ}

/-- A subscription's forwarder is fed from the chunk after the subscription on. -/
theorem fed_new (hb : s.broadcasting = []) (hp : t.pushed = s.pushed)
    (ht : t.broadcasting = s.broadcasting) : Fed t Sub.new [] s.pushed.length s.pushed.length := by
  refine ⟨le_rfl, by rw [hp], ?_, ?_, rfl, .inl rfl, by simp [Sub.new]⟩
  · rw [hp]
    simp [LiveOscStripper.stripAll, Sub.new, Sub.cleaned]
  · rw [hp, ht, hb]
    simp [Sub.new, Sub.inHand]

/-- A step of the connection that feeds nothing on. -/
theorem latest_congr (hs : s.Latest cap) (hl : t.latest = s.latest) (hr : t.received = s.received)
    (hp : t.pushed = s.pushed) (hb : t.broadcasting = s.broadcasting) (hd : t.reader = s.reader)
    (hsub : ∀ i, s.latest = some (.live i) → t.subs[i]? = s.subs[i]?) : t.Latest cap := by
  unfold Latest at hs ⊢
  rw [hl, hr]
  rcases h : s.latest with _ | i | _ <;> rw [h] at hs
  · exact hs
  · obtain ⟨content, out, k, m, u, hfrom, hring, hu, hf⟩ := hs
    exact ⟨content, out, k, m, u, hfrom, hring.congr (by rw [hp]), by rw [hsub i h]; exact hu,
      hf.congr hp hb fun h => hd.trans h⟩
  · obtain ⟨content, hfrom, hring⟩ := hs
    rw [hp]
    exact ⟨content, hfrom, hring.congr (by rw [hp])⟩

theorem Latest.lt (hs : s.Latest cap) {i : ℕ} (hl : s.latest = some (.live i)) :
    i < s.subs.length := by
  unfold Latest at hs
  rw [hl] at hs
  obtain ⟨-, -, -, -, u, -, -, hu, -⟩ := hs
  exact (List.getElem?_eq_some_iff.1 hu).1

/-- The snapshot, taken while the sanitizer holds nothing. -/
theorem ringAt_now (hs : AttachInv cap s) (hc : s.ring.filter.carry.isEmpty)
    (hp : t.pushed = s.pushed) : RingAt cap t s.pushed.length s.ring.snapshot := by
  constructor <;> rw [hp, List.take_length, ← hs.ring]
  exact List.isEmpty_iff.1 hc

/-- The connection moves on, with what it was sent and subscribed to unchanged. -/
theorem AttachInv.goto (hs : AttachInv cap s) (pc : AttachPc) (hn : newSub pc = none)
    (hph : Phase cap { s with attach := pc }) : AttachInv cap { s with attach := pc } := by
  refine ⟨hs.ring, hs.inactive, hph, latest_congr hs.latest rfl rfl rfl rfl rfl fun _ _ => rfl,
    hs.entry, fun i j hi => ?_, fun i j hi => ?_⟩
  · rw [hn] at hi
    cases hi
  · rcases hi with hi | ⟨c, hi⟩ <;> rw [show pc = _ from hi] at hn <;> cases hn

theorem attachInv_subscribe (hs : AttachInv cap s) (hb : s.broadcasting = []) :
    AttachInv cap
      { s with subs := s.subs ++ [Sub.new], attach := .snapshot s.subs.length } := by
  refine ⟨hs.ring, hs.inactive, ⟨Sub.new, by simp, rfl, fed_new hb rfl rfl⟩,
    latest_congr hs.latest rfl rfl rfl rfl rfl fun i hl => ?_, fun j hj => ?_, fun i j hi hj => ?_,
    fun i j hi hj => ?_⟩
  · exact List.getElem?_append_left (hs.latest.lt hl)
  · have := hs.entry j hj
    simp only [List.length_append, List.length_singleton]
    omega
  · obtain rfl : s.subs.length = i := Option.some.inj hi
    exact (hs.entry j hj).ne
  · rcases hi with hi | ⟨c, hi⟩
    · obtain rfl : s.subs.length = i := by simpa using hi
      exact (hs.latest.lt hj).ne
    · cases hi

theorem attachInv_sendReplay (hs : AttachInv cap s) {entry : AttachEntry} {content : List UInt8}
    (ha : s.attach = .send entry content) :
    AttachInv cap { s with
      received := s.received ++ [.replay content]
      latest := some entry
      attach := entry.replayed } := by
  have hphase := hs.phase
  unfold Phase at hphase
  rw [ha] at hphase
  cases entry with
  | live i =>
    obtain ⟨u, k, hu, hpc, ⟨m, hf⟩, hr⟩ := hphase
    refine ⟨hs.ring, hs.inactive, ⟨rfl, u, hu, hpc⟩, ?_, hs.entry, fun i' j hi hj => ?_,
      fun i' j hi => ?_⟩
    · exact ⟨content, [], k, m, u, by simp, hr.congr rfl, hu, hf.congr rfl rfl id⟩
    · obtain rfl : i = i' := Option.some.inj hi
      exact hs.entryOld i j (by rw [ha]; rfl) hj
    · rcases hi with hi | ⟨c, hi⟩ <;> cases hi
  | replayOnly =>
    refine ⟨hs.ring, hs.inactive, rfl, ⟨content, by simp, hphase.congr rfl⟩, hs.entry,
      fun i j hi => ?_, fun i j hi => ?_⟩
    · cases hi
    · rcases hi with hi | ⟨c, hi⟩ <;> cases hi

theorem attachInv_spawn (hs : AttachInv cap s) {i : ℕ} (ha : s.attach = .spawn i) :
    AttachInv cap { s with
      subs := s.subs.modify i fun u => { u with pc := .poll }
      attach := .insert (.live i) } := by
  have hphase := hs.phase
  have hlatest := hs.latest
  unfold Phase at hphase
  rw [ha] at hphase
  obtain ⟨hl, u, hu, hpc⟩ := hphase
  unfold Latest at hlatest
  rw [hl] at hlatest
  obtain ⟨content, out, k, m, v, hfrom, hr, hv, hf⟩ := hlatest
  obtain rfl : u = v := by simpa [hu] using hv
  have hf' : Fed s { u with pc := .poll } out k m := by
    refine hf.move ?_ ?_ rfl rfl rfl (by simp)
    · simp [Sub.inHand, hpc]
    · simp [Sub.cleaned, hpc]
  refine ⟨hs.ring, hs.inactive, hl, ?_, ?_, ?_, ?_⟩
  · unfold Latest
    simp only [hl]
    exact ⟨content, out, k, m, { u with pc := .poll }, hfrom, hr.congr rfl, by simp [hu],
      hf'.congr rfl rfl id⟩
  · intro j hj
    simpa using hs.entry j hj
  · intro i' j hi hj
    obtain rfl : i = i' := Option.some.inj hi
    exact hs.entryOld i j (by rw [ha]; rfl) hj
  · intro i' j hi
    rcases hi with hi | ⟨c, hi⟩ <;> cases hi

theorem attachInv_insert (hs : AttachInv cap s) {entry : AttachEntry}
    (ha : s.attach = .insert entry) :
    AttachInv cap { s with entry := some entry, attach := AttachEntry.replaced s.entry } := by
  have hl : s.latest = some entry := by
    have hphase := hs.phase
    unfold Phase at hphase
    rw [ha] at hphase
    exact hphase
  have hn : newSub (AttachEntry.replaced s.entry) = none := by
    rcases s.entry with _ | j | _ <;> rfl
  refine ⟨hs.ring, hs.inactive, ?_, latest_congr hs.latest rfl rfl rfl rfl rfl fun _ _ => rfl,
    fun j hj => ?_, fun i j hi => ?_, fun i j hi => ?_⟩
  · unfold Phase
    rcases he : s.entry with _ | j | _
    · trivial
    · rintro hj
      obtain rfl : entry = .live j := by simpa [hl] using hj
      exact hs.entryOld j j (by rw [ha]; rfl) he rfl
    · trivial
  · obtain rfl : entry = .live j := Option.some.inj hj
    exact hs.latest.lt hl
  · rw [hn] at hi
    cases hi
  · rcases hi with hi | ⟨c, hi⟩ <;> rw [show AttachEntry.replaced s.entry = _ from hi] at hn <;>
      cases hn

/-- Retiring an older attachment leaves the latest alone. -/
theorem attachInv_retire (hs : AttachInv cap s) {j : ℕ} (hl : s.latest ≠ some (.live j))
    (f : Sub → Sub) (pc : AttachPc) (hpc : pc = .cancel j ∨ pc = .idle) :
    AttachInv cap { s with subs := s.subs.modify j f, attach := pc } := by
  have hn : newSub pc = none := by rcases hpc with rfl | rfl <;> rfl
  refine ⟨hs.ring, hs.inactive, ?_, latest_congr hs.latest rfl rfl rfl rfl rfl fun i hi => ?_,
    fun j' hj => ?_, fun i j' hi => ?_, fun i j' hi => ?_⟩
  · rcases hpc with rfl | rfl
    · exact hl
    · trivial
  · have hij : j ≠ i := fun h => hl (h ▸ hi)
    simp [hij]
  · simpa using hs.entry j' hj
  · rw [hn] at hi
    cases hi
  · rcases hi with hi | ⟨c, hi⟩ <;> rw [show pc = _ from hi] at hn <;> cases hn

theorem attachInv_attachStep (hs : AttachInv cap s) (hsafe : s.attachSafe .attach)
    (h : s.attachStep = some t) : AttachInv cap t := by
  have hphase := hs.phase
  unfold Phase at hphase
  unfold attachStep at h
  split at h
  case h_1 => cases h
  case h_2 ha =>
    cases h
    refine hs.goto _ ?_ ?_
    · split_ifs <;> rfl
    · unfold Phase
      split_ifs <;> trivial
  case h_3 ha =>
    split_ifs at h with hact <;> cases h
    · exact attachInv_subscribe hs (by simpa [attachSafe, ha, hact] using hsafe)
    · exact hs.goto .snapshotOnly rfl trivial
  case h_4 i ha =>
    cases h
    rw [ha] at hphase
    obtain ⟨u, hu, hpc, hf⟩ := hphase
    refine ⟨hs.ring, hs.inactive, ⟨u, _, hu, hpc, ⟨_, hf.congr rfl rfl id⟩, ringAt_now hs ?_ rfl⟩,
      latest_congr hs.latest rfl rfl rfl rfl rfl fun _ _ => rfl, hs.entry, fun i' j hi hj => ?_,
      fun i' j hi hj => ?_⟩
    · simpa [attachSafe, ha] using hsafe
    · exact hs.entryOld i' j (by rw [ha]; exact hi) hj
    · rcases hi with hi | ⟨c, hi⟩
      · cases hi
      · obtain ⟨⟨rfl⟩, -⟩ := AttachPc.send.inj hi
        exact hs.latestOld i j (.inl ha) hj
  case h_5 ha =>
    cases h
    refine hs.goto _ rfl (ringAt_now (s := s) hs ?_ rfl)
    simpa [attachSafe, ha] using hsafe
  case h_6 entry content ha =>
    cases h
    exact attachInv_sendReplay hs ha
  case h_7 i ha =>
    cases h
    exact attachInv_spawn hs ha
  case h_8 entry ha =>
    cases h
    exact attachInv_insert hs ha
  case h_9 j ha =>
    cases h
    rw [ha] at hphase
    exact attachInv_retire hs hphase _ _ (.inl rfl)
  case h_10 j ha =>
    cases h
    rw [ha] at hphase
    exact attachInv_retire hs hphase _ _ (.inr rfl)

theorem attachInv_init (cap : ℕ) : AttachInv cap (init cap) where
  ring := rfl
  inactive h := by rcases h with h | h <;> cases h
  phase := trivial
  latest := rfl
  entry _ h := by cases h
  entryOld _ _ h := by cases h
  latestOld _ _ _ h := by cases h

/-- The entry of a session that has ended is dropped, and its forwarder left to drain. -/
theorem attachInv_removeSession (hs : AttachInv cap s) :
    AttachInv cap { s with entry := none } := by
  refine ⟨hs.ring, hs.inactive, ?_, latest_congr hs.latest rfl rfl rfl rfl rfl fun _ _ => rfl,
    fun j hj => ?_, fun i j _ hj => ?_, hs.latestOld⟩
  · have hphase := hs.phase
    unfold Phase at hphase ⊢
    rcases ha : s.attach with _ | _ | _ | i | _ | ⟨e, c⟩ | i | e | j | j <;> rw [ha] at hphase
    case snapshot =>
      obtain ⟨u, hu, hpc, hf⟩ := hphase
      exact ⟨u, hu, hpc, hf.congr rfl rfl id⟩
    case send =>
      cases e with
      | live i =>
        obtain ⟨u, k, hu, hpc, ⟨m, hf⟩, hr⟩ := hphase
        exact ⟨u, k, hu, hpc, ⟨m, hf.congr rfl rfl id⟩, hr.congr rfl⟩
      | replayOnly => exact hphase.congr rfl
    all_goals exact hphase
  · cases hj
  · cases hj

theorem attachInv_step {a : AttachAct} (hs : AttachInv cap s) (hsafe : s.attachSafe a)
    (h : s.step a = some t) : AttachInv cap t := by
  cases a <;> simp only [step] at h
  case read chunk =>
    split at h <;> cases h
    next hr =>
      refine Carries.inv (s := s) (carries_quiet rfl rfl rfl rfl rfl rfl ?_ ?_) hs hs.ring
        (by simp)
      · simp [broadcasting, hr]
      · simp [hr]
  case eof =>
    split at h <;> cases h
    next hr =>
      refine Carries.inv (s := s) (carries_quiet rfl rfl rfl rfl rfl rfl ?_ ?_) hs hs.ring
        (by simp)
      · simp [broadcasting, hr]
      · simp [hr]
  case reader => exact attachInv_readerStep hs hsafe h
  case childExited =>
    cases h
    exact Carries.inv (s := s) (carries_quiet rfl rfl rfl rfl rfl rfl rfl id) hs hs.ring
      fun _ => rfl
  case removeSession =>
    cases h
    exact attachInv_removeSession hs
  case request =>
    split at h <;> cases h
    exact hs.goto .checkMeta rfl trivial
  case attach => exact attachInv_attachStep hs hsafe h
  case forward i =>
    obtain ⟨u, hi, h⟩ := Option.bind_eq_some_iff.1 h
    exact attachInv_forwardStep hs hi hsafe h

/-! ## What the connection has been sent -/

/-- The sinks hold a subscription as long as the reader has something for them. -/
theorem Fed.broadcasting (h : Fed s u out k m) :
    (if u.subscribed then s.broadcasting else []) = s.broadcasting := by
  split_ifs with hsub
  · rfl
  · simp [AttachSys.broadcasting, h.fed.resolve_left hsub]

theorem Fed.onTheWay (h : Fed s u out k m) {i : ℕ} (hl : s.latest = some (.live i))
    (hi : s.subs[i]? = some u) : s.pushed.drop m = s.onTheWay := by
  rw [h.rest]
  simp only [AttachSys.onTheWay, hl, hi, h.cancel, Bool.false_or, decide_eq_true_eq,
    h.broadcasting]
  split_ifs with hd
  · obtain ⟨hq, hr, -⟩ := h.done hd
    simp [Sub.inHand, hd, hq, AttachSys.broadcasting, hr]
  · rfl

theorem Fed.held (h : Fed s u out k m) {i : ℕ} (hl : s.latest = some (.live i))
    (hi : s.subs[i]? = some u) : u.stripper.carry = s.held := by
  simp only [AttachSys.held, hl, hi, h.cancel, Bool.false_or, decide_eq_true_eq]
  split_ifs with hd
  · exact (h.done hd).2.2
  · rfl

theorem AttachInv.delivered (hs : AttachInv cap s) : Delivered cap s := by
  intro content out hfrom
  have hlatest := hs.latest
  unfold Latest at hlatest
  rcases hl : s.latest with _ | i | _ <;> rw [hl] at hlatest <;> simp only [] at hlatest
  · rw [hlatest] at hfrom
    cases hfrom
  · obtain ⟨content', out', k, m, u, hfrom', hr, hu, hf⟩ := hlatest
    obtain ⟨rfl, rfl⟩ : content' = content ∧ out' = out := by simpa [hfrom'] using hfrom
    refine ⟨k, m, hf.le, hf.len, hr.snapshot, hr.carry, ?_, ?_, hf.onTheWay hl hu⟩
    · rw [hf.strip]
      simp [aboutToSend, hl, hu]
    · rw [hf.strip]
      exact hf.held hl hu
  · obtain ⟨content', hfrom', hr⟩ := hlatest
    obtain ⟨rfl, rfl⟩ : content' = content ∧ [] = out := by simpa [hfrom'] using hfrom
    refine ⟨_, _, le_rfl, le_rfl, hr.snapshot, hr.carry, ?_, ?_, ?_⟩
    · simp [LiveOscStripper.stripAll, aboutToSend, hl]
    · simp [LiveOscStripper.stripAll, LiveOscStripper.new, held, hl]
    · simp [onTheWay, hl]

/-- In every run of safe steps, the connection is sent every byte once. -/
theorem delivered_of_safe (cap : ℕ) {as : List AttachAct} {t : AttachSys}
    (hsafe : Runs.Along step (fun s a => s.attachSafe a) (init cap) as)
    (hr : run (init cap) as = some t) : Delivered cap t :=
  (hsafe.keeps (I := AttachInv cap) (fun _ _ _ => attachInv_step) (attachInv_init cap) hr).delivered

/-- The connection attaches between two chunks, and is sent the second as it comes. -/
def liveRun : List AttachAct :=
  [.read [104, 105], .reader, .reader, .request] ++ List.replicate 6 .attach ++
    [.read [33], .reader, .reader] ++ List.replicate 4 (.forward 0)

theorem delivered_liveRun : ∃ t, run (init 64) liveRun = some t ∧
    fromLatest t.received = some ([104, 105], [33]) ∧ Delivered 64 t := by
  have hlast : (run (init 64) liveRun).map (fun t => fromLatest t.received) =
      some (some ([104, 105], [33])) := by decide
  obtain ⟨t, ht, hfrom⟩ := Option.map_eq_some_iff.1 hlast
  exact ⟨t, ht, hfrom, delivered_of_safe 64 (by decide) ht⟩

/-- The ring is given `hi` between the subscription and the snapshot: it is in the replay, and is
forwarded once more. -/
theorem subscribed_chunk_twice : ¬ ∀ (cap : ℕ) (as : List AttachAct) (t : AttachSys),
    run (init cap) as = some t → Delivered cap t := by
  intro h
  let as : List AttachAct := [.read [104, 105], .request, .attach, .attach, .reader] ++
    List.replicate 4 .attach ++ .reader :: List.replicate 4 (.forward 0)
  have hd : (run (init 64) as).map (fun t => (fromLatest t.received, t.pushed, t.aboutToSend)) =
      some (some ([104, 105], [104, 105]), [[104, 105]], []) := by decide
  obtain ⟨t, ht, heq⟩ := Option.map_eq_some_iff.1 hd
  simp only [Prod.mk.injEq] at heq
  obtain ⟨hfrom, hp, ha⟩ := heq
  obtain ⟨k, m, hkm, hm, hsnap, -, hstrip, -, -⟩ := h 64 as t ht _ _ hfrom
  rw [hp] at hm hsnap hstrip
  rw [ha] at hstrip
  have hk : k = 0 ∨ k = 1 := by
    simp only [List.length_singleton] at hm
    omega
  rcases hk with rfl | rfl
  · revert hsnap
    decide
  · obtain rfl : m = 1 := le_antisymm hm hkm
    revert hstrip
    decide

end AttachSys

end BuilderPro
