import BuilderPro.Sessiond.Attach

/-!
# What an attach has been given

A forwarder is fed what the sinks have been given since it was subscribed (`AttachSys.Fed`), and the
latest replay is the ring's snapshot at the place where its forwarder begins
(`AttachSys.AttachInv`).
-/

namespace BuilderPro

namespace AttachSys

/-- The latest replay, and all that was sent after it. -/
def fromLatest : List AttachPush → Option (List UInt8 × List UInt8) :=
  List.foldl (fun r p => match p with
    | .replay content => some (content, [])
    | .output bytes => r.map fun c => (c.1, c.2 ++ bytes)) none

@[simp] theorem fromLatest_replay (ps : List AttachPush) (content : List UInt8) :
    fromLatest (ps ++ [.replay content]) = some (content, []) := by
  simp [fromLatest]

@[simp] theorem fromLatest_output (ps : List AttachPush) (bytes : List UInt8) :
    fromLatest (ps ++ [.output bytes]) = (fromLatest ps).map fun c => (c.1, c.2 ++ bytes) := by
  simp [fromLatest]

end AttachSys

namespace Sub

/-- Stripped, and about to be sent. -/
def cleaned (u : Sub) : List UInt8 :=
  match u.pc with
  | .send cleaned => cleaned
  | _ => []

/-- Taken from the queue, and not yet stripped. -/
def inHand (u : Sub) : List (List UInt8) :=
  match u.pc with
  | .check bytes => [bytes]
  | _ => []

end Sub

namespace AttachSys

/-- Given to the ring, and not yet to the sinks. -/
def broadcasting (s : AttachSys) : List (List UInt8) :=
  match s.reader with
  | .broadcast chunk => [chunk]
  | _ => []

/-- The chunks still on their way to the connection; nothing is on its way over a subscription whose
forwarder is cancelled or done, or from the reader to one that the sinks no longer hold. -/
def onTheWay (s : AttachSys) : List (List UInt8) :=
  match s.latest with
  | some (.live i) =>
    match s.subs[i]? with
    | some u =>
      if u.cancel || u.pc = .done then []
      else u.inHand ++ u.queue ++ (if u.subscribed then s.broadcasting else [])
    | none => []
  | _ => []

/-- What the latest attachment's forwarder has stripped and is about to send. -/
def aboutToSend (s : AttachSys) : List UInt8 :=
  match s.latest with
  | some (.live i) => (s.subs[i]?.map Sub.cleaned).getD []
  | _ => []

/-- What the latest attachment's forwarder holds back of what it has stripped; one that is cancelled
or done has dropped it. -/
def held (s : AttachSys) : List UInt8 :=
  match s.latest with
  | some (.live i) =>
    match s.subs[i]? with
    | some u => if u.cancel || u.pc = .done then [] else u.stripper.carry
    | none => []
  | _ => []

/-- The replay is the snapshot of the first `k` chunks, at which the sanitizer held nothing; what
was sent since are the next chunks up to the `m`th, stripped, but for what is held back; the others
are on their way. -/
def Delivered (cap : ℕ) (s : AttachSys) : Prop :=
  ∀ content out, fromLatest s.received = some (content, out) → ∃ k m, k ≤ m ∧ m ≤ s.pushed.length ∧
    ((ScrollbackRing.new cap).pushAll (s.pushed.take k)).snapshot = content ∧
    ((ScrollbackRing.new cap).pushAll (s.pushed.take k)).filter.carry = [] ∧
    (LiveOscStripper.new.stripAll ((s.pushed.take m).drop k)).1 = out ++ s.aboutToSend ∧
    (LiveOscStripper.new.stripAll ((s.pushed.take m).drop k)).2.carry = s.held ∧
    s.pushed.drop m = s.onTheWay

/-- No step takes a byte twice or loses one. -/
def attachSafe (s : AttachSys) : AttachAct → Bool
  | .attach =>
    match s.attach with
    | .subscribe => !s.isActive || s.broadcasting.isEmpty
    | .snapshot _ => s.ring.filter.carry.isEmpty
    | .snapshotOnly => s.ring.filter.carry.isEmpty
    | _ => true
  | .reader =>
    match s.reader with
    | .ring _ =>
      (match s.attach with
        | .snapshot _ => false
        | .send .replayOnly _ => false
        | _ => true) &&
      s.latest != some .replayOnly
    | _ => true
  | .forward i =>
    match s.subs[i]? with
    | some u =>
      match u.pc with
      | .send _ => s.latest == some (.live i)
      -- the channel is closed, and what the stripper holds goes with the forwarder
      | .recv => u.subscribed || !u.queue.isEmpty || u.stripper.carry.isEmpty ||
          s.latest != some (.live i)
      | _ => true
    | none => true
  | _ => true

/-! ## What a forwarder has been fed -/

/-- The subscription's forwarder has stripped the chunks from the `k`th to the `m`th, has all of the
result but what it is about to send in `out`, and finds the others in its hand and its queue. -/
structure Fed (s : AttachSys) (u : Sub) (out : List UInt8) (k m : ℕ) : Prop where
  le : k ≤ m
  len : m ≤ s.pushed.length
  strip : LiveOscStripper.new.stripAll ((s.pushed.take m).drop k) = (out ++ u.cleaned, u.stripper)
  rest : s.pushed.drop m = u.inHand ++ u.queue ++ s.broadcasting
  cancel : u.cancel = false
  fed : u.subscribed ∨ s.reader = .done
  done : u.pc = .done → u.queue = [] ∧ s.reader = .done ∧ u.stripper.carry = []

/-- The ring's snapshot after the first `k` chunks is `content`, and its sanitizer then held
nothing. -/
structure RingAt (cap : ℕ) (s : AttachSys) (k : ℕ) (content : List UInt8) : Prop where
  snapshot : ((ScrollbackRing.new cap).pushAll (s.pushed.take k)).snapshot = content
  carry : ((ScrollbackRing.new cap).pushAll (s.pushed.take k)).filter.carry = []

variable {s t : AttachSys} {cap : ℕ} {u : Sub} {out : List UInt8} {k m : ℕ}

theorem Fed.congr (h : Fed s u out k m) (hp : t.pushed = s.pushed)
    (hb : t.broadcasting = s.broadcasting) (hd : s.reader = .done → t.reader = .done) :
    Fed t u out k m :=
  ⟨h.le, by rw [hp]; exact h.len, by rw [hp]; exact h.strip, by rw [hp, hb]; exact h.rest,
    h.cancel, h.fed.imp_right hd, fun hu => ⟨(h.done hu).1, hd (h.done hu).2.1, (h.done hu).2.2⟩⟩

/-- A chunk given to the ring is on its way. -/
theorem Fed.push (h : Fed s u out k m) {chunk : List UInt8} (hr : s.reader = .ring chunk)
    (hp : t.pushed = s.pushed ++ [chunk]) (ht : t.reader = .broadcast chunk) : Fed t u out k m := by
  have hb : s.broadcasting = [] := by simp [broadcasting, hr]
  have hlen := h.len
  refine ⟨h.le, by rw [hp, List.length_append]; omega, ?_, ?_, h.cancel, .inl ?_, fun hu => ?_⟩
  · rw [hp, List.take_append_of_le_length hlen]
    exact h.strip
  · rw [hp, List.drop_append_of_le_length hlen, h.rest, hb]
    simp [broadcasting, ht]
  · exact h.fed.resolve_right (by simp [hr])
  · have := (h.done hu).2.1
    rw [hr] at this
    cases this

/-- A broadcast puts the chunk into the queue. -/
theorem Fed.offer (h : Fed s u out k m) {chunk : List UInt8} (hr : s.reader = .broadcast chunk)
    (hp : t.pushed = s.pushed) (ht : t.reader = .reading) : Fed t (u.offer chunk) out k m := by
  have hsub : u.subscribed := h.fed.resolve_right (by simp [hr])
  have hpc : u.pc ≠ .done := fun hu => by
    have := (h.done hu).2.1
    rw [hr] at this
    cases this
  have hoff : u.offer chunk = { u with queue := u.queue ++ [chunk] } := by
    simp [Sub.offer, hsub, hpc]
  rw [hoff]
  refine ⟨h.le, by rw [hp]; exact h.len, by rw [hp]; exact h.strip, ?_, h.cancel, .inl hsub,
    fun hu => absurd hu hpc⟩
  rw [hp, h.rest]
  simp [broadcasting, hr, ht, Sub.inHand]

/-- The reader's end closes the channel. -/
theorem Fed.clear (h : Fed s u out k m) (hr : s.reader = .clear) (hp : t.pushed = s.pushed)
    (ht : t.reader = .done) : Fed t { u with subscribed := false } out k m := by
  refine ⟨h.le, by rw [hp]; exact h.len, by rw [hp]; exact h.strip, ?_, h.cancel, .inr ht,
    fun hu => ⟨(h.done hu).1, ht, (h.done hu).2.2⟩⟩
  rw [hp, h.rest]
  simp [broadcasting, hr, ht, Sub.inHand]

theorem RingAt.congr {content : List UInt8} (h : RingAt cap s k content)
    (hp : t.pushed.take k = s.pushed.take k) : RingAt cap t k content :=
  ⟨by rw [hp]; exact h.snapshot, by rw [hp]; exact h.carry⟩

/-! ## The invariant -/

/-- What holds of the attachment being made. -/
def Phase (cap : ℕ) (s : AttachSys) : Prop :=
  match s.attach with
  | .snapshot i => ∃ u, s.subs[i]? = some u ∧ u.pc = .unstarted ∧
      Fed s u [] s.pushed.length s.pushed.length
  | .send (.live i) content => ∃ u k, s.subs[i]? = some u ∧ u.pc = .unstarted ∧
      (∃ m, Fed s u [] k m) ∧ RingAt cap s k content
  | .send .replayOnly content => RingAt cap s s.pushed.length content
  | .spawn i => s.latest = some (.live i) ∧ ∃ u, s.subs[i]? = some u ∧ u.pc = .unstarted
  | .insert e => s.latest = some e
  | .unsubscribe j => s.latest ≠ some (.live j)
  | .cancel j => s.latest ≠ some (.live j)
  | _ => True

/-- What holds of the attachment of the latest replay. -/
def Latest (cap : ℕ) (s : AttachSys) : Prop :=
  match s.latest with
  | none => fromLatest s.received = none
  | some (.live i) => ∃ content out k m u, fromLatest s.received = some (content, out) ∧
      RingAt cap s k content ∧ s.subs[i]? = some u ∧ Fed s u out k m
  | some .replayOnly => ∃ content, fromLatest s.received = some (content, []) ∧
      RingAt cap s s.pushed.length content

/-- The subscription of the attachment being made. -/
def newSub : AttachPc → Option ℕ
  | .snapshot i => some i
  | .send (.live i) _ => some i
  | .spawn i => some i
  | .insert (.live i) => some i
  | _ => none

structure AttachInv (cap : ℕ) (s : AttachSys) : Prop where
  ring : s.ring = (ScrollbackRing.new cap).pushAll s.pushed
  inactive : s.reader = .clear ∨ s.reader = .done → s.isActive = false
  phase : s.Phase cap
  latest : s.Latest cap
  entry : ∀ j, s.entry = some (.live j) → j < s.subs.length
  entryOld : ∀ i j, newSub s.attach = some i → s.entry = some (.live j) → j ≠ i
  latestOld : ∀ i j, (s.attach = .snapshot i ∨ ∃ c, s.attach = .send (.live i) c) →
    s.latest = some (.live j) → j ≠ i

/-- A step that feeds the latest attachment's subscription on, and any whose forwarder has not
started, and leaves the connection's requests alone. -/
structure Carries (s t : AttachSys) : Prop where
  attach : t.attach = s.attach
  entry : t.entry = s.entry
  latest : t.latest = s.latest
  received : t.received = s.received
  subs : t.subs.length = s.subs.length
  sub : ∀ (i : ℕ) u, s.subs[i]? = some u → s.latest = some (.live i) ∨ u.pc = .unstarted →
    ∃ u', t.subs[i]? = some u' ∧ (u.pc = .unstarted → u'.pc = .unstarted) ∧
      ∀ out k m, Fed s u out k m → ∃ m', Fed t u' out k m'
  pushed : s.pushed <+: t.pushed
  whole : t.pushed = s.pushed ∨ (∀ i, s.attach ≠ .snapshot i) ∧
    (∀ c, s.attach ≠ .send .replayOnly c) ∧ s.latest ≠ some .replayOnly

theorem Carries.ringAt (h : Carries s t) (hk : k ≤ s.pushed.length) {content : List UInt8}
    (hr : RingAt cap s k content) : RingAt cap t k content := by
  obtain ⟨r, hp⟩ := h.pushed
  refine hr.congr ?_
  rw [← hp, List.take_append_of_le_length hk]

theorem Carries.phase (h : Carries s t) (hs : s.Phase cap) : t.Phase cap := by
  unfold Phase at hs ⊢
  rw [h.attach]
  rcases ha : s.attach with _ | _ | _ | i | _ | ⟨e, c⟩ | i | e | j | j <;> rw [ha] at hs
  · trivial
  · trivial
  · trivial
  · obtain ⟨u, hu, hpc, hf⟩ := hs
    obtain ⟨u', hu', hpc', hf'⟩ := h.sub i u hu (.inr hpc)
    have hp : t.pushed = s.pushed := h.whole.resolve_right fun hw => hw.1 i ha
    obtain ⟨m', hf'⟩ := hf' _ _ _ hf
    obtain rfl : s.pushed.length = m' := le_antisymm hf'.le (by rw [← hp]; exact hf'.len)
    rw [hp]
    exact ⟨u', hu', hpc' hpc, hf'⟩
  · trivial
  · cases e with
    | live i =>
      obtain ⟨u, k, hu, hpc, ⟨m, hf⟩, hr⟩ := hs
      obtain ⟨u', hu', hpc', hf'⟩ := h.sub i u hu (.inr hpc)
      exact ⟨u', k, hu', hpc' hpc, hf' _ _ _ hf, h.ringAt (hf.le.trans hf.len) hr⟩
    | replayOnly =>
      have hp : t.pushed = s.pushed := h.whole.resolve_right fun hw => hw.2.1 c ha
      rw [hp]
      exact h.ringAt le_rfl hs
  · obtain ⟨hl, u, hu, hpc⟩ := hs
    obtain ⟨u', hu', hpc', -⟩ := h.sub i u hu (.inr hpc)
    exact ⟨h.latest.trans hl, u', hu', hpc' hpc⟩
  · exact h.latest.trans hs
  · rwa [h.latest]
  · rwa [h.latest]

theorem Carries.latest' (h : Carries s t) (hs : s.Latest cap) : t.Latest cap := by
  unfold Latest at hs ⊢
  rw [h.latest, h.received]
  rcases hl : s.latest with _ | i | _ <;> rw [hl] at hs <;> simp only [] at hs ⊢
  · exact hs
  · obtain ⟨content, out, k, m, u, hfrom, hr, hu, hf⟩ := hs
    obtain ⟨u', hu', -, hf'⟩ := h.sub i u hu (.inl hl)
    obtain ⟨m', hf'⟩ := hf' _ _ _ hf
    exact ⟨content, out, k, m', u', hfrom, h.ringAt (hf.le.trans hf.len) hr, hu', hf'⟩
  · obtain ⟨content, hfrom, hr⟩ := hs
    have hp : t.pushed = s.pushed := h.whole.resolve_right fun hw => hw.2.2 hl
    rw [hp]
    exact ⟨content, hfrom, h.ringAt le_rfl hr⟩

theorem Carries.inv (h : Carries s t) (hs : AttachInv cap s)
    (hring : t.ring = (ScrollbackRing.new cap).pushAll t.pushed)
    (hin : t.reader = .clear ∨ t.reader = .done → t.isActive = false) : AttachInv cap t :=
  ⟨hring, hin, h.phase hs.phase, h.latest' hs.latest, by rw [h.entry, h.subs]; exact hs.entry,
    by rw [h.attach, h.entry]; exact hs.entryOld, by rw [h.attach, h.latest]; exact hs.latestOld⟩

end AttachSys

end BuilderPro
