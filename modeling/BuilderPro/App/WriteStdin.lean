import BuilderPro.App.StdinServed

/-!
# Terminal writes

The writes of a session stay whole in every run whose steps are in turn
(`notInterleaved_of_inTurn`); a write that comes between the chunks of one whose lock is evicted
does not leave that one whole (`late_write_interleaved`).
-/

namespace BuilderPro

namespace WriteSys

variable {s t : WriteSys} {i : ℕ} {c c' : WriteCall} {session : String}

theorem flatMap_payload (hget : s.calls[i]? = some c) {m : ℕ} (hm : m ≤ c.chunks.length) :
    (List.range m).flatMap (s.payload i) = (c.chunks.take m).flatten := by
  induction m with
  | zero => simp
  | succ m ih =>
    have hpayload : s.payload i m = c.chunks[m] := by
      simp [payload, hget, List.getElem?_eq_getElem (Nat.lt_of_succ_le hm)]
    rw [List.range_succ, List.flatMap_append, ih (by omega), List.flatMap_singleton, hpayload,
      List.take_succ_eq_append_getElem (Nat.lt_of_succ_le hm), List.flatten_append,
      List.flatten_singleton]

theorem WriteInv.notInterleaved (hI : s.WriteInv) : s.NotInterleaved where
  accepted session := by
    obtain ⟨order, n, hnodup, horder, hmem, -, hflat⟩ := (hI.blocks session).of_append.exists_order
      (β := UInt8)
    have hcount : ∀ (i : ℕ), ∀ c ∈ s.calls[i]?, n i ≤ c.chunks.length := by
      intro i c hget
      by_contra hlt
      have hlast := (hmem i c.chunks.length).2 (by omega)
      have hentry := (hI.calls i c hget).entries session _ (List.mem_append_left _ hlast)
      omega
    refine ⟨order, fun i => (List.range (n i)).flatMap (s.payload i), hnodup, fun i hi => ?_,
      fun i c hget hs hpc => ?_, hflat s.payload⟩
    · have hfirst := List.mem_append_left ((s.wire session).map fun e => (e.call, e.chunk))
        ((hmem i 0).2 ((horder i).1 hi))
      obtain ⟨c, hget⟩ := hI.exists_call session i 0 hfirst
      refine ⟨c, hget, ((hI.calls i c hget).entries session 0 hfirst).1.symm, ?_⟩
      show (List.range (n i)).flatMap (s.payload i) <+: c.data
      rw [flatMap_payload hget (hcount i c hget)]
      refine ⟨(c.chunks.drop (n i)).flatten, ?_⟩
      rw [← List.flatten_append, List.take_append_drop]
      exact flatten_buildWriteStdinChunks c.data
    · have hC := hI.calls i c hget
      have hpos : 0 < c.chunks.length := List.length_pos_iff.2 (buildWriteStdinChunks_ne_nil c.data)
      have hall : n i = c.chunks.length := by
        refine Nat.le_antisymm (hcount i c hget) ?_
        have hlast := hC.below (c.chunks.length - 1) (by rw [hC.finished hpc]; omega)
        have hlt := (hmem i _).1 (hs ▸ hlast)
        omega
      refine ⟨(horder i).2 (by omega), ?_⟩
      show (List.range (n i)).flatMap (s.payload i) = c.data
      rw [flatMap_payload hget (hcount i c hget), hall, List.take_length]
      exact flatten_buildWriteStdinChunks c.data
  chunks c _ := flatten_buildWriteStdinChunks c.data
  frames c hc chunk hchunk id fromReader := by
    obtain ⟨i, hget⟩ := List.mem_iff_getElem?.1 hc
    exact encode_chunk fromReader (hI.calls i c hget).short
      (length_of_mem_buildWriteStdinChunks hchunk)
  waits i c hget hpc hnone := by
    have hheld : s.holder c.session c.lock ≠ none := by
      intro hfree
      simp [step, acquire, Option.mem_def.1 hget, hpc, hfree] at hnone
    obtain ⟨j, hj⟩ := Option.ne_none_iff_exists'.1 hheld
    obtain ⟨d, hd, hs, -, -⟩ := hI.holder _ _ _ hj
    exact ⟨j, d, hd, hj, hs⟩

/-- The writes of every session are whole in every run of such steps. -/
theorem notInterleaved_of_inTurn {as : List WriteAct}
    (hturn : Runs.Along step (fun s a => s.InTurn a) init as) (hr : Runs.run step init as = some t) :
    t.NotInterleaved :=
  (hturn.keeps (fun _ _ _ hI hturn h => writeInv_step hI hturn h) writeInv_init hr).notInterleaved

/-- Two calls at a time and the exit of the session's child. -/
theorem notInterleaved_of_inTurn_concurrent : ∃ t : WriteSys,
    Runs.run step init [.invoke "s" [65], .invoke "s" [66], .lockFor 0, .lockFor 1, .acquire 0,
      .send 0 0, .evict "s", .process "s" 0 true, .ack 0, .finish 0, .acquire 1, .send 1 0,
      .process "s" 0 true, .ack 1, .finish 1, .evict "s", .invoke "s" [67], .lockFor 2,
      .acquire 2] = some t
      ∧ t.acceptedBytes "s" = [65, 66] ∧ t.NotInterleaved := by
  refine ⟨_, rfl, ?_, ?_⟩
  · decide +kernel
  · refine @notInterleaved_of_inTurn _ [.invoke "s" [65], .invoke "s" [66], .lockFor 0,
      .lockFor 1, .acquire 0, .send 0 0, .evict "s", .process "s" 0 true, .ack 0, .finish 0,
      .acquire 1, .send 1 0, .process "s" 0 true, .ack 1, .finish 1, .evict "s", .invoke "s" [67],
      .lockFor 2, .acquire 2] ?_ rfl
    decide +kernel

/-- A call's first chunk. -/
def firstChunk (d : List UInt8) : List WriteAct :=
  [.invoke "s" d, .lockFor 0, .acquire 0, .send 0 0, .process "s" 0 true, .ack 0]

/-- The exit of the session's child, and another call. -/
def otherCall : List WriteAct :=
  [.evict "s", .invoke "s" [98], .lockFor 1, .acquire 1, .send 1 0, .process "s" 0 true, .ack 1,
    .finish 1]

/-- The first call's second chunk. -/
def secondChunk : List WriteAct := [.send 0 0, .process "s" 0 true, .ack 0, .finish 0]

def lateWrite (d : List UInt8) : List WriteAct := firstChunk d ++ otherCall ++ secondChunk

variable {d x y : List UInt8}

theorem run_firstChunk (hd : buildWriteStdinChunks d = [x, y]) :
    ∃ t, Runs.run step init (firstChunk d) = some t
      ∧ t.calls = [⟨"s", d, 0, 1, .holding⟩] ∧ t.wire "s" = [] ∧ t.accepted "s" = [(0, 0)]
      ∧ t.created "s" = 1 ∧ t.holder "s" 1 = none := by
  simp [firstChunk, Runs.run_cons, step, init, lockFor, acquire, send, process, setCall, takeOff,
    notify, setHolder, WriteCall.chunks, hd]

theorem run_otherCall {s : WriteSys} (hcalls : s.calls = [⟨"s", d, 0, 1, .holding⟩])
    (hwire : s.wire "s" = []) (haccepted : s.accepted "s" = [(0, 0)]) (hcreated : s.created "s" = 1)
    (hholder : s.holder "s" 1 = none) :
    ∃ t, Runs.run step s otherCall = some t
      ∧ t.calls = [⟨"s", d, 0, 1, .holding⟩, ⟨"s", [98], 1, 1, .done true⟩] ∧ t.wire "s" = []
      ∧ t.accepted "s" = [(0, 0), (1, 0)] := by
  have hb : buildWriteStdinChunks [98] = [[98]] := by decide +kernel
  simp [otherCall, Runs.run_cons, step, lockFor, acquire, send, process, setCall, takeOff,
    notify, release, setHolder, WriteCall.chunks, hb, hcalls, hwire, haccepted, hcreated, hholder]

theorem run_secondChunk {s : WriteSys} {c : WriteCall} (hd : buildWriteStdinChunks d = [x, y])
    (hcalls : s.calls = [⟨"s", d, 0, 1, .holding⟩, c]) (hwire : s.wire "s" = [])
    (haccepted : s.accepted "s" = [(0, 0), (1, 0)]) :
    ∃ t, Runs.run step s secondChunk = some t
      ∧ t.calls = [⟨"s", d, 0, 2, .done true⟩, c]
      ∧ t.accepted "s" = [(0, 0), (1, 0), (0, 1)] := by
  simp [secondChunk, Runs.run_cons, step, send, process, setCall, takeOff, notify, release,
    WriteCall.chunks, hd, hcalls, hwire, haccepted]

theorem run_lateWrite (hd : buildWriteStdinChunks d = [x, y]) :
    ∃ t, Runs.run step init (lateWrite d) = some t
      ∧ t.calls = [⟨"s", d, 0, 2, .done true⟩, ⟨"s", [98], 1, 1, .done true⟩]
      ∧ t.accepted "s" = [(0, 0), (1, 0), (0, 1)] := by
  obtain ⟨s, hs, hcalls, hwire, haccepted, hcreated, hholder⟩ := run_firstChunk hd
  obtain ⟨u, hu, hcalls, hwire, haccepted⟩ :=
    run_otherCall hcalls hwire haccepted hcreated hholder
  rw [lateWrite, Runs.run_append, Runs.run_append, hs, Option.bind_some, hu, Option.bind_some]
  exact run_secondChunk hd hcalls hwire haccepted

theorem eq_pair_of_nodup {order : List ℕ} (hnodup : order.Nodup) (hall : ∀ i ∈ order, i = 0 ∨ i = 1)
    (hzero : 0 ∈ order) (hone : 1 ∈ order) : order = [0, 1] ∨ order = [1, 0] := by
  rcases order with _ | ⟨a, _ | ⟨b, _ | ⟨c, order⟩⟩⟩
  · cases hzero
  · simp only [List.mem_singleton] at hzero hone
    omega
  · have ha := hall a (by simp)
    have hb := hall b (by simp)
    have hab : a ≠ b := by simpa using hnodup
    rcases ha with rfl | rfl
    · obtain rfl : b = 1 := by omega
      exact .inl rfl
    · obtain rfl : b = 0 := by omega
      exact .inr rfl
  · have ha := hall a (by simp)
    have hb := hall b (by simp)
    have hc := hall c (by simp)
    simp only [List.nodup_cons, List.mem_cons, not_or] at hnodup
    omega

/-- A call that looks the lock up after the exit of the session's child writes between the chunks of
one that holds the lock from before. -/
theorem late_write_interleaved :
    ∃ t, Runs.run step init (lateWrite (List.replicate (writeStdinChunk + 1) 97)) = some t
      ∧ ¬t.NotInterleaved := by
  have hd := buildWriteStdinChunks_replicate 97
  obtain ⟨t, hr, hcalls, haccepted⟩ := run_lateWrite hd
  refine ⟨t, hr, fun h => ?_⟩
  obtain ⟨order, part, hnodup, hin, hwhole, hbytes⟩ := h.accepted "s"
  obtain ⟨hfirst, hpart⟩ := hwhole 0 _ (by rw [hcalls]; rfl) rfl rfl
  obtain ⟨hsecond, hpart'⟩ := hwhole 1 _ (by rw [hcalls]; rfl) rfl rfl
  dsimp only at hpart hpart'
  have hb : buildWriteStdinChunks [98] = [[98]] := by decide +kernel
  have hmid : t.acceptedBytes "s" = List.replicate writeStdinChunk 97 ++ [98] ++ [97] := by
    simp [acceptedBytes, haccepted, payload, hcalls, WriteCall.chunks, hd, hb]
  have hall : ∀ i ∈ order, i = 0 ∨ i = 1 := by
    intro i hi
    obtain ⟨c, hget, -⟩ := hin i hi
    have hlt := (List.getElem?_eq_some_iff.1 (Option.mem_def.1 hget)).1
    rw [hcalls] at hlt
    simp only [List.length_cons, List.length_nil] at hlt
    omega
  rw [hmid] at hbytes
  rcases eq_pair_of_nodup hnodup hall hfirst hsecond with rfl | rfl
  · have hlast := congrArg List.getLast? hbytes
    simp [hpart'] at hlast
  · have hhead := congrArg List.head? hbytes
    have hpos : writeStdinChunk ≠ 0 := by decide
    simp [hpart', List.head?_append, List.head?_replicate, hpos] at hhead

end WriteSys
end BuilderPro
