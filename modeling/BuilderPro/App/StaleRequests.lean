import BuilderPro.App.RequestSteps

/-!
# No request is sent late

What is still on its way to the task when the connection comes back goes out on the new one
(`not_safe_of_not_drained`), and only that does (`noStaleRequest_iff`).
-/

namespace BuilderPro

namespace DaemonClient

variable {s t : DaemonClient} {i : ℕ} {c : ClientCall} {o : Told} {p : ℕ → Bool}

/-- A request can be answered, once. -/
def Resolves (s : DaemonClient) (i : ℕ) : Prop :=
  ∃ as t, Runs.run step s as = some t ∧ ∃ c ∈ t.calls[i]?, c.told.length = 1

theorem Resolves.step {a : ClientStep} (ht : t.Resolves i) (h : s.step a = some t) :
    s.Resolves i := by
  obtain ⟨as, u, hr, hu⟩ := ht
  exact ⟨a :: as, u, by rw [Runs.run_cons, h, Option.bind_some, hr], hu⟩

/-- A caller that waits for its reply may be out of time. -/
theorem resolves_waiting (hget : s.calls[i]? = some c) (hpc : c.pc = .waiting)
    (htold : c.told = []) : s.Resolves i := by
  have hstep : s.step (.timeout i)
      = some { s with calls := s.answerAll (· = i) (.disconnected s.conn) } := by
    simp [step, timeout, hget, hpc]
  refine Resolves.step ⟨[], _, rfl, c.answer (.disconnected s.conn), ?_, ?_⟩ hstep
  · simp [hget]
  · simp [ClientCall.answer, hpc, htold]

/-- A caller past the liveness check, when its command has room or is refused. -/
theorem resolves_checked_of_room (hget : s.calls[i]? = some c) (hpc : c.pc = .checked)
    (htold : c.told = []) (hroom : s.task = .over ∨ s.queue.length < cmdChannelCap) :
    s.Resolves i := by
  by_cases hover : s.task = .over
  · have hstep : s.step (.enqueue i) = some { s with
        calls := s.calls.set i { c with pc := .done, told := [.disconnected s.conn] } } := by
      simp [step, enqueue, hget, hpc, hover]
    refine Resolves.step ⟨[], _, rfl, _, (Slots.getElem?_set hget _ i).trans (if_pos rfl), ?_⟩ hstep
    rfl
  · have hstep : s.step (.enqueue i) = some { s with
        queue := s.queue ++ [i], calls := s.calls.set i { c with pc := .waiting } } := by
      simp [step, enqueue, hget, hpc, hover, hroom.resolve_left hover]
    refine Resolves.step ?_ hstep
    refine @resolves_waiting _ i { c with pc := .waiting } ?_ rfl htold
    exact (Slots.getElem?_set hget _ i).trans (if_pos rfl)

/-- A caller past the liveness check has its turn once the task has received a command. -/
theorem resolves_checked_of_serving (hget : s.calls[i]? = some c) (hpc : c.pc = .checked)
    (htold : c.told = []) (hnot : i ∉ s.queue) (hcap : s.queue.length ≤ cmdChannelCap)
    (hserving : s.task = .serving) : s.Resolves i := by
  rcases hqueue : s.queue with _ | ⟨j, queue⟩
  · exact resolves_checked_of_room hget hpc htold (.inr (by simp [hqueue, cmdChannelCap]))
  · have hstep : s.step (.receive true true) = some { s with
        queue := queue
        nextId := s.nextId + 1
        pending := (s.nextId, j) :: s.pending
        calls := s.calls.modify j fun c => { c with sent := c.sent ++ [(s.conn, s.nextId)] }
        task := .serving } := by
      simp [step, receive, hserving, hqueue]
    have hji : j ≠ i := by
      rintro rfl
      exact hnot (by simp [hqueue])
    rw [hqueue, List.length_cons] at hcap
    refine Resolves.step (resolves_checked_of_room ?_ hpc htold (.inr ?_)) hstep
    · simp [hji, hget]
    · exact hcap

theorem resolves_checked (hI : s.ClientInv) (hget : s.calls[i]? = some c)
    (hpc : c.pc = .checked) : s.Resolves i := by
  have hcap := hI.cap
  have hC := hI.calls i c hget
  have htold : c.told = [] := hC.open_told (by simp [hpc])
  have hnot := hC.checked hpc
  have hreconnecting : ∀ u : DaemonClient, u.calls[i]? = some c → u.queue = s.queue →
      u.task = .reconnecting → u.Resolves i := by
    intro u hu hq htask
    have hstep : u.step .reconnect
        = some { u with live := true, conn := u.conn + 1, task := .serving } := by
      simp [step, htask]
    refine Resolves.step ?_ hstep
    exact resolves_checked_of_serving hu hpc htold (hq ▸ hnot) (hq ▸ hcap) rfl
  have hcleared : ∀ (u : DaemonClient) (dropped : Bool), u.calls[i]? = some c →
      u.queue = s.queue → u.task = .cleared dropped → u.Resolves i := by
    intro u dropped hu hq htask
    have hanswer : ∀ o, c.answer o = c := fun o => if_neg (by simp [hpc])
    have hstep : u.step .drain = some { u with
        pending := []
        calls := u.answerAll (fun i => i ∈ u.pending.map Prod.snd) (.disconnected u.conn)
        task := if dropped then .over else .reconnecting } := by
      simp only [step, htask]
    have hget' : (u.answerAll (fun i => i ∈ u.pending.map Prod.snd)
        (.disconnected u.conn))[i]? = some c := by
      rw [answerAll_getElem?, hu, Option.map_some, hanswer, ite_self]
    refine Resolves.step ?_ hstep
    cases dropped with
    | true => exact resolves_checked_of_room hget' hpc htold (.inl rfl)
    | false => exact hreconnecting _ hget' hq rfl
  rcases htask : s.task with _ | dropped | dropped | _ | _
  · exact resolves_checked_of_serving hget hpc htold hnot hcap htask
  · have hstep : s.step .clear = some { s with live := false, task := .cleared dropped } := by
      simp [step, htask]
    refine Resolves.step ?_ hstep
    exact hcleared _ dropped hget rfl rfl
  · exact hcleared s dropped hget rfl htask
  · exact hreconnecting s hget rfl htask
  · exact resolves_checked_of_room hget hpc htold (.inl htask)

theorem ClientInv.resolves (hI : s.ClientInv) (hi : i < s.calls.length) : s.Resolves i := by
  have hget := List.getElem?_eq_getElem hi
  have hC := hI.calls i _ hget
  rcases hpc : s.calls[i].pc with _ | _ | _
  · exact resolves_checked hI hget hpc
  · exact resolves_waiting hget hpc (hC.open_told (by simp [hpc]))
  · exact ⟨[], s, rfl, _, hget, hC.done_told hpc⟩

theorem ClientInv.noStaleRequest (hI : s.ClientInv) : s.NoStaleRequest := by
  have hC : ∀ c ∈ s.calls, ∃ i, s.CallInv i c := by
    intro c hc
    obtain ⟨i, hi⟩ := List.mem_iff_getElem?.1 hc
    exact ⟨i, hI.calls i c hi⟩
  refine ⟨fun c hc => ?_, fun i hi => hI.resolves hi, fun c hc => ?_, fun c hc => ?_, hI.ids,
    fun c hc k id hk => ?_, fun c hc j k id hj hk => ?_⟩
  · obtain ⟨i, hC⟩ := hC c hc
    by_cases hpc : c.pc = .done
    · exact Nat.le_of_eq (hC.done_told hpc)
    · simp [hC.open_told hpc]
  · obtain ⟨i, hC⟩ := hC c hc
    exact hC.sent_once
  · obtain ⟨i, hC⟩ := hC c hc
    exact hC.response
  · obtain ⟨i, hC⟩ := hC c hc
    exact Nat.le_of_eq (hC.sent k id hk).1
  · obtain ⟨i, hC⟩ := hC c hc
    rw [(hC.sent k id hk).1]
    exact hC.disconnected j hj

theorem clientInv_finishConnect : finishConnect.ClientInv where
  calls i c hc := by simp [finishConnect] at hc
  ids i j c hc := by simp [finishConnect] at hc
  nodup := List.nodup_nil
  cap := Nat.zero_le _
  queue := nofun
  pending := nofun
  drained _ := rfl
  live := by simp [finishConnect]
  closed := nofun

/-- No stale request can go out before the next reconnect. -/
def SafeUntilReconnect (s : DaemonClient) : Prop :=
  ∀ as t, (∀ a ∈ as, a ≠ .reconnect) → Runs.run step s as = some t → t.NoStaleRequest

theorem drained_of_ne {a : ClientStep} (ha : a ≠ .reconnect) : s.Drained a := by
  unfold Drained
  split
  · exact absurd rfl ha
  · trivial

theorem ClientInv.safe (hI : s.ClientInv) : s.SafeUntilReconnect := by
  intro as t has hr
  have hne := @Runs.along_of_forall _ _ step _ s _ has
  exact (hne.keeps (fun _ _ _ hI hne h => clientInv_step hI (drained_of_ne hne) h) hI
    hr).noStaleRequest

theorem SafeUntilReconnect.step {a : ClientStep} (hs : s.SafeUntilReconnect) (ha : a ≠ .reconnect)
    (h : s.step a = some t) : t.SafeUntilReconnect := by
  intro as u has hr
  refine hs (a :: as) u ?_ (by rw [Runs.run_cons, h, Option.bind_some, hr])
  rintro b hb
  rcases List.mem_cons.1 hb with rfl | hb
  · exact ha
  · exact has b hb

/-- A command that is received after a reconnect, and was accepted before. -/
theorem not_safe_of_queue {queue : List ℕ} (hserving : s.task = .serving)
    (hqueue : s.queue = i :: queue) (hget : s.calls[i]? = some c) (hc : c.accepted < s.conn) :
    ¬s.SafeUntilReconnect := by
  intro hs
  have hstep : s.step (.receive true true) = some { s with
      queue := queue
      nextId := s.nextId + 1
      pending := (s.nextId, i) :: s.pending
      calls := s.calls.modify i fun c => { c with sent := c.sent ++ [(s.conn, s.nextId)] }
      task := .serving } := by
    simp [DaemonClient.step, receive, hserving, hqueue]
  have hstale := (hs [.receive true true] _ (by simp)
    (by rw [Runs.run_cons, hstep, Option.bind_some, Runs.run_nil])).accepted
  have hmem : { c with sent := c.sent ++ [(s.conn, s.nextId)] } ∈
      s.calls.modify i fun c => { c with sent := c.sent ++ [(s.conn, s.nextId)] } := by
    refine @List.mem_of_getElem? _ _ i _ ?_
    simp [hget]
  have hle := hstale _ hmem s.conn s.nextId (by simp)
  dsimp only at hle
  omega

/-- What a reconnect finds on its way to the task goes out on the new connection. -/
theorem not_safe_of_not_drained (hI : s.ClientInv) (h : s.step .reconnect = some t)
    (hnot : ¬s.Drained .reconnect) : ¬t.SafeUntilReconnect := by
  simp only [step, Option.ite_none_right_eq_some, Option.some.injEq] at h
  obtain ⟨hreconnecting, rfl⟩ := h
  by_cases hqueue : s.queue = []
  · have hchecked : ∃ c ∈ s.calls, c.pc = .checked := by
      simpa [Drained, hqueue] using hnot
    obtain ⟨c, hc, hpc⟩ := hchecked
    obtain ⟨i, hget⟩ := List.mem_iff_getElem?.1 hc
    have hstep : DaemonClient.step { s with
        live := true, conn := s.conn + 1, task := .serving } (.enqueue i) = some { s with
        live := true
        conn := s.conn + 1
        task := .serving
        queue := [i]
        calls := s.calls.set i { c with pc := .waiting } } := by
      simp [DaemonClient.step, enqueue, hget, hpc, hqueue, cmdChannelCap]
    intro hs
    have hsafe := hs.step (by simp) hstep
    refine not_safe_of_queue rfl rfl ((Slots.getElem?_set hget _ i).trans (if_pos rfl)) ?_ hsafe
    exact Nat.lt_succ_of_le (hI.calls i c hget).accepted
  · obtain ⟨i, queue, hqueue⟩ := List.exists_cons_of_ne_nil hqueue
    have hi : i < s.calls.length := hI.queue i (by simp [hqueue])
    have hget := List.getElem?_eq_getElem hi
    exact not_safe_of_queue rfl hqueue hget (Nat.lt_succ_of_le (hI.calls i _ hget).accepted)

theorem safe_step_iff {a : ClientStep} (hI : s.ClientInv) (hP : s.SafeUntilReconnect)
    (h : s.step a = some t) : t.SafeUntilReconnect ↔ s.Drained a := by
  by_cases ha : a = .reconnect
  · subst ha
    constructor
    · intro ht
      by_contra hnot
      exact not_safe_of_not_drained hI h hnot ht
    · exact fun hdrained => (clientInv_step hI hdrained h).safe
  · exact iff_of_true (hP.step ha h) (drained_of_ne ha)

/-- For any requests, responses in any order, timeouts, losses and reconnects: the runs from which
no stale request goes out, then or before the next reconnect, are those whose reconnects all find
the command queue empty and no caller on its way to it. -/
theorem noStaleRequest_iff (as : List ClientStep) :
    Runs.Throughout step SafeUntilReconnect finishConnect as
      ↔ Runs.Along step Drained finishConnect as :=
  Runs.throughout_iff_of_kept (fun _ _ _ hI hC h => clientInv_step hI hC h)
    (fun _ _ _ hI hP h => safe_step_iff hI hP h) clientInv_finishConnect
    clientInv_finishConnect.safe as

/-- A write is received only after its caller's time is up, and the connection has been lost in
between. -/
def lateKeystroke : List ClientStep :=
  [.request, .enqueue 0, .lose, .clear, .drain, .timeout 0, .reconnect, .receive true true]

theorem late_keystroke_sent : ∃ t, Runs.run step finishConnect lateKeystroke = some t
    ∧ t.calls = [⟨.done, [.disconnected 0], 0, [(1, 1)]⟩] ∧ ¬t.NoStaleRequest := by
  refine ⟨_, rfl, rfl, fun h => ?_⟩
  have hle : 1 ≤ 0 := h.accepted ⟨.done, [.disconnected 0], 0, [(1, 1)]⟩
    (List.mem_singleton_self _) 1 1 (List.mem_singleton_self _)
  omega

end DaemonClient

end BuilderPro
