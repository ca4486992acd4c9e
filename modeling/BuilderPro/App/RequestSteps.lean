import BuilderPro.App.DaemonClient

/-!
# What holds of every request

A request that is open has been told nothing, and one that is done has been told once; while the
connection is live, what is on the queue was accepted on it (`DaemonClient.ClientInv`).  Every step
keeps this but a reconnect that finds commands on their way to the task.
-/

namespace BuilderPro

namespace DaemonClient

variable (s : DaemonClient)

/-- What holds of a request by its number: its answer, what it has been sent under, and, while the
connection is live, that it is on its way to the task of the connection it was accepted on. -/
structure CallInv (i : ℕ) (c : ClientCall) : Prop where
  accepted : c.accepted ≤ s.conn
  open_told : c.pc ≠ .done → c.told = []
  done_told : c.pc = .done → c.told.length = 1
  response : ∀ k id, .response k id ∈ c.told → (k, id) ∈ c.sent
  disconnected : ∀ k, .disconnected k ∈ c.told → c.accepted ≤ k
  sent : ∀ k id, (k, id) ∈ c.sent → k = c.accepted ∧ id < s.nextId
  sent_once : c.sent.length ≤ 1
  unsent : c.pc = .checked ∨ i ∈ s.queue → c.sent = []
  checked : c.pc = .checked → i ∉ s.queue
  fresh : s.live = true → c.pc = .checked ∨ i ∈ s.queue → c.accepted = s.conn

structure ClientInv : Prop where
  calls : ∀ (i : ℕ), ∀ c ∈ s.calls[i]?, s.CallInv i c
  ids : ∀ (i j : ℕ), ∀ c ∈ s.calls[i]?, ∀ d ∈ s.calls[j]?, ∀ k k' id, (k, id) ∈ c.sent →
    (k', id) ∈ d.sent → i = j
  nodup : s.queue.Nodup
  cap : s.queue.length ≤ cmdChannelCap
  queue : ∀ i ∈ s.queue, i < s.calls.length
  pending : ∀ p ∈ s.pending, ∃ c ∈ s.calls[p.2]?, (s.conn, p.1) ∈ c.sent
  drained : s.task = .reconnecting ∨ s.task = .over → s.pending = []
  live : s.live = true ↔ s.task = .serving ∨ ∃ dropped, s.task = .lost dropped
  closed : s.closed = true → ∀ c ∈ s.calls, c.pc = .done

variable {s} {t : DaemonClient} {i : ℕ} {c : ClientCall} {o : Told} {p : ℕ → Bool}

@[simp] theorem answerAll_getElem? (i : ℕ) : (s.answerAll p o)[i]? =
    s.calls[i]?.map fun c => if p i then c.answer o else c := by
  simp [answerAll]

@[simp] theorem answer_sent : (c.answer o).sent = c.sent := by
  unfold ClientCall.answer
  split <;> rfl

@[simp] theorem answer_accepted : (c.answer o).accepted = c.accepted := by
  unfold ClientCall.answer
  split <;> rfl

theorem answer_eq_or : c.answer o = c
    ∨ (c.pc = .waiting ∧ c.answer o = { c with pc := .done, told := c.told ++ [o] }) := by
  unfold ClientCall.answer
  by_cases h : c.pc = .waiting
  · exact .inr ⟨h, if_pos h⟩
  · exact .inl (if_neg h)

/-- A step that brings nothing more to the queue, and no new connection. -/
theorem CallInv.mono (h : s.CallInv i c) (hconn : t.conn = s.conn) (hnext : s.nextId ≤ t.nextId)
    (hqueue : i ∈ t.queue → i ∈ s.queue) (hlive : t.live = true → s.live = true) :
    t.CallInv i c where
  accepted := hconn ▸ h.accepted
  open_told := h.open_told
  done_told := h.done_told
  response := h.response
  disconnected := h.disconnected
  sent k id hk := ⟨(h.sent k id hk).1, Nat.lt_of_lt_of_le (h.sent k id hk).2 hnext⟩
  sent_once := h.sent_once
  unsent hk := h.unsent (hk.imp_right hqueue)
  checked hk hi := h.checked hk (hqueue hi)
  fresh hl hk := hconn ▸ h.fresh (hlive hl) (hk.imp_right hqueue)

theorem CallInv.answer (h : s.CallInv i c) (hresponse : ∀ k id, o = .response k id →
    (k, id) ∈ c.sent) (hdisconnected : ∀ k, o = .disconnected k → c.accepted ≤ k) :
    s.CallInv i (c.answer o) := by
  rcases @answer_eq_or c o with heq | ⟨hpc, heq⟩
  · rw [heq]
    exact h
  · have htold : c.told = [] := h.open_told (by simp [hpc])
    rw [heq, htold]
    refine ⟨h.accepted, fun h => absurd rfl h, fun _ => rfl, fun k id hk => ?_, fun k hk => ?_,
      h.sent, h.sent_once, fun hk => h.unsent (hk.imp_left nofun), nofun,
      fun hl hk => h.fresh hl (hk.imp_left nofun)⟩
    · exact hresponse k id (by simpa [eq_comm] using hk)
    · exact hdisconnected k (by simpa [eq_comm] using hk)

theorem answer_pc_done (h : c.pc = .done) : (c.answer o).pc = .done := by
  rcases @answer_eq_or c o with heq | ⟨-, heq⟩
  · rw [heq, h]
  · rw [heq]

/-- A step that does no more to the requests than answer some. -/
theorem ClientInv.answerAll (hI : s.ClientInv) (hcalls : t.calls = s.answerAll p o)
    (hresponse : ∀ (i : ℕ), p i = true → ∀ c ∈ s.calls[i]?, ∀ k id, o = .response k id →
      (k, id) ∈ c.sent)
    (hdisconnected : ∀ k, o = .disconnected k → k = s.conn)
    (hconn : t.conn = s.conn) (hnext : s.nextId ≤ t.nextId)
    (hqueue : t.queue.Sublist s.queue) (hpending : ∀ q ∈ t.pending, q ∈ s.pending)
    (hdrained : t.task = .reconnecting ∨ t.task = .over → t.pending = [])
    (hlive : t.live = true ↔ t.task = .serving ∨ ∃ dropped, t.task = .lost dropped)
    (hlive' : t.live = true → s.live = true) (hclosed : t.closed = s.closed) : t.ClientInv := by
  have hget : ∀ (j : ℕ), ∀ d ∈ t.calls[j]?, ∃ c ∈ s.calls[j]?,
      d = if p j then c.answer o else c := by
    intro j d hd
    rw [hcalls, answerAll_getElem?] at hd
    obtain ⟨c, hc, rfl⟩ := Option.map_eq_some_iff.1 hd
    exact ⟨c, hc, rfl⟩
  have hsent : ∀ (j : ℕ) (c : ClientCall), (if p j then c.answer o else c).sent = c.sent := by
    intro j c
    split_ifs <;> simp
  refine ⟨fun j d hd => ?_, fun j k d hd e he n n' id hn hn' => ?_, hI.nodup.sublist hqueue,
    Nat.le_trans hqueue.length_le hI.cap, fun j hj => ?_, fun q hq => ?_, hdrained, hlive,
    fun hcl d hd => ?_⟩
  · obtain ⟨c, hc, rfl⟩ := hget j d hd
    have h := (hI.calls j c hc).mono hconn hnext (fun h => hqueue.subset h) hlive'
    split_ifs with hp
    · refine h.answer (hresponse j hp c hc) fun k hk => ?_
      rw [hdisconnected k hk]
      exact (hI.calls j c hc).accepted
    · exact h
  · obtain ⟨c, hc, rfl⟩ := hget j d hd
    obtain ⟨c', hc', rfl⟩ := hget k e he
    rw [hsent] at hn hn'
    exact hI.ids j k c hc c' hc' n n' id hn hn'
  · rw [hcalls, DaemonClient.answerAll, List.length_mapIdx]
    exact hI.queue j (hqueue.subset hj)
  · obtain ⟨c, hc, hk⟩ := hI.pending q (hpending q hq)
    refine ⟨if p q.2 then c.answer o else c, ?_, by rw [hsent, hconn]; exact hk⟩
    rw [hcalls, answerAll_getElem?, hc]
    rfl
  · obtain ⟨j, hj⟩ := List.mem_iff_getElem?.1 hd
    obtain ⟨c, hc, rfl⟩ := hget j d hj
    have hdone := hI.closed (hclosed ▸ hcl) c (List.mem_of_getElem? hc)
    split_ifs
    · exact answer_pc_done hdone
    · exact hdone

/-- A step that leaves the requests, the queue and the pending replies. -/
theorem ClientInv.control (hI : s.ClientInv) (hcalls : t.calls = s.calls) (hconn : t.conn = s.conn)
    (hnext : t.nextId = s.nextId) (hqueue : t.queue = s.queue) (hpending : t.pending = s.pending)
    (hdrained : t.task = .reconnecting ∨ t.task = .over → t.pending = [])
    (hlive : t.live = true ↔ t.task = .serving ∨ ∃ dropped, t.task = .lost dropped)
    (hlive' : t.live = true → s.live = true)
    (hclosed : t.closed = true → ∀ c ∈ s.calls, c.pc = .done) : t.ClientInv where
  calls i c hc := (hI.calls i c (hcalls ▸ hc)).mono hconn (Nat.le_of_eq hnext.symm)
    (fun h => hqueue ▸ h) hlive'
  ids := hcalls ▸ hI.ids
  nodup := hqueue ▸ hI.nodup
  cap := hqueue ▸ hI.cap
  queue := by
    rw [hqueue, hcalls]
    exact hI.queue
  pending := by
    rw [hpending, hcalls, hconn]
    exact hI.pending
  drained := hdrained
  live := hlive
  closed := hcalls ▸ hclosed

/-- A new request, which has not been sent and is on no queue. -/
theorem ClientInv.concat (hI : s.ClientInv) (hclosed : s.closed = false) {b : ClientCall}
    (hb : s.CallInv s.calls.length b) (hsent : b.sent = []) :
    ClientInv { s with calls := s.calls ++ [b] } where
  calls i c hc := by
    rcases Slots.mem_getElem?_concat.1 hc with hc | ⟨rfl, rfl⟩
    · exact (hI.calls i c hc).mono rfl (Nat.le_refl _) (fun h => h) fun h => h
    · exact hb.mono rfl (Nat.le_refl _) (fun h => h) fun h => h
  ids i j c hc d hd k k' id hk hk' := by
    rcases Slots.mem_getElem?_concat.1 hc with hc | ⟨-, rfl⟩
    · rcases Slots.mem_getElem?_concat.1 hd with hd | ⟨-, rfl⟩
      · exact hI.ids i j c hc d hd k k' id hk hk'
      · rw [hsent] at hk'
        cases hk'
    · rw [hsent] at hk
      cases hk
  nodup := hI.nodup
  cap := hI.cap
  queue j hj := by
    rw [List.length_append]
    exact Nat.lt_of_lt_of_le (hI.queue j hj) (Nat.le_add_right _ _)
  pending q hq := by
    obtain ⟨c, hc, hk⟩ := hI.pending q hq
    exact ⟨c, Slots.mem_getElem?_concat.2 (.inl hc), hk⟩
  drained := hI.drained
  live := hI.live
  closed h := by
    rw [hclosed] at h
    cases h

theorem clientInv_request (hI : s.ClientInv) (h : s.request = some t) : t.ClientInv := by
  unfold request at h
  rw [Option.ite_none_left_eq_some] at h
  obtain ⟨hclosed, h⟩ := h
  have hnot : s.calls.length ∉ s.queue := fun h => Nat.lt_irrefl _ (hI.queue _ h)
  split_ifs at h with hlive
  · cases h
    refine hI.concat (by simpa using hclosed) ⟨Nat.le_refl _, fun _ => rfl, nofun, nofun, nofun,
      nofun, Nat.zero_le _, fun _ => rfl, fun _ => hnot, fun _ _ => rfl⟩ rfl
  · cases h
    refine hI.concat (by simpa using hclosed) ⟨Nat.le_refl _, fun h => absurd rfl h, fun _ => rfl,
      by simp, fun k hk => ?_, nofun, Nat.zero_le _, fun _ => rfl, nofun, fun h => absurd h hlive⟩ rfl
    obtain rfl : k = s.conn := by simpa using hk
    exact Nat.le_refl _

/-- A step that rewrites one request; it is sent, if it is, under an id that is new. -/
theorem ClientInv.rewrite (hI : s.ClientInv) (hget : s.calls[i]? = some c) {c' : ClientCall}
    (hcalls : ∀ j : ℕ, t.calls[j]? = if j = i then some c' else s.calls[j]?)
    (hC : t.CallInv i c') (hconn : t.conn = s.conn) (hnext : s.nextId ≤ t.nextId)
    (hlive : t.live = true ↔ t.task = .serving ∨ ∃ dropped, t.task = .lost dropped)
    (hlive' : t.live = true → s.live = true) (hclosed : t.closed = s.closed)
    (hdone : c.pc = .done → c'.pc = .done)
    (hnew : ∀ k id, (k, id) ∈ c'.sent → (k, id) ∈ c.sent ∨ s.nextId ≤ id)
    (hkept : ∀ x ∈ c.sent, x ∈ c'.sent) (hnodup : t.queue.Nodup)
    (hcap : t.queue.length ≤ cmdChannelCap)
    (hqueue : ∀ j ∈ t.queue, j = i ∨ j ∈ s.queue)
    (hpending : ∀ q ∈ t.pending, q ∈ s.pending ∨ (q.2 = i ∧ (s.conn, q.1) ∈ c'.sent))
    (hdrained : t.task = .reconnecting ∨ t.task = .over → t.pending = []) : t.ClientInv := by
  have hset : ∀ (j : ℕ), ∀ d ∈ t.calls[j]?, (j = i ∧ d = c') ∨ (j ≠ i ∧ d ∈ s.calls[j]?) := by
    intro j d hd
    rw [hcalls] at hd
    split_ifs at hd with hj
    · exact .inl ⟨hj, (Option.mem_some_iff.1 hd).symm⟩
    · exact .inr ⟨hj, hd⟩
  have hids : ∀ (j : ℕ), j ≠ i → ∀ d ∈ s.calls[j]?, ∀ k k' id, (k, id) ∈ c'.sent →
      (k', id) ∉ d.sent := by
    intro j hj d hd k k' id hk hk'
    rcases hnew k id hk with hk | hk
    · exact hj (hI.ids j i d hd c hget k' k id hk' hk)
    · exact absurd ((hI.calls j d hd).sent k' id hk').2 (by omega)
  have hlength : t.calls.length = s.calls.length := by
    have hi : i < s.calls.length := (List.getElem?_eq_some_iff.1 hget).1
    have hle : ∀ j : ℕ, t.calls.length ≤ j ↔ s.calls.length ≤ j := by
      intro j
      rw [← List.getElem?_eq_none_iff, ← List.getElem?_eq_none_iff, hcalls]
      by_cases hj : j = i
      · simp [hj, hget]
      · rw [if_neg hj]
    exact Nat.le_antisymm ((hle _).2 (Nat.le_refl _)) ((hle _).1 (Nat.le_refl _))
  refine ⟨fun j d hd => ?_, fun j k d hd e he n n' id hn hn' => ?_, hnodup, hcap, fun j hj => ?_,
    fun q hq => ?_, hdrained, hlive, fun hcl d hd => ?_⟩
  · rcases hset j d hd with ⟨rfl, rfl⟩ | ⟨hj, hd⟩
    · exact hC
    · exact (hI.calls j d hd).mono hconn hnext (fun h => (hqueue j h).resolve_left hj) hlive'
  · rcases hset j d hd with ⟨rfl, rfl⟩ | ⟨hj, hd⟩
    · rcases hset k e he with ⟨rfl, rfl⟩ | ⟨hk, he⟩
      · rfl
      · exact absurd hn' (hids k hk e he n n' id hn)
    · rcases hset k e he with ⟨rfl, rfl⟩ | ⟨hk, he⟩
      · exact absurd hn (hids j hj d hd n' n id hn')
      · exact hI.ids j k d hd e he n n' id hn hn'
  · rw [hlength]
    rcases hqueue j hj with rfl | hj
    · exact (List.getElem?_eq_some_iff.1 hget).1
    · exact hI.queue j hj
  · rcases hpending q hq with hq | ⟨hqi, hk⟩
    · obtain ⟨d, hd, hk⟩ := hI.pending q hq
      by_cases hqi : q.2 = i
      · obtain rfl : c = d := by simpa [hqi, hget] using hd
        exact ⟨c', by rw [hcalls, if_pos hqi]; rfl, hconn ▸ hkept _ hk⟩
      · exact ⟨d, by rw [hcalls, if_neg hqi]; exact hd, hconn ▸ hk⟩
    · exact ⟨c', by rw [hcalls, if_pos hqi]; rfl, hconn ▸ hk⟩
  · obtain ⟨j, hj⟩ := List.mem_iff_getElem?.1 hd
    rcases hset j d hj with ⟨rfl, rfl⟩ | ⟨-, hj⟩
    · exact hdone (hI.closed (hclosed ▸ hcl) c (List.mem_of_getElem? hget))
    · exact hI.closed (hclosed ▸ hcl) d (List.mem_of_getElem? hj)

theorem clientInv_enqueue (hI : s.ClientInv) (hget : s.calls[i]? = some c)
    (h : s.enqueue i c = some t) : t.ClientInv := by
  unfold enqueue at h
  rw [Option.ite_none_right_eq_some] at h
  obtain ⟨hpc, h⟩ := h
  have hC := hI.calls i c hget
  have hsent : c.sent = [] := hC.unsent (.inl hpc)
  have htold : c.told = [] := hC.open_told (by simp [hpc])
  have hnot : c.pc ≠ .done := by simp [hpc]
  split_ifs at h with hover hroom
  · cases h
    refine hI.rewrite hget (Slots.getElem?_set hget _) ?_ rfl (Nat.le_refl _) hI.live (fun h => h) rfl
      (fun _ => rfl) (fun _ _ h => .inl h) (fun _ h => h) hI.nodup hI.cap (fun _ h => .inr h)
      (fun _ h => .inl h) hI.drained
    refine ⟨hC.accepted, fun h => absurd rfl h, fun _ => rfl, by simp, fun k hk => ?_, hC.sent,
      hC.sent_once, fun _ => hsent, nofun, fun hl hk => hC.fresh hl (.inl hpc)⟩
    obtain rfl : k = s.conn := by simpa using hk
    exact hC.accepted
  · cases h
    refine hI.rewrite hget (Slots.getElem?_set hget _) ?_ rfl (Nat.le_refl _) hI.live (fun h => h) rfl
      (fun h => absurd h hnot) (fun _ _ h => .inl h) (fun _ h => h) ?_ ?_ (fun j hj => ?_)
      (fun _ h => .inl h) hI.drained
    · refine ⟨hC.accepted, fun _ => htold, nofun, hC.response, hC.disconnected, hC.sent,
        hC.sent_once, fun _ => hsent, nofun, fun hl _ => hC.fresh hl (.inl hpc)⟩
    · refine List.nodup_append.2 ⟨hI.nodup, List.nodup_singleton _, fun j hj k hk => ?_⟩
      obtain rfl := List.mem_singleton.1 hk
      rintro rfl
      exact hC.checked hpc hj
    · rw [List.length_append, List.length_singleton]
      exact hroom
    · rcases List.mem_append.1 hj with hj | hj
      · exact .inr hj
      · exact .inl (List.mem_singleton.1 hj)

theorem clientInv_receive {encodes written : Bool} (hI : s.ClientInv)
    (h : s.receive encodes written = some t) : t.ClientInv := by
  unfold receive at h
  split at h
  · rename_i i queue hserving hqueue
    have hi : i ∈ s.queue := by simp [hqueue]
    obtain ⟨c, hget⟩ : ∃ c, s.calls[i]? = some c :=
      ⟨_, List.getElem?_eq_getElem (hI.queue i hi)⟩
    have hC := hI.calls i c hget
    have hsent : c.sent = [] := hC.unsent (.inr hi)
    have hlive : s.live = true := hI.live.2 (.inl hserving)
    have hnodup := hI.nodup
    rw [hqueue, List.nodup_cons] at hnodup
    by_cases hencodes : encodes = true
    · rw [if_pos hencodes] at h
      cases h
      have hmodify : ∀ j : ℕ, (s.calls.modify i fun c =>
          { c with sent := c.sent ++ [(s.conn, s.nextId)] })[j]?
          = if j = i then some { c with sent := [(s.conn, s.nextId)] } else s.calls[j]? := by
        intro j
        rw [List.getElem?_modify]
        by_cases hj : j = i
        · simp [hj, hget, hsent]
        · simp [hj, Ne.symm hj]
      refine hI.rewrite hget hmodify ?_ rfl (Nat.le_succ _) ?_ (fun _ => hlive) rfl (fun h => h)
        (fun k id hk => .inr ?_) (by simp [hsent]) hnodup.2 ?_
        (fun j hj => .inr (by simp [hqueue, hj])) (fun q hq => ?_) ?_
      · refine ⟨hC.accepted, hC.open_told, hC.done_told, fun k id hk => ?_, hC.disconnected,
          fun k id hk => ?_, Nat.le_refl _, fun hk => ?_, fun hk => absurd hi (hC.checked hk),
          fun _ hk => hC.fresh hlive (.inr hi)⟩
        · have := hC.response k id hk
          simp [hsent] at this
        · obtain ⟨rfl, rfl⟩ : k = s.conn ∧ id = s.nextId := by simpa using hk
          exact ⟨(hC.fresh hlive (.inr hi)).symm, Nat.lt_succ_self _⟩
        · exact absurd hk (not_or.2 ⟨fun h => hC.checked h hi, hnodup.1⟩)
      · cases written <;> simp [hlive]
      · obtain ⟨-, rfl⟩ : k = s.conn ∧ id = s.nextId := by simpa using hk
        exact Nat.le_refl _
      · have hcap := hI.cap
        rw [hqueue, List.length_cons] at hcap
        dsimp only
        omega
      · rcases List.mem_cons.1 hq with rfl | hq
        · exact .inr ⟨rfl, by simp⟩
        · exact .inl hq
      · cases written <;> simp
    · rw [if_neg hencodes] at h
      cases h
      refine hI.answerAll rfl (fun _ _ _ _ _ _ => nofun) nofun rfl (Nat.le_succ _) ?_
        (fun _ h => h) hI.drained hI.live (fun h => h) rfl
      rw [hqueue]
      exact List.sublist_cons_self _ _
  · cases h

theorem mem_of_lookup {l : List (ℕ × ℕ)} {id : ℕ} (h : l.lookup id = some i) : (id, i) ∈ l := by
  induction l with
  | nil => cases h
  | cons q l ih =>
    rw [List.lookup_cons] at h
    split at h
    · rename_i hq
      obtain rfl := Option.some.inj h
      rw [beq_iff_eq.1 hq]
      exact List.mem_cons_self
    · exact List.mem_cons_of_mem _ (ih h)

theorem clientInv_response {id : ℕ} (hI : s.ClientInv) (h : s.response id = some t) :
    t.ClientInv := by
  unfold response at h
  rw [Option.ite_none_right_eq_some] at h
  obtain ⟨hserving, h⟩ := h
  split at h
  · rename_i i hlookup
    cases h
    refine hI.answerAll rfl (fun j hj c hc k id' ho => ?_) nofun rfl (Nat.le_refl _)
      (List.Sublist.refl _) (fun q hq => (List.mem_filter.1 hq).1) (by simp [hserving]) hI.live
      (fun h => h) rfl
    obtain rfl : j = i := by simpa using hj
    cases ho
    obtain ⟨c', hc', hk⟩ := hI.pending _ (mem_of_lookup hlookup)
    obtain rfl := Option.mem_unique hc hc'
    exact hk
  · cases h
    exact hI

theorem clientInv_step {a : ClientStep} (hI : s.ClientInv) (hdrained : s.Drained a)
    (h : s.step a = some t) : t.ClientInv := by
  cases a with
  | request => exact clientInv_request hI h
  | enqueue i =>
    obtain ⟨c, hget, h⟩ := Option.bind_eq_some_iff.1 h
    exact clientInv_enqueue hI hget h
  | timeout i =>
    obtain ⟨c, hget, h⟩ := Option.bind_eq_some_iff.1 h
    unfold timeout at h
    rw [Option.ite_none_right_eq_some] at h
    obtain ⟨-, h⟩ := h
    cases h
    refine hI.answerAll rfl (fun _ _ _ _ _ _ => nofun) (fun k hk => ?_) rfl (Nat.le_refl _)
      (List.Sublist.refl _) (fun _ h => h) hI.drained hI.live (fun h => h) rfl
    cases hk
    rfl
  | close =>
    simp only [step, close, Option.ite_none_right_eq_some, Option.some.injEq] at h
    obtain ⟨hall, rfl⟩ := h
    refine hI.control rfl rfl rfl rfl rfl hI.drained hI.live (fun h => h) fun _ c hc => ?_
    simpa using List.all_eq_true.1 hall c hc
  | receive encodes written => exact clientInv_receive hI h
  | receiveNone =>
    simp only [step, Option.ite_none_right_eq_some, Option.some.injEq] at h
    obtain ⟨⟨hserving, -⟩, rfl⟩ := h
    refine hI.control rfl rfl rfl rfl rfl (by simp) ?_ (fun h => h) hI.closed
    simpa using hI.live.2 (.inl hserving)
  | response id => exact clientInv_response hI h
  | lose =>
    simp only [step, Option.ite_none_right_eq_some, Option.some.injEq] at h
    obtain ⟨hserving, rfl⟩ := h
    refine hI.control rfl rfl rfl rfl rfl (by simp) ?_ (fun h => h) hI.closed
    simpa using hI.live.2 (.inl hserving)
  | clear =>
    simp only [step] at h
    split at h
    · cases h
      exact hI.control rfl rfl rfl rfl rfl (by simp) (by simp) nofun hI.closed
    · cases h
  | drain =>
    simp only [step] at h
    split at h
    · rename_i dropped htask
      cases h
      have hlive : s.live = false := by
        by_contra hlive
        have := hI.live.1 (by simpa using hlive)
        simp [htask] at this
      refine hI.answerAll rfl (fun _ _ _ _ _ _ => nofun) (fun k hk => ?_) rfl (Nat.le_refl _)
        (List.Sublist.refl _) nofun (fun _ => rfl) ?_ (fun h => h) rfl
      · cases hk
        rfl
      · cases dropped <;> simp [hlive]
    · cases h
  | reconnect =>
    simp only [step, Option.ite_none_right_eq_some, Option.some.injEq] at h
    obtain ⟨hreconnecting, rfl⟩ := h
    obtain ⟨hqueue, hchecked⟩ := hdrained
    have hpending := hI.drained (.inl hreconnecting)
    refine ⟨fun i c hc => ?_, hI.ids, hI.nodup, hI.cap, hI.queue, ?_, by simp, by simp, hI.closed⟩
    · have hC := hI.calls i c hc
      have hnot : ¬(c.pc = .checked ∨ i ∈ s.queue) := by
        rw [hqueue]
        simpa using hchecked c (List.mem_of_getElem? hc)
      exact ⟨Nat.le_succ_of_le hC.accepted, hC.open_told, hC.done_told, hC.response,
        hC.disconnected, hC.sent, hC.sent_once, hC.unsent, hC.checked,
        fun _ h => absurd h hnot⟩
    · simp [hpending]
  | incompatible =>
    simp only [step, Option.ite_none_right_eq_some, Option.some.injEq] at h
    obtain ⟨hreconnecting, rfl⟩ := h
    have hlive : s.live = false := by
      by_contra hlive
      have := hI.live.1 (by simpa using hlive)
      simp [hreconnecting] at this
    refine hI.answerAll rfl (fun _ _ _ _ _ _ => nofun) (fun k hk => ?_) rfl (Nat.le_refl _)
      (List.nil_sublist _) (fun _ h => h) (fun _ => hI.drained (.inl hreconnecting)) ?_
      (fun h => h) rfl
    · cases hk
      rfl
    · simp [hlive]

end DaemonClient

end BuilderPro
