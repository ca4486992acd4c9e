import BuilderPro.Sessiond.CommandHistory
import Mathlib.Data.List.Dedup
import Mathlib.Data.List.Sort

/-!
# The command strip

`CommandStrip.tsx` pairs the newest command events of a session into one item a command.  The daemon
has its events from the shell's marks, and every prompt prints the mark of a command's end, so that
the history is exact precisely when each prompt drawn follows a command (`exact_iff`).
-/

namespace BuilderPro

/-- `list_command_events`. -/
def SessionRows.listCommandEvents (db : SessionRows) (limit : ℕ) : List CommandEvent :=
  (db.commandEvents.mergeSort fun a b => decide (b.seq ≤ a.seq)).take limit

/-! ## The strip's items -/

inductive StripItem
  | outcome (key : String) (ok : Bool) (exitCode : Option UInt8)
  | running (key : String)
  | interrupted (key : String)
  deriving DecidableEq, Repr

def finishedItem (ev : CommandEvent) : StripItem :=
  .outcome ("f" ++ toString ev.seq) (ev.exitCode == some 0) ev.exitCode

def startedItem (isLive : Bool) (ev : CommandEvent) : StripItem :=
  if isLive then .running ("s" ++ toString ev.seq) else .interrupted ("s" ++ toString ev.seq)

/-- `pairCommandEvents`, newest first. -/
def pairCommandEvents (isLive : Bool) : List CommandEvent → List StripItem
  | [] => []
  | [ev] =>
    match ev.kind with
    | .finished => [finishedItem ev]
    | .started => [startedItem isLive ev]
  | ev :: next :: events =>
    match ev.kind with
    | .finished =>
      if next.kind = .started then finishedItem ev :: pairCommandEvents isLive events
      else finishedItem ev :: pairCommandEvents isLive (next :: events)
    | .started => startedItem isLive ev :: pairCommandEvents isLive (next :: events)

/-! ## The history it stands for -/

/-- A command that was run, and its exit code once it has ended. -/
structure Ran where
  code : UInt8
  ended : Bool
  deriving DecidableEq, Repr

namespace Ran

/-- The events there should be of the command. -/
def reports (c : Ran) : List CommandReport :=
  (.started, none) :: if c.ended then [(.finished, some c.code)] else []

/-- What the strip should show of the command. -/
def ShownAs (isLive : Bool) (c : Ran) (item : StripItem) : Prop :=
  ∃ key, item =
    if c.ended then .outcome key (c.code == 0) (some c.code)
    else if isLive then .running key else .interrupted key

end Ran

/-- The commands of a shell's actions, `inFlight` first: one has ended when the shell draws a prompt
or runs the next. -/
def history (inFlight : Option UInt8) : List ShellAction → List Ran
  | [] => inFlight.toList.map (⟨·, false⟩)
  | .prompt _ _ _ :: as => inFlight.toList.map (⟨·, true⟩) ++ history none as
  | .enter :: as => history inFlight as
  | .command code :: as => inFlight.toList.map (⟨·, true⟩) ++ history (some code) as
  | .output _ :: as => history inFlight as

/-- The commands that the newest `limit` events are about, newest first: each event stands for its
command, numbered. -/
def commandsAmong (h : List Ran) (limit : ℕ) : List Ran :=
  (((h.reverse.zipIdx.flatMap fun c => c.1.reports.map fun _ => c).take limit).dedup).map Prod.fst

/-- However the marks of the actions are cut into chunks, the events of the session are those of
its commands, and the strip's items of the newest of them are those commands. -/
def HistoryExact (status : UInt8) (as : List ShellAction) : Prop :=
  ∀ id workspaceId spec now script, script.flatMap RecorderAct.bytes = shellText status as →
    let r := (Recorder.spawned id workspaceId spec now).run script
    r.recorded.map CommandEvent.report = (history none as).flatMap Ran.reports ∧
    ∀ limit isLive, List.Forall₂ (Ran.ShownAs isLive) (commandsAmong (history none as) limit)
      (pairCommandEvents isLive ((r.step .sweep).rows.listCommandEvents limit))

/-- Each prompt follows a command, which is the last before it, and its report of the working
directory is read as no command; `running` when a command is in flight. -/
def Answered (running : Bool) : List ShellAction → Prop
  | [] => True
  | .prompt host pwd _ :: as => running = true ∧ cwdReports host pwd = [] ∧ Answered false as
  | .enter :: as => Answered running as
  | .command _ :: as => running = false ∧ Answered true as
  | .output _ :: as => Answered running as

/-! ## Pairing -/

/-- Only the last command may be in flight. -/
theorem history_eq (inFlight : Option UInt8) (as : List ShellAction) :
    ∃ (done : List UInt8) (last : Option UInt8),
      history inFlight as = done.map (⟨·, true⟩) ++ last.toList.map (⟨·, false⟩) := by
  induction as generalizing inFlight with
  | nil => exact ⟨[], inFlight, rfl⟩
  | cons a as ih =>
    cases a with
    | prompt host pwd ps1 =>
      obtain ⟨done, last, h⟩ := ih none
      exact ⟨inFlight.toList ++ done, last, by simp [history, h]⟩
    | enter => exact ih inFlight
    | command code =>
      obtain ⟨done, last, h⟩ := ih (some code)
      exact ⟨inFlight.toList ++ done, last, by simp [history, h]⟩
    | output text => exact ih inFlight

theorem pair_started {isLive : Bool} {ev : CommandEvent} (h : ev.kind = .started)
    (evs : List CommandEvent) :
    pairCommandEvents isLive (ev :: evs) =
      startedItem isLive ev :: pairCommandEvents isLive evs := by
  rcases evs with _ | ⟨next, evs⟩ <;> simp [pairCommandEvents, h]

theorem pair_finished {isLive : Bool} {ev next : CommandEvent} (h : ev.kind = .finished)
    (hn : next.kind = .started) (evs : List CommandEvent) :
    pairCommandEvents isLive (ev :: next :: evs) =
      finishedItem ev :: pairCommandEvents isLive evs := by
  simp [pairCommandEvents, h, hn]

/-- The commands that stand first in a list that repeats each once for each of its events. -/
def standing (l : List (Ran × ℕ)) (n : ℕ) : List (Ran × ℕ) :=
  ((l.flatMap fun c => c.1.reports.map fun _ => c).take n).dedup

section Pairing

variable {c : Ran × ℕ} {l : List (Ran × ℕ)} {isLive : Bool}

theorem notMem_standing (hc : c ∉ l) (n : ℕ) :
    c ∉ (l.flatMap fun c => c.1.reports.map fun _ => c).take n := by
  intro h
  obtain ⟨d, hd, h⟩ := List.mem_flatMap.1 (List.mem_of_mem_take h)
  obtain ⟨-, -, rfl⟩ := List.mem_map.1 h
  exact hc hd

theorem standing_started (hc : c ∉ l) (he : c.1.ended = false) (n : ℕ) :
    standing (c :: l) (n + 1) = c :: standing l n := by
  have hr : c.1.reports = [(.started, none)] := by simp [Ran.reports, he]
  rw [standing, List.flatMap_cons, hr]
  exact List.dedup_cons_of_notMem (notMem_standing hc n)

theorem standing_one (he : c.1.ended = true) : standing (c :: l) 1 = [c] := by
  simp [standing, Ran.reports, he]

theorem standing_ended (hc : c ∉ l) (he : c.1.ended = true) (n : ℕ) :
    standing (c :: l) (n + 2) = c :: standing l n := by
  have hr : c.1.reports = [(.started, none), (.finished, some c.1.code)] := by
    simp [Ran.reports, he]
  rw [standing, List.flatMap_cons, hr]
  refine (List.dedup_cons_of_mem List.mem_cons_self).trans ?_
  exact List.dedup_cons_of_notMem (notMem_standing hc n)

/-- The newest events of commands that have ended, as they are listed. -/
theorem pair_ended (hl : ∀ c ∈ l, c.1.ended = true) (hnd : l.Nodup) {n : ℕ}
    {evs : List CommandEvent}
    (h : evs.map CommandEvent.report = (l.flatMap fun c => c.1.reports.reverse).take n) :
    List.Forall₂ (fun c item => c.1.ShownAs isLive item) (standing l n)
      (pairCommandEvents isLive evs) := by
  induction l generalizing n evs with
  | nil =>
    obtain rfl : evs = [] := by simpa using h
    simp [standing, pairCommandEvents]
  | cons c l ih =>
    have he := hl c List.mem_cons_self
    obtain ⟨hc, hnd⟩ := List.nodup_cons.1 hnd
    have hr : c.1.reports.reverse = [(.finished, some c.1.code), (.started, none)] := by
      simp [Ran.reports, he]
    rw [List.flatMap_cons, hr] at h
    have hitem : ∀ ev : CommandEvent, ev.report = (.finished, some c.1.code) →
        ev.kind = .finished ∧ c.1.ShownAs isLive (finishedItem ev) := fun ev hev => by
      obtain ⟨hk, hx⟩ := Prod.ext_iff.1 hev
      refine ⟨hk, "f" ++ toString ev.seq, ?_⟩
      rw [if_pos he, finishedItem, show ev.exitCode = some c.1.code from hx]
      rfl
    rcases n with _ | _ | n
    · obtain rfl : evs = [] := by simpa using h
      simp [standing, pairCommandEvents]
    · obtain ⟨ev, evs, rfl, hev, hnil⟩ := List.map_eq_cons_iff.1 h
      obtain rfl := List.map_eq_nil_iff.1 hnil
      obtain ⟨hk, hs⟩ := hitem ev hev
      rw [standing_one he]
      simpa [pairCommandEvents, hk] using hs
    · obtain ⟨ev, evs, rfl, hev, h⟩ := List.map_eq_cons_iff.1 h
      obtain ⟨next, evs, rfl, hnext, h⟩ := List.map_eq_cons_iff.1 h
      obtain ⟨hk, hs⟩ := hitem ev hev
      rw [standing_ended hc he, pair_finished hk (congrArg Prod.fst hnext)]
      exact .cons hs (ih (fun d hd => hl d (List.mem_cons_of_mem _ hd)) hnd h)

/-- Of the commands listed only the newest may be in flight. -/
theorem pair_newest (hl : ∀ c ∈ l.tail, c.1.ended = true) (hnd : l.Nodup) {n : ℕ}
    {evs : List CommandEvent}
    (h : evs.map CommandEvent.report = (l.flatMap fun c => c.1.reports.reverse).take n) :
    List.Forall₂ (fun c item => c.1.ShownAs isLive item) (standing l n)
      (pairCommandEvents isLive evs) := by
  rcases l with _ | ⟨c, l⟩
  · exact pair_ended (fun _ hc => absurd hc List.not_mem_nil) hnd h
  by_cases he : c.1.ended = true
  · exact pair_ended (List.forall_mem_cons.2 ⟨he, hl⟩) hnd h
  have he : c.1.ended = false := by simpa using he
  have hr : c.1.reports.reverse = [(.started, none)] := by simp [Ran.reports, he]
  obtain ⟨hc, hnd⟩ := List.nodup_cons.1 hnd
  rw [List.flatMap_cons, hr] at h
  rcases n with _ | n
  · obtain rfl : evs = [] := by simpa using h
    simp [standing, pairCommandEvents]
  · obtain ⟨ev, evs, rfl, hev, h⟩ := List.map_eq_cons_iff.1 h
    rw [standing_started hc he, pair_started (congrArg Prod.fst hev)]
    refine .cons ?_ (pair_ended hl hnd h)
    refine ⟨"s" ++ toString ev.seq, ?_⟩
    rw [if_neg (by simp [he]), startedItem]

theorem history_tail_ended (inFlight : Option UInt8) (as : List ShellAction) :
    ∀ c ∈ (history inFlight as).reverse.tail, c.ended = true := by
  obtain ⟨done, last, hh⟩ := history_eq inFlight as
  intro c hc
  rw [hh, List.reverse_append] at hc
  have hdone : c ∈ (done.map fun code => (⟨code, true⟩ : Ran)).reverse := by
    rcases last with _ | code
    · exact List.mem_of_mem_tail hc
    · exact hc
  obtain ⟨-, -, rfl⟩ := List.mem_map.1 (List.mem_reverse.1 hdone)
  rfl

/-- The newest events of a session's commands are paired into one item a command. -/
theorem pair_history (inFlight : Option UInt8) (as : List ShellAction) {limit : ℕ}
    {evs : List CommandEvent}
    (h : evs.map CommandEvent.report =
      ((history inFlight as).flatMap Ran.reports).reverse.take limit) :
    List.Forall₂ (Ran.ShownAs isLive) (commandsAmong (history inFlight as) limit)
      (pairCommandEvents isLive evs) := by
  rw [commandsAmong, List.forall₂_map_left_iff]
  have hfst : (history inFlight as).reverse.zipIdx.map Prod.fst = (history inFlight as).reverse :=
    List.zipIdx_map_fst 0 _
  refine pair_newest (fun c hc => ?_) ?_ ?_
  · refine history_tail_ended inFlight as c.1 ?_
    rw [← hfst, ← List.map_tail]
    exact List.mem_map_of_mem hc
  · refine List.Nodup.of_map Prod.snd ?_
    rw [List.zipIdx_map_snd]
    exact List.nodup_range'
  · rw [h, List.reverse_flatMap]
    conv_lhs => rw [← hfst, List.flatMap_map]
    rfl

end Pairing

/-! ## The stored events -/

/-- Rows numbered by place are listed backwards. -/
theorem listCommandEvents_eq {db : SessionRows} {n : ℕ}
    (h : db.commandEvents.map (·.seq) = List.range n) (limit : ℕ) :
    db.listCommandEvents limit = db.commandEvents.reverse.take limit := by
  have hlt : db.commandEvents.Pairwise fun a b => a.seq < b.seq := by
    rw [← List.pairwise_map (f := fun e : CommandEvent => e.seq), h]
    exact List.pairwise_lt_range
  rw [SessionRows.listCommandEvents]
  congr 1
  have hsorted : (db.commandEvents.mergeSort fun a b => decide (b.seq ≤ a.seq)).Pairwise
      fun a b => b.seq ≤ a.seq := by
    have htrans : ∀ a b c : CommandEvent, decide (b.seq ≤ a.seq) = true →
        decide (c.seq ≤ b.seq) = true → decide (c.seq ≤ a.seq) = true := fun a b c hab hbc => by
      simp only [decide_eq_true_eq] at hab hbc ⊢
      omega
    have htotal : ∀ a b : CommandEvent,
        (decide (b.seq ≤ a.seq) || decide (a.seq ≤ b.seq)) = true := fun a b => by
      simp only [Bool.or_eq_true, decide_eq_true_eq]
      omega
    simpa using List.pairwise_mergeSort htrans htotal db.commandEvents
  refine List.Perm.eq_of_pairwise ?_ hsorted ?_ ?_
  · intro a b ha hb hab hba
    have hnd : (db.commandEvents.map (·.seq)).Nodup := by
      rw [h]
      exact List.nodup_range
    exact List.inj_on_of_nodup_map hnd (List.mem_mergeSort.1 ha) (List.mem_reverse.1 hb)
      (Nat.le_antisymm hba hab)
  · rw [List.pairwise_reverse]
    exact hlt.imp Nat.le_of_lt
  · exact (List.mergeSort_perm _ _).trans (List.reverse_perm _).symm

/-! ## When the marks are those of the commands -/

/-- The commands that the actions run. -/
def commandCount : List ShellAction → ℕ
  | [] => 0
  | .prompt _ _ _ :: as => commandCount as
  | .enter :: as => commandCount as
  | .command _ :: as => commandCount as + 1
  | .output _ :: as => commandCount as

abbrev startedReport : CommandReport := (.started, none)

/-- Every command in the history has one started event. -/
theorem count_history (inFlight : Option UInt8) (as : List ShellAction) :
    ((history inFlight as).flatMap Ran.reports).count startedReport =
      inFlight.toList.length + commandCount as := by
  induction as generalizing inFlight with
  | nil => rcases inFlight with _ | code <;> simp [history, Ran.reports, commandCount]
  | cons a as ih =>
    rcases a with ⟨host, pwd, ps1⟩ | _ | code | text
    · rcases inFlight with _ | code
      · simp [history, commandCount, ih]
      · simp only [history, commandCount, ih, Option.toList_some, List.map_cons, List.map_nil,
          List.singleton_append, List.flatMap_cons, List.count_append]
        simp [Ran.reports]
    · rw [history, ih, commandCount]
    · rcases inFlight with _ | code
      · simp [history, commandCount, ih]
        omega
      · simp [history, Ran.reports, commandCount, ih]
        omega
    · rw [history, ih, commandCount]

theorem count_shellReports (status : UInt8) (as : List ShellAction) :
    commandCount as ≤ (shellReports status as).count startedReport := by
  induction as generalizing status with
  | nil => exact Nat.zero_le _
  | cons a as ih =>
    have := ih (a.exitStatus status)
    rw [shellReports, List.count_append]
    rcases a with ⟨host, pwd, ps1⟩ | _ | code | text
    · rw [commandCount]
      omega
    · rw [commandCount]
      omega
    · rw [commandCount, ShellAction.reports, List.count_singleton_self]
      omega
    · rw [commandCount]
      omega

/-- The first event there should be is that of a start. -/
theorem reports_head {h : List Ran} {x : CommandReport} {l : List CommandReport}
    (hx : h.flatMap Ran.reports = x :: l) : x = startedReport := by
  rcases h with _ | ⟨c, h⟩
  · cases hx
  · exact (List.cons.inj hx).1.symm

/-- What a prompt adds to the events is nothing of its working directory. -/
theorem cwdReports_eq_nil {cwd : List CommandReport} {status : UInt8} {as : List ShellAction}
    (h : cwd ++ shellReports status as = (history none as).flatMap Ran.reports) : cwd = [] := by
  rcases cwd with _ | ⟨x, cwd⟩
  · rfl
  have hcount := count_history none as
  have hle := count_shellReports status as
  obtain rfl := reports_head h.symm
  rw [← h, List.cons_append, List.count_cons_self, List.count_append] at hcount
  simp only [Option.toList_none, List.length_nil] at hcount
  omega

/-- The marks say of the commands what they should exactly when each prompt follows a command. -/
theorem shellReports_eq_iff (inFlight : Option UInt8) (status : UInt8) (as : List ShellAction)
    (hs : ∀ code ∈ inFlight, status = code) :
    inFlight.toList.map (fun _ => startedReport) ++ shellReports status as =
      (history inFlight as).flatMap Ran.reports ↔ Answered inFlight.isSome as := by
  induction as generalizing inFlight status with
  | nil => rcases inFlight with _ | code <;> simp [shellReports, history, Ran.reports, Answered]
  | cons a as ih =>
    rcases a with ⟨host, pwd, ps1⟩ | _ | code | text
    · rcases inFlight with _ | code
      · refine iff_of_false (fun h => ?_) (fun h => by cases h.1)
        cases reports_head h.symm
      · obtain rfl := hs code rfl
        have := ih none status fun _ h => by cases h
        simp only [Option.toList_none, List.map_nil, List.nil_append, Option.isSome_none] at this
        simp only [history, shellReports, ShellAction.reports, ShellAction.exitStatus, Answered,
          Option.toList_some, Option.isSome_some, List.map_cons, List.map_nil, List.cons_append,
          List.nil_append, List.flatMap_cons, Ran.reports, if_true, List.cons.injEq, true_and]
        rw [← this]
        constructor
        · intro h
          have hc := cwdReports_eq_nil h
          exact ⟨hc, by rwa [hc] at h⟩
        · rintro ⟨hc, h⟩
          rwa [hc]
    · exact ih inFlight status hs
    · rcases inFlight with _ | before
      · have := ih (some code) code fun _ h => Option.some.inj h
        simpa [history, shellReports, ShellAction.reports, ShellAction.exitStatus, Answered] using
          this
      · refine iff_of_false (fun h => ?_) (fun h => by cases h.1)
        cases (List.cons.inj (List.cons.inj h).2).1
    · exact ih inFlight status hs

/-! ## The strip shows the commands -/

/-- A run's stored events, of which the newest are listed. -/
theorem listed_run {r : Recorder} {l : List CommandReport} (h : r.Reports l) (limit : ℕ) :
    ((r.step .sweep).rows.listCommandEvents limit).map CommandEvent.report =
      l.reverse.take limit := by
  have hrows := h.sweep.2
  rw [listCommandEvents_eq (n := r.shared.commandSeq) (by rw [hrows]; exact h.1) limit,
    List.map_take, List.map_reverse, hrows]
  exact congrArg (fun l => List.take limit l.reverse) h.2

/-- Of a shell's actions, however their marks are cut into chunks, the daemon records the commands
and the strip shows them exactly when each prompt drawn follows a command that the shell has run
since the last, and names a directory that is read as no command. -/
theorem history_exact_iff (status : UInt8) (as : List ShellAction) :
    HistoryExact status as ↔ Answered false as := by
  have heq : shellReports status as = (history none as).flatMap Ran.reports ↔ Answered false as :=
    shellReports_eq_iff none status as nofun
  rw [← heq]
  constructor
  · intro h
    have hbytes : [RecorderAct.read (shellText status as) 0].flatMap RecorderAct.bytes =
        shellText status as := List.append_nil _
    obtain ⟨hr, -⟩ := h "" "" ⟨"", "", "", 0, 0⟩ 0 _ hbytes
    rw [← hr]
    exact (reports_run "" "" ⟨"", "", "", 0, 0⟩ 0 hbytes).2.symm
  · intro h id workspaceId spec now script hscript
    have hrun := reports_run id workspaceId spec now hscript
    refine ⟨hrun.2.trans h, fun limit isLive => pair_history none as ?_⟩
    rw [listed_run hrun, h]

/-- The prompt that a shell draws first closes no command, and is recorded as the end of one. -/
theorem first_prompt_recorded : ¬ ∀ status as, HistoryExact status as := by
  intro h
  have hbytes : [RecorderAct.read (shellText 0 [.prompt [] [] ⟨[], rfl, rfl⟩]) 0].flatMap
      RecorderAct.bytes = shellText 0 [.prompt [] [] ⟨[], rfl, rfl⟩] := List.append_nil _
  have hr := (h 0 [.prompt [] [] ⟨[], rfl, rfl⟩] "" "" ⟨"", "", "", 0, 0⟩ 0 _ hbytes).1
  revert hr
  decide +kernel

end BuilderPro
