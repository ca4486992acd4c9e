import BuilderPro.Sessiond.Daemon

/-!
# What a shell prints and the daemon records of its commands

The hooks of `bpa.zsh` and `bpa-bash.sh` print marks around every prompt and command; the reader
turns the marks, cut into chunks anywhere, into `command_events`.  A chunk's end is nowhere seen in
the events (`recorded_run`): they are those of the marks, each read from a parser at rest
(`events_shellText`).
-/

namespace BuilderPro

namespace OscParser

/-! ## A mark read whole -/

/-- Nothing is open, and the buffer is as it was made. -/
def AtRest (p : OscParser) : Prop :=
  p.state = .ground ∨ p.state = .escape → p.buf = [] ∧ p.overflowed = false

theorem eq_new {p : OscParser} (hp : p.AtRest) (hg : p.state = .ground) : p = new := by
  obtain ⟨hb, ho⟩ := hp (.inl hg)
  rcases p with ⟨s, buf, o⟩
  simp only at hg hb ho
  rw [hg, hb, ho, new]

theorem finishOsc_snd (p : OscParser) :
    p.finishOsc.2.buf = [] ∧ p.finishOsc.2.overflowed = false := by
  unfold finishOsc
  split_ifs with ho
  · exact ⟨rfl, rfl⟩
  · exact ⟨rfl, by simpa using ho⟩

theorem atRest_step {p : OscParser} (hp : p.AtRest) (b : UInt8) : (p.step b).2.AtRest := by
  rcases h : p.state
  · by_cases he : b = esc
    · rw [he, step_ground_esc h]
      exact fun _ => hp (.inl h)
    · rw [step_ground h he]
      exact hp
  · by_cases hb : b = ch ']'
    · rw [hb, step_escape_osc h]
      exact fun _ => ⟨rfl, rfl⟩
    by_cases he : b = esc
    · rw [he, step_escape_esc h]
      exact fun _ => hp (.inr h)
    · rw [step_escape h hb he]
      exact fun _ => hp (.inr h)
  · by_cases hb : b = bel
    · rw [hb, step_osc_bel h]
      exact fun _ => finishOsc_snd p
    by_cases he : b = esc
    · rw [he, step_osc_esc h]
      intro hs
      simp at hs
    · rw [step_osc h hb he]
      intro hs
      simp [pushOscByte_state, h] at hs
  · by_cases hb : b = ch ']'
    · rw [hb, step_oscEsc_osc h]
      exact fun _ => ⟨rfl, rfl⟩
    by_cases he : b = esc
    · rw [he, step_oscEsc_esc h]
      intro hs
      simp at hs
    · rw [step_oscEsc h hb he]
      exact fun _ => finishOsc_snd p

theorem atRest_feed {p : OscParser} (hp : p.AtRest) (w : List UInt8) : (p.feed w).2.AtRest := by
  induction w generalizing p with
  | nil => exact hp
  | cons b w ih => exact ih (atRest_step hp b)

theorem atRest_new : new.AtRest := fun _ => ⟨rfl, rfl⟩

/-- BEL closes whatever is open. -/
theorem step_bel_state (p : OscParser) : (p.step bel).2.state = .ground := by
  rcases h : p.state
  · rw [step_ground h (by decide), h]
  · rw [step_escape h (by decide) (by decide)]
  · rw [step_osc_bel h]
  · rw [step_oscEsc h (by decide) (by decide)]

theorem feed_bel (w : List UInt8) : (new.feed (w ++ [bel])).2 = new := by
  refine eq_new (atRest_feed atRest_new _) ?_
  rw [feed_append]
  exact step_bel_state _

/-- Within an OSC the bytes of its payload are kept. -/
theorem feed_payload {q buf : List UInt8} (hq : ∀ b ∈ q, b ≠ esc ∧ b ≠ bel)
    (hlen : buf.length + q.length ≤ oscBufCap) :
    (feed ⟨.osc, buf, false⟩ q) = ([], ⟨.osc, buf ++ q, false⟩) := by
  induction q generalizing buf with
  | nil => simp
  | cons b q ih =>
    obtain ⟨he, hb⟩ := hq b List.mem_cons_self
    rw [List.length_cons] at hlen
    have hpush : pushOscByte ⟨.osc, buf, false⟩ b = ⟨.osc, buf ++ [b], false⟩ := by
      have : ¬ oscBufCap ≤ buf.length := by omega
      simp [pushOscByte, this]
    rw [feed_cons, step_osc rfl hb he, hpush, ih fun c hc => hq c (List.mem_cons_of_mem _ hc)]
    · simp
    · rw [List.length_append, List.length_singleton]
      omega

/-- An OSC that BEL closes, as a whole. -/
def osc (payload : List UInt8) : List UInt8 := esc :: ch ']' :: (payload ++ [bel])

theorem feed_osc_snd (q : List UInt8) : (new.feed (osc q)).2 = new :=
  feed_bel (esc :: ch ']' :: q)

theorem feed_osc {q : List UInt8} (hq : ∀ b ∈ q, b ≠ esc ∧ b ≠ bel)
    (hlen : q.length ≤ oscBufCap) : (new.feed (osc q)).1 = (parseOscPayload q).toList := by
  rw [osc, feed_cons, step_ground_esc rfl, feed_cons, step_escape_osc rfl, feed_append,
    feed_payload hq (by simpa using hlen), feed_cons, step_osc_bel rfl]
  simp [finishOsc]

/-- Text the tokenizer reads through: it holds no mark and leaves no sequence open. -/
structure PlainText where
  bytes : List UInt8
  silent : (new.feed bytes).1 = []
  closed : (new.feed bytes).2.state = .ground

theorem PlainText.feed (t : PlainText) : new.feed t.bytes = ([], new) :=
  Prod.ext t.silent (eq_new (atRest_feed atRest_new _) t.closed)

end OscParser

/-! ## The hooks -/

def bpaOsc133 (letter : Char) : List UInt8 := OscParser.osc (ascii ['1', '3', '3', ';', letter])

def bpaOsc133D (code : UInt8) : List UInt8 :=
  OscParser.osc (ascii ['1', '3', '3', ';', 'D', ';'] ++ ascii (Nat.toDigits 10 code.toNat))

/-- Host and directory are printed as they are. -/
def bpaOsc7 (host pwd : List UInt8) : List UInt8 :=
  OscParser.osc (ascii "7;file://".toList ++ host ++ pwd)

/-- `_bpa_precmd`, and `_bpa_prompt` of bash. -/
def bpaPrecmd (code : UInt8) (host pwd : List UInt8) : List UInt8 :=
  bpaOsc133D code ++ bpaOsc133 'A' ++ bpaOsc7 host pwd

def bpaPreexec : List UInt8 := bpaOsc133 'C'

inductive ShellAction
  | prompt (host pwd : List UInt8) (ps1 : OscParser.PlainText)
  | enter
  | command (code : UInt8)
  | output (text : OscParser.PlainText)

namespace ShellAction

/-- The shell's `$?` after the action. -/
def exitStatus (status : UInt8) : ShellAction → UInt8
  | command code => code
  | _ => status

def text (status : UInt8) : ShellAction → List UInt8
  | prompt host pwd ps1 => bpaPrecmd status host pwd ++ ps1.bytes ++ bpaOsc133 'B'
  | enter => []
  | command _ => bpaPreexec
  | output text => text.bytes

end ShellAction

def shellText (status : UInt8) : List ShellAction → List UInt8
  | [] => []
  | a :: as => a.text status ++ shellText (a.exitStatus status) as

/-! ## The recorder -/

/-- What a command event says of its command. -/
abbrev CommandReport := CommandKind × Option UInt8

def CommandEvent.report (e : CommandEvent) : CommandReport := (e.kind, e.exitCode)

/-- What the reader records for a mark. -/
def OscEvent.report : OscEvent → Option CommandReport
  | .commandStart => some (.started, none)
  | .commandEnd code => some (.finished, code)
  | _ => none

/-- A session's reader and rows. -/
structure Recorder where
  shared : Shared
  parser : OscParser
  rows : SessionRows

inductive RecorderAct
  | read (chunk : List UInt8) (now : Int)
  | sweep

def RecorderAct.bytes : RecorderAct → List UInt8
  | read chunk _ => chunk
  | sweep => []

namespace Recorder

variable (r : Recorder)

/-- The reader deals with a chunk, or a flush sweep stores what it has accumulated. -/
def step : RecorderAct → Recorder
  | .read chunk now =>
    let fed := r.parser.feed chunk
    { r with shared := r.shared.readChunk fed.1 chunk now, parser := fed.2 }
  | .sweep =>
    { r with
      rows := r.rows.appendCommandEvents r.shared.drainCommandEvents.1
      shared := r.shared.drainCommandEvents.2 }

def run (as : List RecorderAct) : Recorder := as.foldl step r

/-- The events of the session, stored or still pending. -/
def recorded : List CommandEvent := r.rows.commandEvents ++ r.shared.pendingCommandEvents

/-- Every event so far has the number of its place. -/
def Numbered : Prop := r.recorded.map (·.seq) = List.range r.shared.commandSeq

/-- A session as `create` makes it. -/
def spawned (id workspaceId : String) (spec : SessionSpec) (now : Int) : Recorder where
  shared := freshShared id workspaceId spec.title spec.shell spec.cwd spec.cols spec.rows now
  parser := OscParser.new
  rows := .empty

end Recorder

/-! ## The events are those of the bytes -/

namespace Shared

/-- What `base` holds and what is pending: numbered by place, with the reports `l`. -/
def Reports (base : List CommandEvent) (sh : Shared) (l : List CommandReport) : Prop :=
  (base ++ sh.pendingCommandEvents).map (·.seq) = List.range sh.commandSeq ∧
    (base ++ sh.pendingCommandEvents).map CommandEvent.report = l

variable {base : List CommandEvent} {sh : Shared} {l : List CommandReport}

theorem Reports.push (h : sh.Reports base l) (kind : CommandKind) (code : Option UInt8)
    (now : Int) : (sh.pushCommandEvent kind code now).Reports base (l ++ [(kind, code)]) := by
  obtain ⟨hs, hr⟩ := h
  unfold pushCommandEvent
  constructor
  · rw [← List.append_assoc, List.map_append, hs, List.range_succ]
    rfl
  · rw [← List.append_assoc, List.map_append, hr]
    rfl

/-- One event of the tokenizer. -/
theorem Reports.record (h : sh.Reports base l) (ev : OscEvent) (now : Int) :
    ((sh.advance ev).record ev now).Reports base (l ++ ev.report.toList) := by
  have ha : (sh.advance ev).Reports base l := h
  rcases ev with _ | _ | _ | code | path
  · exact (List.append_nil l).symm ▸ ha
  · exact (List.append_nil l).symm ▸ ha
  · exact ha.push .started none now
  · exact ha.push .finished code now
  · exact (List.append_nil l).symm ▸ ha

theorem Reports.readChunk (h : sh.Reports base l) (evs : List OscEvent) (chunk : List UInt8)
    (now : Int) :
    (sh.readChunk evs chunk now).Reports base (l ++ evs.filterMap OscEvent.report) := by
  suffices hf : ∀ evs : List OscEvent, ∀ sh : Shared, ∀ l, sh.Reports base l →
      (evs.foldl (fun sh ev => (sh.advance ev).record ev now) sh).Reports base
        (l ++ evs.filterMap OscEvent.report) from hf evs sh l h
  intro evs
  induction evs with
  | nil => intro sh l h; simpa using h
  | cons ev evs ih =>
    intro sh l h
    have := ih _ _ (h.record ev now)
    rcases hev : ev.report with _ | r <;> simpa [hev] using this

end Shared

namespace Recorder

variable {r : Recorder} {l : List CommandReport}

/-- The events of the session, numbered by place, have the reports `l`. -/
def Reports (r : Recorder) (l : List CommandReport) : Prop :=
  r.shared.Reports r.rows.commandEvents l

theorem Reports.sweep (h : r.Reports l) :
    (r.step .sweep).Reports l ∧ (r.step .sweep).rows.commandEvents = r.recorded := by
  have hnd : (r.recorded.map (·.seq)).Nodup := by
    rw [show r.recorded.map (·.seq) = _ from h.1]
    exact List.nodup_range
  rw [recorded, List.map_append, List.nodup_append] at hnd
  have hrows : (r.rows.appendCommandEvents r.shared.pendingCommandEvents).commandEvents
      = r.recorded := by
    rw [SessionRows.appendCommandEvents_fresh ?_ hnd.2.1]
    · rfl
    · intro e he row hrow
      exact hnd.2.2 _ (List.mem_map_of_mem hrow) _ (List.mem_map_of_mem he)
  refine ⟨?_, hrows⟩
  unfold Reports Shared.Reports step Shared.drainCommandEvents
  simp only [hrows, List.append_nil]
  exact h

theorem Reports.step (h : r.Reports l) (a : RecorderAct) :
    (r.step a).Reports (l ++ (r.parser.feed a.bytes).1.filterMap OscEvent.report) ∧
      (r.step a).parser = (r.parser.feed a.bytes).2 := by
  cases a with
  | read chunk now => exact ⟨Shared.Reports.readChunk h _ chunk now, rfl⟩
  | sweep => exact ⟨by simpa [RecorderAct.bytes] using h.sweep.1, rfl⟩

/-- However the bytes are cut and swept, the events are those the tokenizer finds in them. -/
theorem Reports.run (h : r.Reports l) (as : List RecorderAct) :
    (r.run as).Reports
      (l ++ (r.parser.feed (as.flatMap RecorderAct.bytes)).1.filterMap OscEvent.report) := by
  induction as generalizing r l with
  | nil => simpa [Recorder.run] using h
  | cons a as ih =>
    obtain ⟨hs, hp⟩ := h.step a
    rw [List.flatMap_cons, OscParser.feed_append, List.filterMap_append, ← List.append_assoc, ← hp]
    exact ih hs

theorem reports_spawned (id workspaceId : String) (spec : SessionSpec) (now : Int) :
    (spawned id workspaceId spec now).Reports [] := ⟨rfl, rfl⟩

end Recorder

/-! ## The shell's marks -/

section Marks

open OscParser

/-- The reports of the marks that a text holds. -/
def reports (w : List UInt8) : List CommandReport := (new.feed w).1.filterMap OscEvent.report

/-- Text that leaves nothing open. -/
def Closed (w : List UInt8) : Prop := (new.feed w).2 = new

theorem closed_osc (q : List UInt8) : Closed (osc q) := feed_osc_snd q

theorem closed_plain (t : PlainText) : Closed t.bytes := by rw [Closed, t.feed]

theorem Closed.append {v w : List UInt8} (hv : Closed v) (hw : Closed w) : Closed (v ++ w) := by
  rw [Closed, feed_append, hv]
  exact hw

theorem Closed.reports_append {v : List UInt8} (hv : Closed v) (w : List UInt8) :
    reports (v ++ w) = reports v ++ reports w := by
  rw [reports, feed_append, hv, List.filterMap_append]
  rfl

theorem reports_plain (t : PlainText) : reports t.bytes = [] := by
  rw [reports, t.feed]
  rfl

theorem parseExitCode_digits (code : UInt8) :
    parseExitCode (ch ';' :: ascii (Nat.toDigits 10 code.toNat)) = some code := by
  have h : ∀ n < 256, parseExitCode (ch ';' :: ascii (Nat.toDigits 10 n)) = some (UInt8.ofNat n) :=
    by decide +kernel
  simpa using h code.toNat code.toNat_lt

/-- Bytes that neither close an OSC nor start a sequence, as a test. -/
theorem plain_of_all {l : List UInt8} (h : (l.all fun b => b != esc && b != bel) = true) :
    ∀ b ∈ l, b ≠ esc ∧ b ≠ bel := by simpa using h

theorem digits_plain (code : UInt8) :
    (∀ b ∈ ascii (Nat.toDigits 10 code.toNat), b ≠ esc ∧ b ≠ bel) ∧
      (Nat.toDigits 10 code.toNat).length ≤ 3 := by
  have h : ∀ n < 256, ((ascii (Nat.toDigits 10 n)).all fun b => b != esc && b != bel) = true ∧
      (Nat.toDigits 10 n).length ≤ 3 := by decide +kernel
  exact (h code.toNat code.toNat_lt).imp_left plain_of_all

theorem reports_bpaOsc133D (code : UInt8) :
    reports (bpaOsc133D code) = [(.finished, some code)] := by
  obtain ⟨hplain, hlen⟩ := digits_plain code
  rw [reports, bpaOsc133D, feed_osc]
  · show ((parse133 (ch 'D' :: (ch ';' :: ascii (Nat.toDigits 10 code.toNat)))).toList.filterMap
      OscEvent.report) = _
    simp [parse133, parseExitCode_digits, OscEvent.report, show ch 'D' ≠ ch 'A' by decide,
      show ch 'D' ≠ ch 'B' by decide, show ch 'D' ≠ ch 'C' by decide]
  · intro b hb
    rcases List.mem_append.1 hb with hb | hb
    · exact plain_of_all (l := ascii ['1', '3', '3', ';', 'D', ';']) (by decide) b hb
    · exact hplain b hb
  · rw [List.length_append, ascii, ascii, List.length_map, List.length_map, oscBufCap]
    simp only [List.length_cons, List.length_nil]
    omega

/-- A prompt's mark B and its A say nothing of commands, C that one has started. -/
theorem reports_letters : reports (bpaOsc133 'A') = [] ∧ reports (bpaOsc133 'B') = [] ∧
    reports bpaPreexec = [(.started, none)] := by decide +kernel

/-- What the report of the working directory is read as, of commands. -/
def cwdReports (host pwd : List UInt8) : List CommandReport := reports (bpaOsc7 host pwd)

/-- OSC 7 gives a working directory or nothing. -/
theorem parseOsc7_cwd {rest : List UInt8} {ev : OscEvent} (h : parseOsc7 rest = some ev) :
    ∃ path, ev = .cwd path := by
  unfold parseOsc7 at h
  split at h
  · cases h
  simp only [Option.bind_eq_bind, Option.bind_eq_some_iff] at h
  obtain ⟨-, -, scheme, -, h⟩ := h
  split at h
  · cases h
  obtain ⟨decoded, -, h⟩ := Option.bind_eq_some_iff.1 h
  split at h
  · exact ⟨decoded, (Option.some.inj h).symm⟩
  · cases h

theorem parseOsc7_report {rest : List UInt8} {ev : OscEvent} (h : parseOsc7 rest = some ev) :
    ev.report = none := by
  obtain ⟨path, rfl⟩ := parseOsc7_cwd h
  rfl

/-- A directory whose path holds neither ESC nor BEL is reported as no command. -/
theorem cwdReports_of_plain {host pwd : List UInt8} (h : ∀ b ∈ host ++ pwd, b ≠ esc ∧ b ≠ bel) :
    cwdReports host pwd = [] := by
  have hq : ∀ b ∈ ascii "7;file://".toList ++ host ++ pwd, b ≠ esc ∧ b ≠ bel := fun b hb => by
    rw [List.append_assoc] at hb
    rcases List.mem_append.1 hb with hb | hb
    · exact plain_of_all (l := ascii "7;file://".toList) (by decide) b hb
    · exact h b hb
  rw [cwdReports, reports, bpaOsc7]
  by_cases hlen : (ascii "7;file://".toList ++ host ++ pwd).length ≤ oscBufCap
  · have hparse : parseOscPayload (ascii "7;file://".toList ++ host ++ pwd) =
        parseOsc7 (ascii "file://".toList ++ host ++ pwd) := by rfl
    rw [feed_osc hq hlen, hparse]
    rcases hev : parseOsc7 (ascii "file://".toList ++ host ++ pwd) with _ | ev
    · rfl
    · simp [parseOsc7_report hev]
  · have hmark : ¬ HasMark (osc (ascii "7;file://".toList ++ host ++ pwd)) := by
      rw [osc, hasMark_osc (w := []) hq (terminator_bel []) (hasMark_cons_of_ne (by decide))]
      rintro (h' | h')
      · exact hlen h'.1
      · exact hasMark_nil h'
    rw [(feed_eq_nil_iff _).2 hmark]
    rfl

/-- What an action's text is read as. -/
def ShellAction.reports (status : UInt8) : ShellAction → List CommandReport
  | prompt host pwd _ => (.finished, some status) :: cwdReports host pwd
  | enter => []
  | command _ => [(.started, none)]
  | output _ => []

theorem reports_text (status : UInt8) (a : ShellAction) :
    Closed (a.text status) ∧ reports (a.text status) = a.reports status := by
  cases a with
  | prompt host pwd ps1 =>
    have hd : Closed (bpaOsc133D status ++ bpaOsc133 'A') := (closed_osc _).append (closed_osc _)
    have hc : Closed (bpaPrecmd status host pwd) := hd.append (closed_osc _)
    refine ⟨(hc.append (closed_plain ps1)).append (closed_osc _), ?_⟩
    rw [ShellAction.text, (hc.append (closed_plain ps1)).reports_append, hc.reports_append,
      bpaPrecmd, hd.reports_append, bpaOsc133D, (closed_osc _).reports_append, ← bpaOsc133D,
      reports_bpaOsc133D, reports_letters.1, reports_letters.2.1, reports_plain, List.append_nil,
      List.append_nil]
    rfl
  | enter => exact ⟨rfl, rfl⟩
  | command code => exact ⟨closed_osc _, reports_letters.2.2⟩
  | output text => exact ⟨closed_plain text, reports_plain text⟩

/-- What the marks of the actions are read as. -/
def shellReports (status : UInt8) : List ShellAction → List CommandReport
  | [] => []
  | a :: as => a.reports status ++ shellReports (a.exitStatus status) as

theorem reports_shellText (status : UInt8) (as : List ShellAction) :
    reports (shellText status as) = shellReports status as := by
  induction as generalizing status with
  | nil => rfl
  | cons a as ih =>
    obtain ⟨hc, hr⟩ := reports_text status a
    rw [shellText, hc.reports_append, hr, ih, shellReports]

/-- Fed the marks in any chunks, with sweeps in between, a session records the reports of the
marks, numbered in order. -/
theorem reports_run (id workspaceId : String) (spec : SessionSpec) (now : Int) {status : UInt8}
    {as : List ShellAction} {script : List RecorderAct}
    (h : script.flatMap RecorderAct.bytes = shellText status as) :
    ((Recorder.spawned id workspaceId spec now).run script).Reports (shellReports status as) := by
  rw [← reports_shellText, ← h]
  exact (Recorder.reports_spawned id workspaceId spec now).run script

end Marks

end BuilderPro
