import BuilderPro.Sessiond.OscGrammar
import BuilderPro.Lib.Utf8Lossy

/-!
# The directory a shell reports

The hooks print a directory's bytes as they are, and `parse_osc7` takes what it reads for a URI: it
decodes percent signs, and the tokenizer ends a payload at the first BEL or ESC.  A directory is
reported as it is exactly if none of these is in its name, but for names that are no UTF-8 or too
long, of which nothing is reported (`bpaOsc7_reports_iff`).
-/

namespace BuilderPro

open OscParser

/-- A host's name, without the bytes that mean something in a URI or to a terminal. -/
structure HostName where
  bytes : List UInt8
  no_slash : ch '/' ∉ bytes
  no_percent : ch '%' ∉ bytes
  no_control : ∀ b ∈ bytes, 0x20 ≤ b.toNat ∧ b.toNat ≠ 0x7F

/-- A directory's absolute path: its components, of which none is empty. -/
structure DirPath where
  components : List (List UInt8)
  ne_nil : ∀ c ∈ components, c ≠ []
  no_slash : ∀ c ∈ components, ch '/' ∉ c
  no_nul : ∀ c ∈ components, 0 ∉ c

def DirPath.bytes (p : DirPath) : List UInt8 :=
  if p.components = [] then [ch '/'] else p.components.flatMap fun c => ch '/' :: c

namespace OscParser

/-! ## What a payload says -/

/-- Percent escapes, decoded. -/
inductive Unescapes : List UInt8 → List UInt8 → Prop
  | nil : Unescapes [] []
  | plain {c : UInt8} {raw out : List UInt8} (hc : c ≠ ch '%') (h : Unescapes raw out) :
      Unescapes (c :: raw) (c :: out)
  | escape {h l hi lo : UInt8} {raw out : List UInt8} (hh : hexDigit h = some hi)
      (hl : hexDigit l = some lo) (hrest : Unescapes raw out) :
      Unescapes (ch '%' :: h :: l :: raw) ((hi * 16 + lo) :: out)

def schemes : List (List UInt8) :=
  [ascii "file://".toList, ascii "kitty-shell-cwd://".toList]

/-- The payload reports a directory: `7;`, a scheme, a host, and a path with its escapes. -/
def SaysCwd (p : List UInt8) (path : String) : Prop :=
  ∃ scheme ∈ schemes, ∃ host raw, p = ascii "7;".toList ++ (scheme ++ (host ++ raw)) ∧
    ch '/' ∉ host ∧ raw.head? = some (ch '/') ∧
    (Utf8.decode (scheme ++ (host ++ raw))).isSome = true ∧ Unescapes raw (Utf8.bytes path)

/-- The payload reports a prompt or a command. -/
def SaysCommand (p : List UInt8) : Prop :=
  ∃ letter ∈ ascii ['A', 'B', 'C', 'D'], ∃ args, p = ascii "133;".toList ++ letter :: args

/-- A text holds an OSC that reports something. -/
def HoldsReport (w : List UInt8) : Prop :=
  ∃ before p after, w = before ++ esc :: ch ']' :: (p ++ after) ∧ (∀ b ∈ p, b ≠ esc ∧ b ≠ bel) ∧
    Terminator after ∧ p.length ≤ oscBufCap ∧ (SaysCommand p ∨ ∃ path, SaysCwd p path)

variable {p raw out q w t : List UInt8} {path : String} {ev : OscEvent}

theorem percentBytes_plain {c : UInt8} (hc : c ≠ ch '%') :
    percentBytes (c :: raw) = (percentBytes raw).map (c :: ·) := by
  rw [percentBytes.eq_def]
  simp only [if_neg hc]
  rcases percentBytes raw with _ | out <;> rfl

theorem percentBytes_eq_some : percentBytes raw = some out ↔ Unescapes raw out := by
  constructor
  · intro h
    induction raw using percentBytes.induct generalizing out with
    | case1 =>
      obtain rfl : [] = out := by simpa [percentBytes] using h
      exact .nil
    | case2 a b rest ih =>
      rw [percentBytes.eq_def] at h
      simp only [if_true, Option.bind_eq_bind, Option.bind_eq_some_iff, Option.some.injEq] at h
      obtain ⟨hi, hhi, lo, hlo, tail, htail, rfl⟩ := h
      exact .escape hhi hlo (ih htail)
    | case3 rest hrest =>
      rw [percentBytes.eq_3 _ _ hrest, if_pos rfl] at h
      simp at h
    | case4 c rest hc ih =>
      rw [percentBytes_plain hc, Option.map_eq_some_iff] at h
      obtain ⟨tail, htail, rfl⟩ := h
      exact .plain hc (ih htail)
  · intro h
    induction h with
    | nil => rfl
    | plain hc _ ih => rw [percentBytes_plain hc, ih, Option.map_some]
    | escape hh hl _ ih =>
      rw [percentBytes.eq_def]
      simp [hh, hl, ih]

theorem Unescapes.length_le (h : Unescapes raw out) : out.length ≤ raw.length := by
  induction h with
  | nil => exact le_rfl
  | plain _ _ ih =>
    simp only [List.length_cons]
    omega
  | escape _ _ _ ih =>
    simp only [List.length_cons]
    omega

/-- An escape takes three bytes for one. -/
theorem Unescapes.length_lt (h : Unescapes raw out) (hmem : ch '%' ∈ raw) :
    out.length < raw.length := by
  induction h with
  | nil => simp at hmem
  | plain hc _ ih =>
    rcases List.mem_cons.1 hmem with heq | hmem
    · exact absurd heq.symm hc
    · have hlt := ih hmem
      simp only [List.length_cons]
      omega
  | escape _ _ hrest _ =>
    have hle := hrest.length_le
    simp only [List.length_cons]
    omega

theorem unescapes_of_not_mem (h : ch '%' ∉ raw) : Unescapes raw out ↔ out = raw := by
  constructor
  · intro hun
    induction hun with
    | nil => rfl
    | plain hc _ ih => rw [ih fun hmem => h (List.mem_cons_of_mem _ hmem)]
    | escape _ _ _ _ => exact absurd List.mem_cons_self h
  · rintro rfl
    induction out with
    | nil => exact .nil
    | cons c out ih =>
      rw [List.mem_cons, not_or] at h
      exact .plain (Ne.symm h.1) (ih h.2)

theorem Unescapes.head? (h : Unescapes raw out) (hraw : raw.head? = some (ch '/')) :
    out.head? = some (ch '/') := by
  cases h with
  | nil => exact hraw
  | plain _ _ => exact hraw
  | escape _ _ _ =>
    rw [List.head?_cons, Option.some.injEq] at hraw
    exact absurd hraw (by decide)

theorem dropWhile_host {host : List UInt8} (hhost : ch '/' ∉ host)
    (hraw : raw.head? = some (ch '/')) : (host ++ raw).dropWhile (· != ch '/') = raw := by
  have hall : ∀ b ∈ host, (b != ch '/') = true := by
    intro b hb
    rw [bne_iff_ne]
    rintro rfl
    exact hhost hb
  rw [List.dropWhile_append_of_pos hall]
  rcases raw with _ | ⟨c, raw⟩
  · simp at hraw
  · rw [List.head?_cons, Option.some.injEq] at hraw
    rw [List.dropWhile_cons_of_neg]
    simp [hraw]

/-- A URI within the cap is read as the directory it reports, and as nothing else. -/
theorem parseOsc7_eq_some (hlen : p.length ≤ oscBufCap) : parseOsc7 p = some ev ↔
    ∃ path, ev = .cwd path ∧ SaysCwd (ascii "7;".toList ++ p) path := by
  constructor
  · intro h
    unfold parseOsc7 at h
    rw [if_neg (by omega)] at h
    simp only [Option.bind_eq_bind, Option.bind_eq_some_iff] at h
    obtain ⟨text, htext, rest, hrest, h⟩ := h
    obtain ⟨scheme, hscheme, rfl⟩ : ∃ scheme ∈ schemes, p = scheme ++ rest := by
      rcases hfile : (ascii "file://".toList).isPrefixOf? p with _ | r
      · rw [hfile] at hrest
        exact ⟨_, by simp [schemes], eq_append_of_isPrefixOf? hrest⟩
      · rw [hfile] at hrest
        obtain rfl : r = rest := by simpa using hrest
        exact ⟨_, by simp [schemes], eq_append_of_isPrefixOf? hfile⟩
    split_ifs at h with hraw
    simp only [percentDecode, Option.bind_eq_some_iff] at h
    obtain ⟨decoded, ⟨out, hout, hdecoded⟩, h⟩ := h
    split_ifs at h with hhead
    refine ⟨decoded, (Option.some.inj h).symm, scheme, hscheme, rest.takeWhile (· != ch '/'),
      rest.dropWhile (· != ch '/'), ?_, ?_, ?_, ?_, ?_⟩
    · rw [List.takeWhile_append_dropWhile]
    · intro hmem
      have hne := List.mem_takeWhile_imp hmem
      simp at hne
    · have hfirst := List.head?_dropWhile_not (· != ch '/') rest
      rcases hd : rest.dropWhile (· != ch '/') with _ | ⟨c, l⟩
      · exact absurd hd hraw
      · rw [hd] at hfirst
        simpa using hfirst
    · rw [List.takeWhile_append_dropWhile]
      exact Option.isSome_iff_exists.2 ⟨text, htext⟩
    · rw [Utf8.decode_eq_some.1 hdecoded]
      exact percentBytes_eq_some.1 hout
  · rintro ⟨path, rfl, scheme, hscheme, host, raw, heq, hhost, hraw, htext, hun⟩
    obtain rfl : p = scheme ++ (host ++ raw) := List.append_cancel_left heq
    obtain ⟨text, htext⟩ := Option.isSome_iff_exists.1 htext
    have hrest : ((ascii "file://".toList).isPrefixOf? (scheme ++ (host ++ raw)) <|>
        (ascii "kitty-shell-cwd://".toList).isPrefixOf? (scheme ++ (host ++ raw)))
          = some (host ++ raw) := by
      simp only [schemes, List.mem_cons, List.not_mem_nil, or_false] at hscheme
      rcases hscheme with rfl | rfl
      · rfl
      · rfl
    have hdrop := dropWhile_host hhost hraw
    have hne : raw ≠ [] := by
      rintro rfl
      simp at hraw
    have hdecoded : percentDecode raw = some path := by
      rw [percentDecode, percentBytes_eq_some.2 hun, Option.bind_some]
      exact Utf8.decode_eq_some.2 rfl
    have hhead : path.toList.head? = some '/' :=
      Utf8.head?_of_bytes (by decide) (hun.head? hraw)
    unfold parseOsc7
    rw [if_neg (by omega)]
    simp only [Option.bind_eq_bind, Option.bind_eq_some_iff]
    refine ⟨text, htext, host ++ raw, hrest, ?_⟩
    rw [hdrop, if_neg hne, hdecoded, Option.bind_some, if_pos hhead]

theorem parseOscPayload_7 (rest : List UInt8) :
    parseOscPayload (ascii "7;".toList ++ rest) = parseOsc7 rest := rfl

/-- A payload within the cap gives an event exactly if it reports something. -/
theorem parseOscPayload_isSome_iff (hlen : p.length ≤ oscBufCap) :
    (parseOscPayload p).isSome = true ↔ SaysCommand p ∨ ∃ path, SaysCwd p path := by
  constructor
  · intro h
    obtain ⟨ev, hev⟩ := Option.isSome_iff_exists.1 h
    unfold parseOscPayload at hev
    split at hev
    · rename_i rest hrest
      rcases rest with _ | ⟨letter, args⟩
      · simp [parse133] at hev
      · rw [parse133_cons] at hev
        exact .inl ⟨letter, (letterEvent_eq_some hev).1, args, eq_append_of_isPrefixOf? hrest⟩
    · split at hev
      · rename_i rest hrest
        obtain rfl := eq_append_of_isPrefixOf? hrest
        rw [List.length_append] at hlen
        obtain ⟨path, -, hpath⟩ := (parseOsc7_eq_some (by omega)).1 hev
        exact .inr ⟨path, hpath⟩
      · simp at hev
  · rintro (⟨letter, hletter, args, rfl⟩ | ⟨path, hpath⟩)
    · obtain ⟨ev, hev⟩ := letterEvent_of_mem hletter (parseExitCode args)
      rw [Option.isSome_iff_exists]
      exact ⟨ev, by rw [← hev]; exact parseOscPayload_133 (letter :: args)⟩
    · obtain ⟨scheme, hscheme, host, raw, rfl, hrest⟩ := hpath
      rw [List.length_append] at hlen
      rw [parseOscPayload_7, Option.isSome_iff_exists]
      exact ⟨.cwd path, (parseOsc7_eq_some (by omega)).2
        ⟨path, rfl, scheme, hscheme, host, raw, rfl, hrest⟩⟩

theorem saysCwd_of_parse (h : parseOscPayload p = some (.cwd path)) : SaysCwd p path := by
  unfold parseOscPayload at h
  split at h
  · rename_i rest hrest
    rcases rest with _ | ⟨letter, args⟩
    · simp [parse133] at h
    · rw [parse133_cons] at h
      exact absurd rfl ((letterEvent_eq_some h).2 path)
  · split at h
    · rename_i rest hrest
      obtain rfl := eq_append_of_isPrefixOf? hrest
      by_cases hlen : rest.length ≤ oscBufCap
      · obtain ⟨path', heq, hpath⟩ := (parseOsc7_eq_some hlen).1 h
        injection heq with heq
        rw [heq]
        exact hpath
      · rw [parseOsc7, if_pos (by omega)] at h
        simp at h
    · simp at h

/-- A directory is no longer than what reports it. -/
theorem SaysCwd.length_le (h : SaysCwd p path) : (Utf8.bytes path).length ≤ p.length := by
  obtain ⟨scheme, -, host, raw, rfl, -, -, -, hun⟩ := h
  have hle := hun.length_le
  simp only [List.length_append]
  omega

theorem hasMark_iff_holdsReport : HasMark w ↔ HoldsReport w := by
  constructor
  · rintro ⟨t, ⟨before, rfl⟩, p, after, rfl, hplain, hterm, hlen, hsome⟩
    exact ⟨before, p, after, rfl, hplain, hterm, hlen, (parseOscPayload_isSome_iff hlen).1 hsome⟩
  · rintro ⟨before, p, after, rfl, hplain, hterm, hlen, hreport⟩
    exact ⟨_, List.suffix_append _ _, p, after, rfl, hplain, hterm, hlen,
      (parseOscPayload_isSome_iff hlen).2 hreport⟩

/-! ## Where an event comes from -/

/-- A byte completes no event but that of the payload that is open. -/
theorem Pending.mem_step {r : OscParser} (h : r.Pending t) {b : UInt8} (hev : ev ∈ (r.step b).1) :
    ∃ q, (∀ b ∈ q, b ≠ esc ∧ b ≠ bel) ∧ esc :: ch ']' :: q <+: t ∧ parseOscPayload q = some ev := by
  cases h with
  | ground h =>
    by_cases hb : b = esc
    · rw [hb, step_ground_esc h] at hev
      simp at hev
    · rw [step_ground h hb] at hev
      simp at hev
  | escape h =>
    by_cases hb : b = ch ']'
    · rw [hb, step_escape_osc h] at hev
      simp at hev
    by_cases he : b = esc
    · rw [he, step_escape_esc h] at hev
      simp at hev
    · rw [step_escape h hb he] at hev
      simp at hev
  | @osc q h hq =>
    by_cases hb : b = bel
    · rw [hb, step_osc_bel h] at hev
      exact ⟨q, hq.1, List.prefix_rfl, hq.of_mem hev⟩
    by_cases he : b = esc
    · rw [he, step_osc_esc h] at hev
      simp at hev
    · rw [step_osc h hb he] at hev
      simp at hev
  | @oscEsc q k h hq =>
    have hfront : esc :: ch ']' :: q <+: esc :: ch ']' :: (q ++ List.replicate (k + 1) esc) :=
      ⟨List.replicate (k + 1) esc, rfl⟩
    by_cases hb : b = ch ']'
    · rw [hb, step_oscEsc_osc h] at hev
      exact ⟨q, hq.1, hfront, hq.of_mem hev⟩
    by_cases he : b = esc
    · rw [he, step_oscEsc_esc h] at hev
      simp at hev
    · rw [step_oscEsc h hb he] at hev
      exact ⟨q, hq.1, hfront, hq.of_mem hev⟩

/-- Every event is that of a payload in the text. -/
theorem Pending.mem_feed {r : OscParser} (h : r.Pending t) (hev : ev ∈ (r.feed w).1) :
    ∃ q, (∀ b ∈ q, b ≠ esc ∧ b ≠ bel) ∧ esc :: ch ']' :: q <:+: t ++ w ∧
      parseOscPayload q = some ev := by
  induction w generalizing r t with
  | nil => simp at hev
  | cons b w ih =>
    rw [feed_cons, List.mem_append] at hev
    rcases hev with hev | hev
    · obtain ⟨q, hq, hfront, hparse⟩ := h.mem_step hev
      exact ⟨q, hq, (hfront.trans (List.prefix_append t (b :: w))).isInfix, hparse⟩
    · obtain ⟨t', ht', ⟨u, hu⟩, -⟩ := h.step b
      obtain ⟨q, hq, hinfix, hparse⟩ := ih ht' hev
      refine ⟨q, hq, hinfix.trans ⟨u, [], ?_⟩, hparse⟩
      rw [List.append_nil, ← List.append_assoc, hu, List.append_assoc, List.singleton_append]

/-- An OSC that BEL closes, read from the ground. -/
theorem feed_ground_osc {r : OscParser} (hr : r.state = .ground)
    (hq : ∀ b ∈ q, b ≠ esc ∧ b ≠ bel) :
    (r.feed (osc q)).1 = if q.length ≤ oscBufCap then (parseOscPayload q).toList else [] := by
  rw [osc, feed_cons, step_ground_esc hr, feed_cons, step_escape_osc rfl, feed_append]
  by_cases hlen : q.length ≤ oscBufCap
  · rw [feed_payload hq (by simpa using hlen), feed_cons, step_osc_bel rfl, if_pos hlen]
    simp [finishOsc]
  · rw [feed_long_payload hq (by omega), feed_cons, step_osc_bel rfl, if_neg hlen]
    simp [finishOsc]

end OscParser

/-! ## What the hooks print -/

/-- What a hook prints between `ESC ]` and BEL. -/
def osc7Payload (host : HostName) (dir : DirPath) : List UInt8 :=
  ascii "7;file://".toList ++ host.bytes ++ dir.bytes

/-- A directory that is not to be reported: its name is no text, or the payload too long. -/
def Unreported (host : HostName) (dir : DirPath) : Prop :=
  Utf8.decode dir.bytes = none ∨ oscBufCap < (osc7Payload host dir).length

/-- The directory is reported as it is, once, or is not to be reported and nothing is. -/
def ReportsDir (host : HostName) (dir : DirPath) (events : List OscEvent) : Prop :=
  (∃ path, Utf8.bytes path = dir.bytes ∧ events = [.cwd path]) ∨
    (Unreported host dir ∧ events = [])

/-- No byte of the directory's name ends the payload. -/
def DirPath.Plain (dir : DirPath) : Prop := ∀ b ∈ dir.bytes, b ≠ esc ∧ b ≠ bel

/-- The directory's name means nothing else to the tokenizer or to the decoder. -/
structure MeansItself (host : HostName) (dir : DirPath) : Prop where
  plain : dir.Plain
  host_utf8 : (Utf8.decode host.bytes).isSome = true
  no_percent : ch '%' ∉ dir.bytes

variable {host : HostName} {dir : DirPath} {path : String}

theorem dirPath_head (dir : DirPath) : ∃ tail, dir.bytes = ch '/' :: tail := by
  unfold DirPath.bytes
  rcases dir.components with _ | ⟨c, cs⟩
  · exact ⟨[], rfl⟩
  · exact ⟨c ++ cs.flatMap fun c => ch '/' :: c, rfl⟩

theorem host_plain (host : HostName) : ∀ b ∈ host.bytes, b ≠ esc ∧ b ≠ bel := by
  intro b hb
  have hcontrol := (host.no_control b hb).1
  constructor
  · rintro rfl
    revert hcontrol
    decide
  · rintro rfl
    revert hcontrol
    decide

theorem payload_plain (h : dir.Plain) : ∀ b ∈ osc7Payload host dir, b ≠ esc ∧ b ≠ bel := by
  intro b hb
  rw [osc7Payload, List.mem_append, List.mem_append] at hb
  rcases hb with (hb | hb) | hb
  · exact plain_of_all (l := ascii "7;file://".toList) (by decide) b hb
  · exact host_plain host b hb
  · exact h b hb

/-- Two URIs that are the same have the same host and path. -/
theorem uri_inj {host host' raw raw' : List UInt8} (hhost : ch '/' ∉ host) (hhost' : ch '/' ∉ host')
    (hraw : raw.head? = some (ch '/')) (hraw' : raw'.head? = some (ch '/'))
    (h : host ++ raw = host' ++ raw') : host = host' ∧ raw = raw' := by
  have hrest : raw = raw' := by
    rw [← dropWhile_host hhost hraw, h, dropWhile_host hhost' hraw']
  rw [hrest] at h
  exact ⟨List.append_cancel_right h, hrest⟩

/-- The payload reports what its path decodes to, if it is text. -/
theorem saysCwd_payload : SaysCwd (osc7Payload host dir) path ↔
    (Utf8.decode host.bytes).isSome = true ∧ (Utf8.decode dir.bytes).isSome = true ∧
      Unescapes dir.bytes (Utf8.bytes path) := by
  obtain ⟨tail, htail⟩ := dirPath_head dir
  have hdir : dir.bytes.head? = some (ch '/') := by rw [htail, List.head?_cons]
  have hpayload : osc7Payload host dir = ascii "7;".toList ++ (ascii "file://".toList ++
      (host.bytes ++ dir.bytes)) := by
    rw [osc7Payload, List.append_assoc]
    rfl
  have htext : (Utf8.decode (ascii "file://".toList ++ (host.bytes ++ dir.bytes))).isSome = true ↔
      (Utf8.decode host.bytes).isSome = true ∧ (Utf8.decode dir.bytes).isSome = true := by
    rw [Utf8.isSome_decode_ascii_append (by decide +kernel), htail,
      Utf8.isSome_decode_append (by decide)]
  rw [hpayload]
  constructor
  · rintro ⟨scheme, hscheme, host', raw, heq, hhost', hraw, hutf8, hun⟩
    have heq := List.append_cancel_left heq
    simp only [schemes, List.mem_cons, List.not_mem_nil, or_false] at hscheme
    rcases hscheme with rfl | rfl
    · obtain ⟨rfl, rfl⟩ := uri_inj host.no_slash hhost' hdir hraw (List.append_cancel_left heq)
      exact ⟨(htext.1 hutf8).1, (htext.1 hutf8).2, hun⟩
    · simp [ascii, ch] at heq
  · rintro ⟨hhost, hutf8, hun⟩
    exact ⟨_, by simp [schemes], host.bytes, dir.bytes, rfl, host.no_slash, hdir,
      htext.2 ⟨hhost, hutf8⟩, hun⟩

theorem parse_payload {ev : OscEvent} (hlen : (osc7Payload host dir).length ≤ oscBufCap) :
    parseOscPayload (osc7Payload host dir) = some ev ↔
      ∃ path, ev = .cwd path ∧ SaysCwd (osc7Payload host dir) path := by
  have hpayload : osc7Payload host dir = ascii "7;".toList ++ (ascii "file://".toList ++
      (host.bytes ++ dir.bytes)) := by
    rw [osc7Payload, List.append_assoc]
    rfl
  rw [hpayload] at hlen ⊢
  rw [List.length_append] at hlen
  rw [parseOscPayload_7, parseOsc7_eq_some (by omega)]

section Hook

variable {r : OscParser} (hr : r.state = .ground)
include hr

/-- A name that ends no payload is decoded whole. -/
theorem reportsDir_of_plain (h : dir.Plain) :
    ReportsDir host dir (r.feed (bpaOsc7 host.bytes dir.bytes)).1 ↔
      Unreported host dir ∨ (Utf8.decode host.bytes).isSome = true ∧ ch '%' ∉ dir.bytes := by
  have hplain : ∀ b ∈ osc7Payload host dir, b ≠ esc ∧ b ≠ bel := payload_plain h
  have hfeed := feed_ground_osc hr hplain
  change ReportsDir host dir (r.feed (OscParser.osc (osc7Payload host dir))).1 ↔ _
  rw [hfeed]
  by_cases hlen : (osc7Payload host dir).length ≤ oscBufCap
  · rw [if_pos hlen]
    rcases hparse : parseOscPayload (osc7Payload host dir) with _ | ev
    · constructor
      · rintro (⟨path, -, hevents⟩ | ⟨hun, -⟩)
        · simp at hevents
        · exact .inl hun
      · rintro (hun | ⟨hhost, hpercent⟩)
        · exact .inr ⟨hun, rfl⟩
        · refine .inr ⟨.inl ?_, rfl⟩
          rw [Option.eq_none_iff_forall_ne_some]
          intro text htext
          have hread : SaysCwd (osc7Payload host dir) text :=
            saysCwd_payload.2 ⟨hhost, Option.isSome_iff_exists.2 ⟨text, htext⟩,
              (unescapes_of_not_mem hpercent).2 (Utf8.decode_eq_some.1 htext)⟩
          have hsome := (parse_payload hlen).2 ⟨text, rfl, hread⟩
          rw [hparse] at hsome
          simp at hsome
    · obtain ⟨path, rfl, hread⟩ := (parse_payload hlen).1 hparse
      obtain ⟨hhost, hutf8, hun⟩ := saysCwd_payload.1 hread
      have hreported : ¬Unreported host dir := by
        rintro (hnone | hlong)
        · rw [hnone] at hutf8
          simp at hutf8
        · omega
      constructor
      · rintro (⟨path', hbytes, hevents⟩ | ⟨-, hevents⟩)
        · refine .inr ⟨hhost, fun hmem => ?_⟩
          simp only [Option.toList_some, List.cons.injEq, OscEvent.cwd.injEq] at hevents
          have hlt := hun.length_lt hmem
          rw [hevents.1, hbytes] at hlt
          omega
        · simp at hevents
      · rintro (hnot | ⟨-, hpercent⟩)
        · exact absurd hnot hreported
        · exact .inl ⟨path, (unescapes_of_not_mem hpercent).1 hun, rfl⟩
  · rw [if_neg hlen]
    have hun : Unreported host dir := .inr (by omega)
    exact iff_of_true (.inr ⟨hun, rfl⟩) (.inl hun)

omit hr in
/-- The first byte of a name that ends a payload. -/
theorem exists_ending {l : List UInt8} (h : ¬∀ b ∈ l, b ≠ esc ∧ b ≠ bel) :
    ∃ a x rest, l = a ++ x :: rest ∧ (∀ b ∈ a, b ≠ esc ∧ b ≠ bel) ∧ (x = esc ∨ x = bel) := by
  induction l with
  | nil => exact absurd (fun b hb => absurd hb List.not_mem_nil) h
  | cons c l ih =>
    by_cases hc : c ≠ esc ∧ c ≠ bel
    · have hl : ¬∀ b ∈ l, b ≠ esc ∧ b ≠ bel := by
        intro hl
        refine h fun b hb => ?_
        rcases List.mem_cons.1 hb with rfl | hb
        · exact hc
        · exact hl b hb
      obtain ⟨a, x, rest, rfl, ha, hx⟩ := ih hl
      refine ⟨c :: a, x, rest, rfl, fun b hb => ?_, hx⟩
      rcases List.mem_cons.1 hb with rfl | hb
      · exact hc
      · exact ha b hb
    · exact ⟨[], c, l, rfl, by simp, by tauto⟩

omit hr in
/-- The start of a hook's payload reports no more than the start of the directory. -/
theorem length_le_of_prefix {q a : List UInt8} (ha : a.head? = some (ch '/'))
    (hq : q <+: ascii "7;file://".toList ++ host.bytes ++ a) (hread : SaysCwd q path) :
    (Utf8.bytes path).length ≤ a.length := by
  obtain ⟨scheme, hscheme, host', raw, rfl, hhost', hraw, -, hun⟩ := hread
  obtain ⟨rest, hrest⟩ := hq
  have heq : scheme ++ (host' ++ (raw ++ rest)) = ascii "file://".toList ++ (host.bytes ++ a) := by
    have hcut : ascii "7;".toList ++ (scheme ++ (host' ++ (raw ++ rest)))
        = ascii "7;".toList ++ (ascii "file://".toList ++ (host.bytes ++ a)) := by
      simp only [List.append_assoc] at hrest
      rw [hrest]
      rfl
    exact List.append_cancel_left hcut
  simp only [schemes, List.mem_cons, List.not_mem_nil, or_false] at hscheme
  rcases hscheme with rfl | rfl
  · have hraw' : (raw ++ rest).head? = some (ch '/') := by
      rw [List.head?_append, hraw]
      rfl
    obtain ⟨-, rfl⟩ := uri_inj hhost' host.no_slash hraw' ha (List.append_cancel_left heq)
    have hle := hun.length_le
    rw [List.length_append]
    omega
  · simp [ascii, ch] at heq

/-- A name that ends its payload is not reported: what is reported is shorter. -/
theorem length_lt_of_not_plain (h : ¬dir.Plain)
    (hev : .cwd path ∈ (r.feed (bpaOsc7 host.bytes dir.bytes)).1) :
    (Utf8.bytes path).length < dir.bytes.length := by
  obtain ⟨a, x, rest, hdir, ha, hx⟩ := exists_ending h
  obtain ⟨tail, htail⟩ := dirPath_head dir
  have hhead : a.head? = some (ch '/') := by
    rcases a with _ | ⟨c, a⟩
    · rw [hdir, List.nil_append, List.cons.injEq] at htail
      rcases hx with rfl | rfl
      · exact absurd htail.1 (by decide)
      · exact absurd htail.1 (by decide)
    · rw [hdir, List.cons_append, List.cons.injEq] at htail
      rw [htail.1, List.head?_cons]
  obtain ⟨q, hq, ⟨u, v, huv⟩, hparse⟩ := (Pending.ground hr).mem_feed hev
  have hread := saysCwd_of_parse hparse
  have hstart : ∀ b ∈ ascii "7;file://".toList ++ host.bytes ++ a, b ≠ esc ∧ b ≠ bel := by
    intro b hb
    rw [List.mem_append, List.mem_append] at hb
    rcases hb with (hb | hb) | hb
    · exact plain_of_all (l := ascii "7;file://".toList) (by decide) b hb
    · exact host_plain host b hb
    · exact ha b hb
  have hend : (x :: (rest ++ [bel])).head? = some bel ∨ (x :: (rest ++ [bel])).head? = some esc := by
    rcases hx with rfl | rfl
    · exact .inr rfl
    · exact .inl rfl
  have hprinted : u ++ (esc :: ch ']' :: (q ++ v))
      = esc :: ch ']' :: (ascii "7;file://".toList ++ host.bytes ++ a ++ x :: (rest ++ [bel])) := by
    rw [List.append_assoc] at huv
    rw [show esc :: ch ']' :: (q ++ v) = esc :: ch ']' :: q ++ v from rfl, huv, bpaOsc7, osc, hdir]
    simp only [List.nil_append, List.append_assoc, List.cons_append]
  have hlen : dir.bytes.length = a.length + (rest.length + 1) := by
    rw [hdir, List.length_append, List.length_cons]
  rcases u with _ | ⟨c, u⟩
  · -- the payload begins where the hook's does, and ends before its first ESC or BEL
    rw [List.nil_append, List.cons.injEq, List.cons.injEq] at hprinted
    have hle := payload_length_le hq hend hprinted.2.2.symm
    have hfront := List.prefix_of_prefix_length_le ⟨v, hprinted.2.2⟩ (List.prefix_append _ _) hle
    have hshort := length_le_of_prefix hhead hfront hread
    omega
  · -- it begins within the directory's name
    rw [List.cons_append, List.cons.injEq] at hprinted
    have hplain : ∀ b ∈ ch ']' :: (ascii "7;file://".toList ++ host.bytes ++ a),
        b ≠ esc ∧ b ≠ bel := by
      intro b hb
      rcases List.mem_cons.1 hb with rfl | hb
      · decide
      · exact hstart b hb
    have hle := payload_length_le hplain (.inr rfl) hprinted.2
    have htotal := congrArg List.length hprinted.2
    have hshort := hread.length_le
    simp only [List.length_append, List.length_cons, List.length_nil] at hle htotal
    omega

/-- A directory is reported as it is exactly if its name means itself, or is not to be reported and
no part of what is printed reports anything. -/
theorem bpaOsc7_reports_iff (host : HostName) (dir : DirPath) :
    ReportsDir host dir (r.feed (bpaOsc7 host.bytes dir.bytes)).1 ↔
      MeansItself host dir ∨ Unreported host dir ∧
        (dir.Plain ∨ ¬HoldsReport (bpaOsc7 host.bytes dir.bytes)) := by
  by_cases h : dir.Plain
  · rw [reportsDir_of_plain hr h]
    constructor
    · rintro (hun | ⟨hhost, hpercent⟩)
      · exact .inr ⟨hun, .inl h⟩
      · exact .inl ⟨h, hhost, hpercent⟩
    · rintro (⟨-, hhost, hpercent⟩ | ⟨hun, -⟩)
      · exact .inr ⟨hhost, hpercent⟩
      · exact .inl hun
  · have hsilent : (r.feed (bpaOsc7 host.bytes dir.bytes)).1 = [] ↔
        ¬HoldsReport (bpaOsc7 host.bytes dir.bytes) := by
      rw [← hasMark_iff_holdsReport]
      exact Pending.feed (.ground hr) _
    constructor
    · rintro (⟨path, hbytes, hevents⟩ | ⟨hun, hevents⟩)
      · have hlt := length_lt_of_not_plain hr h
          (show OscEvent.cwd path ∈ _ by rw [hevents]; exact List.mem_singleton_self _)
        rw [hbytes] at hlt
        omega
      · exact .inr ⟨hun, .inr (hsilent.1 hevents)⟩
    · rintro (hmeans | ⟨hun, hplain | hnone⟩)
      · exact absurd hmeans.plain h
      · exact absurd hplain h
      · exact .inr ⟨hun, hsilent.2 hnone⟩

end Hook

def localHost : HostName := ⟨ascii "mac".toList, by decide, by decide, by decide +kernel⟩

def tmpDir : DirPath := ⟨[ascii "tmp".toList], by decide, by decide, by decide⟩

theorem reports_tmpDir :
    ReportsDir localHost tmpDir (OscParser.new.feed (bpaOsc7 localHost.bytes tmpDir.bytes)).1 ↔
      MeansItself localHost tmpDir ∨ Unreported localHost tmpDir ∧
        (tmpDir.Plain ∨ ¬HoldsReport (bpaOsc7 localHost.bytes tmpDir.bytes)) :=
  bpaOsc7_reports_iff rfl localHost tmpDir

/-- A directory whose name has a percent sign and two digits in it. -/
def percentDir : DirPath := ⟨[ascii "50%41".toList], by decide, by decide, by decide⟩

/-- It is reported as another. -/
theorem percentDir_misreported :
    (OscParser.new.feed (bpaOsc7 localHost.bytes percentDir.bytes)).1 = [.cwd "/50A"] ∧
      ¬ReportsDir localHost percentDir
        (OscParser.new.feed (bpaOsc7 localHost.bytes percentDir.bytes)).1 := by
  have hevents : (OscParser.new.feed (bpaOsc7 localHost.bytes percentDir.bytes)).1
      = [.cwd "/50A"] := by
    decide +kernel
  refine ⟨hevents, ?_⟩
  rw [hevents]
  rintro (⟨path, hbytes, hpath⟩ | ⟨-, hnone⟩)
  · simp only [List.cons.injEq, OscEvent.cwd.injEq, and_true] at hpath
    have hlen := congrArg List.length hbytes
    rw [← hpath] at hlen
    revert hlen
    decide +kernel
  · simp at hnone

end BuilderPro
