import BuilderPro.Lib.KeyedTable
import BuilderPro.Lib.Tally
import BuilderPro.Sessiond.OscParser
import Mathlib

/-!
# The usage scan

`stats.rs`: token usage read off the session logs, one JSON object a line.  A file is parsed anew
when its modification time or size has changed since its row in the cache was made; the rows are
folded by day and working directory, and once more by model family.  Token sums are natural numbers,
and the dollar amounts are left out.
-/

namespace BuilderPro

/-! ## A line -/

/-- `serde_json::Value`; of a number, whether it is a `u64`. -/
inductive Json
  | null
  | bool (b : Bool)
  | number (asU64 : Option ℕ)
  | string (s : String)
  | array (items : List Json)
  | object (fields : List (String × Json))

namespace Json

def get (v : Json) (k : String) : Option Json :=
  match v with
  | object fields => fields.lookup k
  | _ => none

def asU64 : Json → Option ℕ
  | number n => n
  | _ => none

def asStr : Json → Option String
  | string s => some s
  | _ => none

end Json

/-- `[input, output, cache_write, cache_read]`. -/
abbrev Tokens := Fin 4 → ℕ

def modelFamily (model : String) : String :=
  ((["opus", "sonnet", "haiku", "fable"].find? fun fam =>
    decide (fam.toList <:+: model.toLower.toList))).getD "other"

/-- The families of `PRICING`. -/
def pricedFamilies : List String := ["opus", "sonnet", "haiku"]

/-- What a line has to count. -/
structure UsageEntry where
  timestamp : String
  cwd : String
  family : String
  tokens : Tokens

def usageEntry (v : Json) : Option UsageEntry := do
  let usage ← (v.get "message").bind (·.get "usage")
  let out ← (usage.get "output_tokens").bind Json.asU64
  let g := fun k => ((usage.get k).bind Json.asU64).getD 0
  let ts := ((v.get "timestamp").bind Json.asStr).getD ""
  if ts.utf8ByteSize < 10 then none
  else
    let cwd := ((v.get "cwd").bind Json.asStr).getD ""
    let model := (((v.get "message").bind (·.get "model")).bind Json.asStr).getD ""
    some ⟨ts, cwd, modelFamily model,
      ![g "input_tokens", out, g "cache_creation_input_tokens", g "cache_read_input_tokens"]⟩

/-- The first `n` bytes, unless they end within a character. -/
def bytePrefix : ℕ → List Char → Option (List Char)
  | 0, _ => some []
  | _ + 1, [] => none
  | n + 1, c :: cs =>
    if c.utf8Size ≤ n + 1 then (bytePrefix (n + 1 - c.utf8Size) cs).map (c :: ·) else none

/-- `ts[..10]`; `none` is its panic. -/
def UsageEntry.day (e : UsageEntry) : Option String :=
  (bytePrefix 10 e.timestamp.toList).map String.ofList

/-! ## A file -/

def stripCr (line : List UInt8) : List UInt8 :=
  if line.getLast? = some (ch '\r') then line.dropLast else line

/-- The lines of `BufRead::lines`, `line` read so far of the first. -/
def bufLines (line : List UInt8) : List UInt8 → List (List UInt8)
  | [] => if line = [] then [] else [line]
  | b :: bs =>
    if b = ch '\n' then stripCr line :: bufLines [] bs else bufLines (line ++ [b]) bs

/-- Day, working directory, family. -/
abbrev UsageKey := String ×ₗ String ×ₗ String

def usageKey (day cwd family : String) : UsageKey := toLex (day, toLex (cwd, family))

abbrev UsageDays := Tally UsageKey Tokens

section Parse

variable (fromStr : String → Option Json)

/-- The loop of `parse_session_file`; `none` is a panic. -/
def parseLines (buckets : UsageDays) : List (List UInt8) → Option UsageDays
  | [] => some buckets
  | line :: lines =>
    match OscParser.fromUtf8 line with
    | none => some buckets
    | some line =>
      match (fromStr line).bind usageEntry with
      | none => parseLines buckets lines
      | some e =>
        match e.day with
        | none => none
        | some day => parseLines (buckets.add (usageKey day e.cwd e.family) e.tokens) lines

/-- `parse_session_file`, of a file's bytes if it can be opened. -/
def parseSessionFile : Option (List UInt8) → Option UsageDays
  | none => some .empty
  | some bytes => parseLines fromStr .empty (bufLines [] bytes)

end Parse

/-! ## The days of a range -/

def padZeros (width : ℕ) (n : ℕ) : String :=
  String.ofList (List.replicate (width - (toString n).length) '0') ++ toString n

/-- `{:0width}` of an integer: the sign counts. -/
def padInt (width : ℕ) (n : ℤ) : String :=
  if n < 0 then "-" ++ padZeros (width - 1) n.natAbs else padZeros width n.natAbs

def dayFromUnix (secs : ℤ) : String :=
  let z := secs / 86400 + 719468
  let era := z / 146097
  let doe := z % 146097
  let yoe := (doe - doe / 1460 + doe / 36524 - doe / 146096) / 365
  let y := yoe + era * 400
  let doy := doe - (365 * yoe + yoe / 4 - yoe / 100)
  let mp := (5 * doy + 2) / 153
  let d := doy - (153 * mp + 2) / 5 + 1
  let m := if mp < 10 then mp + 3 else mp - 9
  let y := if m ≤ 2 then y + 1 else y
  padInt 4 y ++ "-" ++ padInt 2 m ++ "-" ++ padInt 2 d

def rangeCutoffDay (range : String) (nowMs : ℤ) : Option String :=
  if range = "7d" then some (dayFromUnix (nowMs.tdiv 1000 - 7 * 86400))
  else if range = "30d" then some (dayFromUnix (nowMs.tdiv 1000 - 30 * 86400))
  else none

def inRange (cutoff : Option String) (day : String) : Bool :=
  cutoff.all fun c => !decide (day < c)

/-! ## The cache -/

structure Fingerprint where
  mtimeMs : ℤ
  size : ℕ
  deriving DecidableEq, Repr

/-- A file's `FileAgg`, under its key. -/
structure FileRow where
  path : String
  stamp : Fingerprint
  days : UsageDays

abbrev CacheFiles := KeyedTable FileRow.path

structure ScanCache where
  version : ℕ
  files : CacheFiles

def cacheVersion : ℕ := 1

/-- `load_cache`, of what the cache file holds if it can be read as a cache. -/
def loadCache : Option ScanCache → ScanCache
  | some c => if c.version = cacheVersion then c else ⟨cacheVersion, .empty⟩
  | none => ⟨cacheVersion, .empty⟩

/-! ## The scan -/

/-- A directory entry: its path with invalid UTF-8 replaced, and what can be read of it. -/
structure DirEntry where
  path : String
  extension : Option String
  stamp : Option Fingerprint
  contents : Option (List UInt8)

structure ProjectDir where
  isDir : Bool
  entries : Option (List DirEntry)

structure SessionFile where
  path : String
  stamp : Fingerprint
  contents : Option (List UInt8)

/-- The `*.jsonl` files whose metadata can be read. -/
def sessionFiles (dirs : List ProjectDir) : List SessionFile :=
  (dirs.filter (·.isDir)).flatMap fun dir =>
    ((dir.entries.getD []).filter fun f => f.extension == some "jsonl").filterMap fun f =>
      f.stamp.map fun stamp => ⟨f.path, stamp, f.contents⟩

structure DayUsage where
  day : String
  cwd : String
  tokensIn : ℕ
  tokensOut : ℕ
  cacheWrite : ℕ
  cacheRead : ℕ
  /-- `est_cost_usd` is present. -/
  priced : Bool
  costComplete : Bool
  sessions : ℕ
  deriving DecidableEq, Repr

structure FamilyUsage where
  family : String
  tokensIn : ℕ
  tokensOut : ℕ
  cacheWrite : ℕ
  cacheRead : ℕ
  priced : Bool
  sessions : ℕ
  deriving DecidableEq, Repr

structure ScanOutcome where
  days : List DayUsage
  /-- By name; their order by cost is left out. -/
  families : List FamilyUsage
  parsedFiles : ℕ
  deriving DecidableEq, Repr

structure ScanLoop where
  files : CacheFiles
  seen : List String
  parsedFiles : ℕ

section Scan

variable (fromStr : String → Option Json)

/-- The scan's work on a file; `none` is a panic. -/
def scanFile (st : ScanLoop) (f : SessionFile) : Option ScanLoop :=
  let seen := f.path :: st.seen
  if (st.files.lookup f.path).any fun c => c.stamp == f.stamp then some { st with seen }
  else
    (parseSessionFile fromStr f.contents).map fun days =>
      { files := st.files.upsert ⟨f.path, f.stamp, days⟩, seen, parsedFiles := st.parsedFiles + 1 }

def scanFiles (st : ScanLoop) : List SessionFile → Option ScanLoop
  | [] => some st
  | f :: fs => (scanFile fromStr st f).bind fun st => scanFiles st fs

end Scan

/-- A day's or a family's sums so far. -/
@[ext] structure Bucket where
  t : Tokens
  pricedAny : Bool
  unpricedAny : Bool
  sessions : ℕ

namespace Bucket

instance : Zero Bucket := ⟨⟨0, false, false, 0⟩⟩

instance : Add Bucket :=
  ⟨fun a b => ⟨a.t + b.t, a.pricedAny || b.pricedAny, a.unpricedAny || b.unpricedAny,
    a.sessions + b.sessions⟩⟩

instance : AddCommMonoid Bucket where
  add_assoc _ _ _ := Bucket.ext (add_assoc _ _ _) (Bool.or_assoc _ _ _) (Bool.or_assoc _ _ _)
    (Nat.add_assoc _ _ _)
  zero_add _ := Bucket.ext (zero_add _) (Bool.false_or _) (Bool.false_or _) (Nat.zero_add _)
  add_zero _ := Bucket.ext (add_zero _) (Bool.or_false _) (Bool.or_false _) rfl
  add_comm _ _ := Bucket.ext (add_comm _ _) (Bool.or_comm _ _) (Bool.or_comm _ _)
    (Nat.add_comm _ _)
  nsmul := nsmulRec
  nsmul_zero _ := rfl
  nsmul_succ _ _ := rfl

/-- What a file's sum for a family adds. -/
def ofSum (family : String) (t : Tokens) : Bucket :=
  ⟨t, pricedFamilies.contains family, !pricedFamilies.contains family, 0⟩

/-- What a file that touches the bucket adds. -/
def oneSession : Bucket := ⟨0, false, false, 1⟩

end Bucket

section Fold

variable {κ : Type*} [LinearOrder κ] (key : UsageKey → κ) (cutoff : Option String)

/-- A file's sums in range. -/
def keptDays (row : FileRow) : List (UsageKey × Tokens) :=
  row.days.rows.filter fun x => inRange cutoff (ofLex x.1).1

/-- A file's sums, each into its bucket, and then one session into each bucket touched. -/
def foldRow (buckets : Tally κ Bucket) (row : FileRow) : Tally κ Bucket :=
  let kept := keptDays cutoff row
  let touched := (kept.map fun x => key x.1).dedup
  let buckets := buckets.addAll (kept.map fun x =>
    (key x.1, Bucket.ofSum (ofLex (ofLex x.1).2).2 x.2))
  buckets.addAll (touched.map fun k => (k, Bucket.oneSession))

def foldRows (files : CacheFiles) : Tally κ Bucket :=
  files.rows.foldl (foldRow key cutoff) .empty

end Fold

def dayKey (k : UsageKey) : String ×ₗ String := toLex ((ofLex k).1, (ofLex (ofLex k).2).1)

def familyKey (k : UsageKey) : String := (ofLex (ofLex k).2).2

def dayUsage (x : (String ×ₗ String) × Bucket) : DayUsage where
  day := (ofLex x.1).1
  cwd := (ofLex x.1).2
  tokensIn := x.2.t 0
  tokensOut := x.2.t 1
  cacheWrite := x.2.t 2
  cacheRead := x.2.t 3
  priced := x.2.pricedAny
  costComplete := !x.2.unpricedAny
  sessions := x.2.sessions

def familyUsage (x : String × Bucket) : FamilyUsage where
  family := x.1
  tokensIn := x.2.t 0
  tokensOut := x.2.t 1
  cacheWrite := x.2.t 2
  cacheRead := x.2.t 3
  priced := x.2.pricedAny
  sessions := x.2.sessions

/-- The outcome and the cache to save, or an error. -/
abbrev ScanResult := Except String (ScanOutcome × ScanCache)

/-- `scan_usage`, of what reading `projects_dir` gives; `none` is a panic. -/
def scanUsage (fromStr : String → Option Json) (projectsDir : String)
    (projects : Except String (List ProjectDir)) (stored : Option ScanCache) (range : String)
    (nowMs : ℤ) : Option ScanResult :=
  match projects with
  | .error e => some (.error ("cannot read " ++ projectsDir ++ ": " ++ e))
  | .ok dirs => do
    let cache := loadCache stored
    let st ← scanFiles fromStr ⟨cache.files, [], 0⟩ (sessionFiles dirs)
    let files := st.files.keep fun row => st.seen.contains row.path
    let cutoff := rangeCutoffDay range nowMs
    some (.ok (⟨(foldRows dayKey cutoff files).rows.map dayUsage,
      (foldRows familyKey cutoff files).rows.map familyUsage, st.parsedFiles⟩,
      ⟨cache.version, files⟩))

end BuilderPro
