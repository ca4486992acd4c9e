import BuilderPro.Orchd.Calls

/-!
# Artifacts

`persistence.rs`: what a call has brought is kept with the attempt that brought it, cut to a size
that fits in a frame.
-/

namespace BuilderPro

/-- The longest run of characters a text of a budget of bytes holds. -/
def charPrefix : ℕ → List Char → List Char
  | _, [] => []
  | budget, c :: cs =>
    if c.utf8Size ≤ budget then c :: charPrefix (budget - c.utf8Size) cs else []

theorem utf8ByteSize_charPrefix (budget : ℕ) (cs : List Char) :
    (String.ofList (charPrefix budget cs)).utf8ByteSize ≤ budget := by
  induction cs generalizing budget with
  | nil => exact Nat.zero_le _
  | cons c cs ih =>
    unfold charPrefix
    split_ifs with h
    · have := ih (budget - c.utf8Size)
      rw [← List.singleton_append, String.ofList_append, String.utf8ByteSize_append,
        show String.ofList [c] = String.singleton c from rfl, String.utf8ByteSize_singleton]
      omega
    · exact Nat.zero_le _

/-- `truncate_to_budget`: the text that is left, and whether anything has been cut. -/
def truncateToBudget (content : String) (budget : ℕ) : String × Bool :=
  if content.utf8ByteSize ≤ budget then (content, false)
  else (String.ofList (charPrefix budget content.toList), true)

theorem utf8ByteSize_truncateToBudget (content : String) (budget : ℕ) :
    (truncateToBudget content budget).1.utf8ByteSize ≤ budget := by
  unfold truncateToBudget
  split_ifs with h
  · exact h
  · exact utf8ByteSize_charPrefix budget _

/-- `ARTIFACT_CONTENT_CAP`. -/
def artifactContentCap : ℕ := 15 * 1024 * 1024

/-- The content of an artifact as it is stored. -/
structure ArtifactContent where
  contentJson : String
  contentText : Option String
  truncated : Bool
  fits : contentJson.utf8ByteSize + (contentText.elim 0 String.utf8ByteSize) ≤ artifactContentCap
  deriving DecidableEq

/-- What `insert_artifact` stores of a content: the structured part comes first. -/
def ArtifactContent.fit (contentJson : String) (contentText : Option String) : ArtifactContent :=
  let json := truncateToBudget contentJson artifactContentCap
  let text := contentText.map fun t =>
    truncateToBudget t (artifactContentCap - json.1.utf8ByteSize)
  { contentJson := json.1
    contentText := text.map Prod.fst
    truncated := json.2 || text.any Prod.snd
    fits := by
      have hjson : json.1.utf8ByteSize ≤ artifactContentCap :=
        utf8ByteSize_truncateToBudget contentJson artifactContentCap
      rcases contentText with _ | t
      · exact hjson
      · have htext := utf8ByteSize_truncateToBudget t (artifactContentCap - json.1.utf8ByteSize)
        show json.1.utf8ByteSize + _ ≤ _
        simp only [text, Option.map_some, Option.elim_some]
        omega }

/-- A `mcp_artifact` row. No step reads `run`. -/
structure McpArtifact extends ArtifactContent where
  id : String
  invocationId : String
  serverId : Option String
  accountId : Option String
  toolName : String
  projectId : Option String
  isUntrusted : Bool
  createdAt : ℤ
  /-- The run whose call has brought it. -/
  run : Option String
  deriving DecidableEq

/-- The run a job drives. -/
def Job.runId? : Job → Option String
  | .research runId _ => some runId
  | _ => none

/-- The artifact of an attempt. -/
def McpInvocation.artifact (x : McpInvocation) (id : String) (content : ArtifactContent)
    (run : Option String) (now : ℤ) : McpArtifact :=
  ⟨content, id, x.id, x.serverId, x.accountId, x.toolName, x.projectId, true, now, run⟩

/-- Whether the rows an artifact refers to are there. -/
def McpArtifact.rooted (e : ExtStore) (x : McpArtifact) : Bool :=
  (e.invocations.lookup x.invocationId).isSome
    && (x.serverId.all fun id => (e.servers.lookup id).isSome)
    && x.accountId.all fun id => (e.accounts.lookup id).isSome

/-- `insert_artifact`, with the table's check and its foreign keys. -/
def insertArtifact (e : ExtStore) (t : KeyedTable McpArtifact.id) (x : McpArtifact) :
    Except OrchdPersistError (KeyedTable McpArtifact.id) :=
  if x.serverId.isSome = x.accountId.isSome then .error (.sql "CHECK constraint failed")
  else if !x.rooted e then .error (.sql "FOREIGN KEY constraint failed")
  else match t.insert x with
    | some t => .ok t
    | none => .error (.sql "UNIQUE constraint failed: mcp_artifact.id")

theorem insertArtifact_eq_ok {e : ExtStore} {t t' : KeyedTable McpArtifact.id} {x : McpArtifact}
    (h : insertArtifact e t x = .ok t') : x.rooted e = true ∧ t.insert x = some t' := by
  unfold insertArtifact at h
  split_ifs at h with _ hrooted
  split at h
  · rename_i u hu
    cases h
    exact ⟨by simpa using hrooted, hu⟩
  · cases h

end BuilderPro
