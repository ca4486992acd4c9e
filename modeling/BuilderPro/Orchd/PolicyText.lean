import BuilderPro.Lib.Json
import BuilderPro.Orchd.Requests

/-!
# Policies as they are stored

A ruleset's policy is a column of JSON text, which `validate_policy` writes and
`RuleSetRow::into_ruleset` reads.  A policy that is stored is the one that is read exactly if its
spend cap is written as a number that is read as the same (`getRuleset_policy_iff`): a cap that is
no finite number is written as `null`, and read as none.
-/

namespace BuilderPro

/-- `serde_json`, of numbers: the digits of a finite one, and what digits are read as. -/
structure SerdeJson where
  digits : F64 → String
  number : String → Except String F64

namespace SerdeJson

variable (json : SerdeJson)

/-- A number that is not finite is written as `null`. -/
def ofF64 (x : F64) : Json := if x.isFinite then .number (json.digits x) else .null

def asF64 : Json → Except String F64
  | .number digits => json.number digits
  | _ => .error "invalid type: expected f64"

/-- The digits of a finite number are read as that number. -/
def ReadsBack (x : F64) : Prop := x.isFinite = true ∧ json.number (json.digits x) = .ok x

end SerdeJson

def supervisorFields : List String := ["enabled", "delegatedClasses", "instruction", "customRules"]

def SupervisorConfig.toJson (c : SupervisorConfig) : Json :=
  .object [("enabled", .bool c.enabled), ("delegatedClasses", .ofStrings c.delegatedClasses),
    ("instruction", .string c.instruction), ("customRules", .ofStrings c.customRules)]

def SupervisorConfig.ofJson (j : Json) : Except String SupervisorConfig := do
  let fields ← j.asFields false supervisorFields
  let enabled ← Json.fieldOr fields "enabled" false Json.asBool
  let delegatedClasses ← Json.fieldOr fields "delegatedClasses" [] Json.asStrings
  let instruction ← Json.fieldOr fields "instruction" "" Json.asString
  let customRules ← Json.fieldOr fields "customRules" [] Json.asStrings
  return ⟨enabled, delegatedClasses, instruction, customRules⟩

def policyFields : List String := ["spendCapUsd", "approvalClasses", "pathAllowlist", "supervisor"]

def PolicyRules.toJson (json : SerdeJson) (policy : PolicyRules) : Json :=
  .object [("spendCapUsd", (policy.spendCapUsd.map json.ofF64).getD .null),
    ("approvalClasses", .ofStrings policy.approvalClasses),
    ("pathAllowlist", .ofStrings policy.pathAllowlist),
    ("supervisor", policy.supervisor.toJson)]

/-- `PolicyRulesStrict`, as a reader. -/
def policyRulesStrict (json : SerdeJson) (j : Json) : Except String PolicyRules := do
  let fields ← j.asFields true policyFields
  let spendCapUsd ← Json.fieldOr fields "spendCapUsd" none (Json.asOption json.asF64)
  let approvalClasses ← Json.fieldOr fields "approvalClasses" [] Json.asStrings
  let pathAllowlist ← Json.fieldOr fields "pathAllowlist" [] Json.asStrings
  let supervisor ← Json.fieldOr fields "supervisor" .default SupervisorConfig.ofJson
  return ⟨spendCapUsd, approvalClasses, pathAllowlist, supervisor⟩

/-- `validate_policy`, which returns the text to store. -/
def validatePolicyText (json : SerdeJson) (policy : PolicyRules) : Except OrchdPersistError Json :=
  do
    let text := policy.toJson json
    let strict ← (policyRulesStrict json text).mapError fun e =>
      .validation ("invalid policy: " ++ e)
    if (strict.spendCapUsd.map F64.isNegative).getD false then
      throw (.validation "policy.spend_cap_usd must be >= 0")
    if strict.approvalClasses.any (· == "") then
      throw (.validation "policy.approval_classes entries must be non-empty")
    if strict.pathAllowlist.any (· == "") then
      throw (.validation "policy.path_allowlist entries must be non-empty")
    validateSupervisor strict.supervisor
    return text

structure RuleSetRow where
  id : String
  scope : RuleScope
  projectId : Option String
  mdPath : FilePath
  mdHash : String
  policy : Json
  createdAt : ℤ
  updatedAt : ℤ

def RuleSetRow.intoRuleset (json : SerdeJson) (row : RuleSetRow) :
    Except OrchdPersistError RuleSet := do
  let policy ← (policyRulesStrict json row.policy).mapError fun e =>
    .io ("corrupt ruleset.policy json: " ++ e)
  return ⟨row.id, row.scope, row.projectId, row.mdPath, row.mdHash, policy, row.createdAt,
    row.updatedAt⟩

/-- The `ruleset` table, and what the rulesets' verbs look at beside it. -/
structure StoredRules where
  rows : List RuleSetRow
  others : Store
  files : Files

namespace StoredRules

variable (host : Host) (json : SerdeJson) (st : StoredRules)

def loadRulesetRowByScope (scope : RuleScope) (projectId : Option String) :
    Except OrchdPersistError RuleSetRow :=
  match st.rows.find? fun r => r.scope = scope ∧ r.projectId = projectId with
  | some r => .ok r
  | none => .error .notFound

def loadRulesetById (rows : List RuleSetRow) (id : String) : Except OrchdPersistError RuleSet :=
  match rows.find? fun r => r.id = id with
  | some r => r.intoRuleset json
  | none => .error .notFound

def getRuleset (scope : RuleScope) (projectId : Option String) :
    Except OrchdPersistError RuleSet := do
  let row ← st.loadRulesetRowByScope scope projectId
  row.intoRuleset json

/-- The `UPDATE` of `upsert_ruleset`; what is not given stays as it is. -/
def updateRow (id : String) (mdPath : FilePath) (mdHash : Option String) (policy : Option Json)
    (now : ℤ) (row : RuleSetRow) : RuleSetRow :=
  if row.id = id then
    { row with
      mdPath := mdPath, mdHash := mdHash.getD row.mdHash, policy := policy.getD row.policy,
      updatedAt := now }
  else row

def upsertRuleset (scope : RuleScope) (projectId mdContent : Option String)
    (mdPath : Option FilePath) (policy : Option PolicyRules) (now : ℤ) :
    Except OrchdPersistError (StoredRules × RuleSet) := do
  Orchd.validateMdPath host mdPath
  let policyJson ← policy.mapM (validatePolicyText json)
  st.others.ensureOptionalProjectActive projectId
  let row ← st.loadRulesetRowByScope scope projectId
  let path := mdPath.getD row.mdPath
  let (files, hash) ← mdContent.elim (pure (st.files, none)) fun content =>
    (fun r => (r.1, some r.2)) <$> ioError (st.files.writeAtomic host path content)
  let rows := st.rows.map (updateRow row.id path hash policyJson now)
  let ruleset ← loadRulesetById json rows row.id
  return (⟨rows, st.others, files⟩, ruleset)

end StoredRules

open Results

/-! ## What is read of what was written -/

section Text

variable {json : SerdeJson} {policy strict : PolicyRules} {cap : Option F64} {text : Json}

/-- What the cap of a stored policy is read as. -/
def SerdeJson.storedCap (json : SerdeJson) (cap : Option F64) : Except String (Option F64) :=
  Json.asOption json.asF64 ((cap.map json.ofF64).getD .null)

@[simp] theorem ofJson_toJson (c : SupervisorConfig) :
    SupervisorConfig.ofJson c.toJson = .ok c := by
  have hfields := @Json.asFields_object false supervisorFields
    [("enabled", .bool c.enabled), ("delegatedClasses", .ofStrings c.delegatedClasses),
      ("instruction", .string c.instruction), ("customRules", .ofStrings c.customRules)]
    rfl (by decide)
  simp only [SupervisorConfig.ofJson, SupervisorConfig.toJson, hfields]
  simp [Json.fieldOr, Json.asBool, Json.asString, bind, Except.bind, pure, Except.pure]

/-- All but the cap is read as it was written. -/
theorem policyRulesStrict_toJson (policy : PolicyRules) :
    policyRulesStrict json (policy.toJson json)
      = (fun cap => { policy with spendCapUsd := cap }) <$> json.storedCap policy.spendCapUsd := by
  have hfields := @Json.asFields_object true policyFields
    [("spendCapUsd", (policy.spendCapUsd.map json.ofF64).getD .null),
      ("approvalClasses", .ofStrings policy.approvalClasses),
      ("pathAllowlist", .ofStrings policy.pathAllowlist),
      ("supervisor", policy.supervisor.toJson)] rfl (by decide)
  simp only [policyRulesStrict, PolicyRules.toJson, hfields, SerdeJson.storedCap]
  simp [Json.fieldOr, bind, Except.bind, pure, Except.pure, Functor.map, Except.map]

theorem storedCap_some (x : F64) :
    json.storedCap (some x)
      = if x.isFinite then some <$> json.number (json.digits x) else .ok none := by
  unfold SerdeJson.storedCap SerdeJson.ofF64
  by_cases h : x.isFinite = true
  · simp [h, Json.asOption, SerdeJson.asF64]
  · simp [h, Json.asOption]

theorem storedCap_eq_self_iff : json.storedCap cap = .ok cap ↔ ∀ x ∈ cap, json.ReadsBack x := by
  rcases cap with _ | x
  · simp [SerdeJson.storedCap, Json.asOption]
  · rw [storedCap_some]
    by_cases h : x.isFinite = true
    · simp [h, SerdeJson.ReadsBack]
    · simp [h, SerdeJson.ReadsBack]

/-- A cap is lost exactly if it is no finite number. -/
theorem storedCap_eq_none_iff :
    json.storedCap cap = .ok none ↔ ∀ x ∈ cap, x.isFinite = false := by
  rcases cap with _ | x
  · simp [SerdeJson.storedCap, Json.asOption]
  · rw [storedCap_some]
    by_cases h : x.isFinite = true
    · simp [h]
    · simp [h]

theorem validatePolicyText_eq_ok (h : validatePolicyText json policy = .ok text) :
    text = policy.toJson json ∧ ∃ cap, json.storedCap policy.spendCapUsd = .ok cap := by
  simp only [validatePolicyText, policyRulesStrict_toJson, bind_eq_ok, mapError_eq_ok, map_eq_ok,
    throw_bind, ite_throw_eq_ok, pure_eq_ok] at h
  obtain ⟨-, ⟨cap, hcap, -⟩, -, -, -, -, -, htext⟩ := h
  exact ⟨htext.symm, cap, hcap⟩

theorem intoRuleset_of_toJson {row : RuleSetRow} (hrow : row.policy = policy.toJson json)
    (hcap : json.storedCap policy.spendCapUsd = .ok cap) :
    ∃ got, row.intoRuleset json = .ok got ∧ got.policy = { policy with spendCapUsd := cap } := by
  refine ⟨⟨row.id, row.scope, row.projectId, row.mdPath, row.mdHash,
    { policy with spendCapUsd := cap }, row.createdAt, row.updatedAt⟩, ?_, rfl⟩
  simp only [RuleSetRow.intoRuleset, hrow, policyRulesStrict_toJson, hcap]
  rfl

end Text

namespace StoredRules

variable {host : Host} {json : SerdeJson} {st : StoredRules} {scope : RuleScope}
  {projectId mdContent : Option String} {mdPath : Option FilePath} {policy : PolicyRules} {now : ℤ}
  {r : StoredRules × RuleSet}

@[simp] theorem updateRow_scope (id : String) (path : FilePath) (hash : Option String)
    (text : Option Json) (row : RuleSetRow) :
    (updateRow id path hash text now row).scope = row.scope := by
  unfold updateRow
  split_ifs <;> rfl

@[simp] theorem updateRow_projectId (id : String) (path : FilePath) (hash : Option String)
    (text : Option Json) (row : RuleSetRow) :
    (updateRow id path hash text now row).projectId = row.projectId := by
  unfold updateRow
  split_ifs <;> rfl

/-- The row a verb has found is found where it was, as it was updated. -/
theorem loadRulesetRowByScope_update {row : RuleSetRow} {st' : StoredRules} {path : FilePath}
    {hash : Option String} {text : Option Json}
    (hrow : st.loadRulesetRowByScope scope projectId = .ok row)
    (hst : st'.rows = st.rows.map (updateRow row.id path hash text now)) :
    st'.loadRulesetRowByScope scope projectId = .ok (updateRow row.id path hash text now row) := by
  unfold loadRulesetRowByScope at hrow ⊢
  have hpred : ((fun r : RuleSetRow => decide (r.scope = scope ∧ r.projectId = projectId)) ∘
      updateRow row.id path hash text now)
        = fun r => decide (r.scope = scope ∧ r.projectId = projectId) := by
    funext r
    simp
  rw [hst, List.find?_map, hpred]
  split at hrow
  · rename_i found hfound
    injection hrow with hrow
    subst hrow
    rw [hfound]
    rfl
  · injection hrow

/-- What an accepted policy's row is read as. -/
theorem upsertRuleset_get (h : st.upsertRuleset host json scope projectId mdContent mdPath
    (some policy) now = .ok r) :
    ∃ got cap, r.1.getRuleset json scope projectId = .ok got ∧
      json.storedCap policy.spendCapUsd = .ok cap ∧
      got.policy = { policy with spendCapUsd := cap } := by
  simp only [upsertRuleset, Option.mapM_some, bind_eq_ok, map_eq_ok, pure_eq_ok] at h
  obtain ⟨-, -, policyJson, ⟨text, htext, rfl⟩, -, -, row, hrow, ⟨files, hash⟩, -, h⟩ := h
  obtain ⟨ruleset, -, rfl⟩ := h
  obtain ⟨rfl, cap, hcap⟩ := validatePolicyText_eq_ok htext
  have hpolicy : (updateRow row.id (mdPath.getD row.mdPath) hash (some (policy.toJson json)) now
      row).policy = policy.toJson json := by
    simp [updateRow]
  obtain ⟨got, hgot, hpol⟩ := intoRuleset_of_toJson hpolicy hcap
  refine ⟨got, cap, ?_, hcap, hpol⟩
  simp only [getRuleset, bind_eq_ok]
  exact ⟨_, loadRulesetRowByScope_update hrow rfl, hgot⟩

/-- An accepted policy is read as it was given exactly if its cap is written as a number that is
read as the same. -/
theorem getRuleset_policy_iff (h : st.upsertRuleset host json scope projectId mdContent mdPath
    (some policy) now = .ok r) :
    (∃ got, r.1.getRuleset json scope projectId = .ok got ∧ got.policy = policy) ↔
      ∀ cap ∈ policy.spendCapUsd, cap.isFinite = true ∧
        json.number (json.digits cap) = .ok cap := by
  obtain ⟨got, cap, hget, hcap, hpolicy⟩ := upsertRuleset_get h
  have hiff : json.storedCap policy.spendCapUsd = .ok policy.spendCapUsd ↔
      got.policy = policy := by
    rw [hcap, hpolicy]
    constructor
    · intro heq
      injection heq with heq
      rw [heq]
    · intro heq
      exact congrArg (fun p => Except.ok p.spendCapUsd) heq
  change _ ↔ ∀ cap ∈ policy.spendCapUsd, json.ReadsBack cap
  rw [← storedCap_eq_self_iff, hiff]
  constructor
  · rintro ⟨got', hget', heq⟩
    rw [hget] at hget'
    injection hget' with hget'
    rwa [hget']
  · exact fun heq => ⟨got, hget, heq⟩

/-- The global ruleset as it is made, and a library that writes `5` as serde does. -/
def globalRules : StoredRules :=
  ⟨[⟨"rules", .global, none, ⟨true, ["rules", "global.md"]⟩, "", .object [], 0, 0⟩], .empty,
    fun _ => .missing⟩

def fiveJson : SerdeJson :=
  ⟨fun _ => "5.0", fun s => if s = "5.0" then .ok (.finite 5) else .error "invalid number"⟩

theorem getRuleset_policy_five :
    ∃ r, globalRules.upsertRuleset Orchd.plainHost fiveJson .global none none none
        (some { PolicyRules.default with spendCapUsd := some (.finite 5) }) 1 = .ok r ∧
      ((∃ got, r.1.getRuleset fiveJson .global none = .ok got ∧
          got.policy = { PolicyRules.default with spendCapUsd := some (.finite 5) }) ↔
        ∀ cap ∈ some (F64.finite 5), cap.isFinite = true ∧
          fiveJson.number (fiveJson.digits cap) = .ok cap) := by
  have haccepted : globalRules.upsertRuleset Orchd.plainHost fiveJson .global none none none
      (some { PolicyRules.default with spendCapUsd := some (.finite 5) }) 1 = .ok _ := rfl
  exact ⟨_, haccepted, getRuleset_policy_iff haccepted⟩

/-- A cap of `inf` is accepted, and read as no cap. -/
theorem infinite_cap_lost :
    ∃ r got, globalRules.upsertRuleset Orchd.plainHost fiveJson .global none none none
        (some { PolicyRules.default with spendCapUsd := some .infinity }) 1 = .ok r ∧
      r.1.getRuleset fiveJson .global none = .ok got ∧
      got.policy.spendCapUsd = none ∧
      got.policy ≠ { PolicyRules.default with spendCapUsd := some .infinity } :=
  ⟨_, _, rfl, rfl, rfl, by decide⟩

/-! ## What the text is for -/

/-- What a row's text is read as is the ruleset. -/
def ReadAs (json : SerdeJson) (row : RuleSetRow) (r : RuleSet) : Prop :=
  row.intoRuleset json = .ok r

/-- The table's texts are read as the rulesets of a daemon that has everything else too. -/
structure Reads (json : SerdeJson) (st : StoredRules) (o : Orchd) : Prop where
  rows : List.Forall₂ (ReadAs json) st.rows o.db.rulesets.rows
  projects : st.others.projects = o.db.projects
  files : st.files = o.files

/-- The library reads back every finite number. -/
def Exact (json : SerdeJson) : Prop :=
  ∀ x : F64, x.isFinite = true → json.number (json.digits x) = .ok x

variable {row : RuleSetRow} {ruleset : RuleSet} {o : Orchd} {text : Json} {strict : PolicyRules}

theorem readAs_iff : ReadAs json row ruleset ↔
    ∃ policy, policyRulesStrict json row.policy = .ok policy ∧
      ruleset = ⟨row.id, row.scope, row.projectId, row.mdPath, row.mdHash, policy, row.createdAt,
        row.updatedAt⟩ := by
  simp only [ReadAs, RuleSetRow.intoRuleset, bind_eq_ok, mapError_eq_ok, pure_eq_ok]
  constructor
  · rintro ⟨p, hp, rfl⟩
    exact ⟨p, hp, rfl⟩
  · rintro ⟨p, hp, rfl⟩
    exact ⟨p, hp, rfl⟩

/-- What is looked for by columns that both have is found in both. -/
theorem find?_readAs {rows : List RuleSetRow} {rulesets : List RuleSet} {p : RuleSetRow → Bool}
    {q : RuleSet → Bool} (hpq : ∀ row r, ReadAs json row r → p row = q r)
    (hrows : List.Forall₂ (ReadAs json) rows rulesets) (hfind : rows.find? p = some row) :
    ∃ ruleset, rulesets.find? q = some ruleset ∧ ReadAs json row ruleset := by
  induction hrows with
  | nil => simp at hfind
  | @cons first r _ _ hfirst _ ih =>
    by_cases hp : p first = true
    · rw [List.find?_cons_of_pos hp] at hfind
      injection hfind with hfind
      subst hfind
      rw [hpq _ _ hfirst] at hp
      exact ⟨r, List.find?_cons_of_pos hp, hfirst⟩
    · rw [List.find?_cons_of_neg hp] at hfind
      rw [hpq _ _ hfirst] at hp
      rw [List.find?_cons_of_neg hp]
      exact ih hfind

theorem storedCap_exact (h : Exact json) (cap : Option F64) :
    json.storedCap cap = .ok (cap.filter F64.isFinite) := by
  rcases cap with _ | x
  · rfl
  · rw [storedCap_some]
    by_cases hx : x.isFinite = true
    · rw [if_pos hx, h x hx, Option.filter_some, if_pos hx]
      rfl
    · rw [if_neg hx, Option.filter_some, if_neg hx]

/-- The two validations accept the same policies, and what is stored is read as what the other
returns. -/
theorem validatePolicyText_exact (hexact : Exact json)
    (h : validatePolicyText json policy = .ok text) :
    ∃ strict, validatePolicy policy = .ok strict ∧
      policyRulesStrict json text = .ok strict := by
  obtain ⟨htext, -⟩ := validatePolicyText_eq_ok h
  have hstrict : policyRulesStrict json text
      = .ok { policy with spendCapUsd := policy.spendCapUsd.filter F64.isFinite } := by
    rw [htext, policyRulesStrict_toJson, storedCap_exact hexact]
    rfl
  refine ⟨_, ?_, hstrict⟩
  rw [htext] at hstrict
  simp only [validatePolicyText, hstrict, bind_eq_ok, mapError_eq_ok, throw_bind,
    ite_throw_eq_ok, pure_eq_ok, Except.ok.injEq, exists_eq_left'] at h
  simp only [validatePolicy, bind_eq_ok, throw_bind, ite_throw_eq_ok, pure_eq_ok]
  obtain ⟨hcap, hclasses, hpaths, hsupervisor, hsup, -⟩ := h
  exact ⟨hcap, hclasses, hpaths, hsupervisor, hsup, trivial⟩

/-- What `upsert_ruleset` makes of a ruleset. -/
def updateRuleset (path : FilePath) (hash : Option String) (policy : Option PolicyRules) (now : ℤ)
    (r : RuleSet) : RuleSet :=
  { r with
    mdPath := path, mdHash := hash.getD r.mdHash, policy := policy.getD r.policy, updatedAt := now }

/-- The update of a row is the update of what it is read as. -/
theorem readAs_updateRow {id : String} {path : FilePath} {hash : Option String}
    {given : Option Json} {policy : Option PolicyRules}
    (hpolicy : given.mapM (policyRulesStrict json) = .ok policy) (hread : ReadAs json row ruleset)
    (hid : row.id = id) :
    ReadAs json (updateRow id path hash given now row)
      (updateRuleset path hash policy now ruleset) := by
  obtain ⟨old, hold, rfl⟩ := readAs_iff.1 hread
  rw [updateRow, if_pos hid, readAs_iff]
  refine ⟨policy.getD old, ?_, rfl⟩
  rcases given with _ | text
  · injection hpolicy with hpolicy
    subst hpolicy
    exact hold
  · simp only [Option.mapM_some, map_eq_ok] at hpolicy
    obtain ⟨strict, hstrict, rfl⟩ := hpolicy
    exact hstrict

/-- One row is updated in both tables. -/
theorem rows_updated {id : String} {path : FilePath} {hash : Option String} {given : Option Json}
    {policy : Option PolicyRules} (hreads : List.Forall₂ (ReadAs json) st.rows o.db.rulesets.rows)
    (hlookup : o.db.rulesets.lookup id = some ruleset)
    (hpolicy : given.mapM (policyRulesStrict json) = .ok policy) :
    List.Forall₂ (ReadAs json) (st.rows.map (updateRow id path hash given now))
      (o.db.rulesets.replace (updateRuleset path hash policy now ruleset)).rows := by
  have hkey : ruleset.id = id := KeyedTable.key_eq hlookup
  rw [KeyedTable.replace, List.forall₂_map_left_iff, List.forall₂_map_right_iff]
  rw [List.forall₂_iff_zip] at hreads ⊢
  refine ⟨hreads.1, fun {row r} hmem => ?_⟩
  have hread := hreads.2 hmem
  have hids : r.id = row.id := by
    obtain ⟨_, -, rfl⟩ := readAs_iff.1 hread
    rfl
  by_cases hid : row.id = id
  · have hr : r = ruleset := by
      have hfound := KeyedTable.mem_rows.1 (List.of_mem_zip hmem).2
      rw [hids, hid, hlookup] at hfound
      exact (Option.some.inj hfound).symm
    subst hr
    have hsame : r.id = (updateRuleset path hash policy now r).id := rfl
    rw [if_pos hsame]
    exact readAs_updateRow hpolicy hread hid
  · have hne : ¬r.id = (updateRuleset path hash policy now ruleset).id := by
      rw [hids, updateRuleset, hkey]
      exact hid
    rw [if_neg hne, updateRow, if_neg hid]
    exact hread

theorem policy_mapM {given : Option PolicyRules} {policyJson : Option Json} (hexact : Exact json)
    (h : given.mapM (validatePolicyText json) = .ok policyJson) :
    ∃ policy, given.mapM validatePolicy = .ok policy ∧
      policyJson.mapM (policyRulesStrict json) = .ok policy := by
  rcases given with _ | p
  · injection h with h
    subst h
    exact ⟨none, rfl, rfl⟩
  · simp only [Option.mapM_some, map_eq_ok] at h
    obtain ⟨text, htext, rfl⟩ := h
    obtain ⟨strict, hstrict, hread⟩ := validatePolicyText_exact hexact htext
    exact ⟨some strict, by rw [Option.mapM_some, hstrict]; rfl,
      by rw [Option.mapM_some, hread]; rfl⟩

theorem loadRulesetById_reads {rows : List RuleSetRow} {t : KeyedTable RuleSet.id} {id : String}
    {loaded : RuleSet} (hrows : List.Forall₂ (ReadAs json) rows t.rows)
    (hlookup : t.lookup id = some ruleset) (h : loadRulesetById json rows id = .ok loaded) :
    loaded = ruleset := by
  unfold loadRulesetById at h
  split at h
  · rename_i stored hstored
    obtain ⟨found, hfound, hread⟩ := find?_readAs (q := fun r => r.id = id) (fun row r hr => by
      obtain ⟨_, -, rfl⟩ := readAs_iff.1 hr
      rfl) hrows hstored
    rw [KeyedTable.lookup, hfound] at hlookup
    injection hlookup with hlookup
    rw [ReadAs, h] at hread
    injection hread with hread
    rw [hread, hlookup]
  · injection h

/-- The table of texts is the table of rulesets, for a library that reads back what it writes. -/
theorem upsertRuleset_reads {given : Option PolicyRules} (hexact : Exact json)
    (hreads : Reads json st o)
    (h : st.upsertRuleset host json scope projectId mdContent mdPath given now = .ok r) :
    ∃ o', o.upsertRuleset host scope projectId mdContent mdPath given now = .ok (o', r.2) ∧
      Reads json r.1 o' := by
  simp only [upsertRuleset, bind_eq_ok, pure_eq_ok] at h
  obtain ⟨_, hpath, policyJson, hpolicyJson, _, hactive, row, hrow, ⟨files, hash⟩, hfiles, loaded,
    hloaded, rfl⟩ := h
  obtain ⟨policy, hpolicy, hstrict⟩ := policy_mapM hexact hpolicyJson
  have hactive' : o.db.ensureOptionalProjectActive projectId = .ok () := by
    rw [← hactive]
    unfold Store.ensureOptionalProjectActive Store.ensureProjectActive
    rw [hreads.projects]
  have hfind : st.rows.find? (fun r => r.scope = scope ∧ r.projectId = projectId) = some row := by
    unfold loadRulesetRowByScope at hrow
    split at hrow
    · rename_i hfound
      injection hrow with hrow
      rw [hfound, hrow]
    · injection hrow
  obtain ⟨ruleset, hruleset, hread⟩ := find?_readAs (q := fun r => r.scope = scope ∧
    r.projectId = projectId) (fun row r hr => by
      obtain ⟨_, -, rfl⟩ := readAs_iff.1 hr
      rfl) hreads.rows hfind
  obtain ⟨hid, hmd⟩ : ruleset.id = row.id ∧ ruleset.mdPath = row.mdPath := by
    obtain ⟨_, -, rfl⟩ := readAs_iff.1 hread
    exact ⟨rfl, rfl⟩
  have hlookup : o.db.rulesets.lookup row.id = some ruleset := by
    rw [← hid]
    exact KeyedTable.mem_rows.1 (List.mem_of_find?_eq_some hruleset)
  have hrows := @rows_updated json st now ruleset o row.id (mdPath.getD row.mdPath) hash policyJson
    policy hreads.rows hlookup hstrict
  have hfiles' : (mdContent.elim (pure (o.files, ruleset.mdHash)) fun content =>
      ioError (o.files.writeAtomic host (mdPath.getD ruleset.mdPath) content))
        = .ok (files, hash.getD ruleset.mdHash) := by
    rw [hmd, ← hreads.files]
    rcases mdContent with _ | content
    · injection hfiles with hfiles
      injection hfiles with hfiles hhash
      subst hfiles hhash
      rfl
    · simp only [Option.elim_some, map_eq_ok] at hfiles ⊢
      obtain ⟨w, hw, heq⟩ := hfiles
      injection heq with hfiles hhash
      subst hfiles hhash
      exact hw
  have hload : loaded
      = updateRuleset (mdPath.getD row.mdPath) hash policy now ruleset := by
    refine loadRulesetById_reads hrows ?_ hloaded
    have hkey : o.db.rulesets.lookup
        (updateRuleset (mdPath.getD row.mdPath) hash policy now ruleset).id = some ruleset := by
      rw [updateRuleset, hid]
      exact hlookup
    rw [KeyedTable.lookup_replace hkey, if_pos]
    rw [updateRuleset, hid]
  refine ⟨⟨o.db.replaceRow loaded, files⟩, ?_, ?_, hreads.projects, rfl⟩
  · simp only [Orchd.upsertRuleset, bind_eq_ok, pure_eq_ok]
    refine ⟨_, hpath, policy, hpolicy, _, hactive', ruleset, ?_, _, hfiles', ?_⟩
    · unfold Orchd.loadRulesetByScope
      rw [hruleset]
    · rw [hload, hmd]
      rfl
  · rw [hload]
    exact hrows

end StoredRules

end BuilderPro
