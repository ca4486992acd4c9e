import BuilderPro.Lib.Runs
import BuilderPro.Orchd.CallSteps

/-!
# An owner's ban of a tool

The gate denies the calls of a tool that its server's cache does not hold as enabled
(`evaluate_toolCall_deny_iff`).  A refresh keeps the flag of a name the cache holds and enables one
it does not, so a ban lasts until a refresh lists the tool again after an earlier one has dropped it
(`toolBan_sticks_iff`).
-/

namespace BuilderPro

open Results

namespace ToolTable

variable {t u : ToolTable} {serverId name : String} {x : McpToolRow}

/-- The same rows, by their slots. -/
def bySlot (t : ToolTable) : KeyedTable McpToolRow.slot := ⟨t.rows, t.named⟩

theorem find_eq_some : t.find serverId name = some x ↔ x ∈ t.rows ∧ x.slot = (serverId, name) :=
  KeyedTable.lookup_eq_some (t := t.bySlot)

theorem find_keep (p : McpToolRow → Bool) :
    (t.keep p).find serverId name = (t.find serverId name).filter p :=
  KeyedTable.lookup_keep (t := t.bySlot) p

theorem find_setEnabled (id : String) (enabled : Bool) :
    (t.setEnabled id enabled).find serverId name
      = (t.find serverId name).map fun x =>
        if x.id = id then { x with enabled := enabled } else x := by
  simp only [find, setEnabled, List.find?_map]
  congr 2
  funext x
  simp only [Function.comp]
  split_ifs <;> rfl

theorem rows_insert (h : t.insert x = some u) : u.rows = t.rows ++ [x] := by
  unfold insert at h
  split_ifs at h
  cases h
  rfl

theorem rows_foldlM_insertTool {xs : List McpToolRow}
    (h : xs.foldlM ExtStore.insertTool t = .ok u) : u.rows = t.rows ++ xs := by
  refine foldlM_rel (R := fun t xs u => u.rows = t.rows ++ xs) (fun t => by simp) ?_ h
  intro t x v xs u hx hu
  unfold ExtStore.insertTool at hx
  split at hx
  · rename_i hv
    cases hx
    rw [hu, rows_insert hv, List.append_assoc, List.singleton_append]
  · cases hx

/-- Whether no enabled tool of a name is there. -/
def Bans (t : ToolTable) (serverId name : String) : Prop :=
  ∀ x, t.find serverId name = some x → x.enabled = false

theorem Bans.keep (h : t.Bans serverId name) (p : McpToolRow → Bool) :
    (t.keep p).Bans serverId name := by
  intro x hx
  rw [find_keep, Option.filter_eq_some_iff] at hx
  exact h x hx.1

/-- Only the row of the id is set. -/
theorem Bans.setEnabled (h : t.Bans serverId name) {id : String} {enabled : Bool}
    (hid : ∀ x, t.lookup id = some x → x.slot = (serverId, name) → enabled = false) :
    (t.setEnabled id enabled).Bans serverId name := by
  intro x hx
  rw [find_setEnabled, Option.map_eq_some_iff] at hx
  obtain ⟨y, hy, rfl⟩ := hx
  split_ifs with hyid
  · obtain ⟨hmem, hslot⟩ := find_eq_some.1 hy
    exact hid y (KeyedTable.lookup_eq_some.2 ⟨hmem, hyid⟩) hslot
  · exact h y hy

theorem bans_setEnabled_false (hx : t.lookup x.id = some x) :
    (t.setEnabled x.id false).Bans x.serverId x.name := by
  intro y hy
  rw [find_setEnabled, find_eq_some.2 ⟨(KeyedTable.lookup_eq_some.1 hx).1, rfl⟩] at hy
  cases hy
  simp

end ToolTable

namespace ExtStore

variable {e e' : ExtStore} {serverId name : String} {tools : List NewMcpTool}
  {draw : ℕ → String} {now : ℤ} {x : McpToolRow}

/-! ### A refresh -/

theorem of_mem_freshTools (hx : x ∈ e.freshTools serverId tools draw now) :
    x.serverId = serverId ∧ x.name ∈ tools.map NewMcpTool.name
      ∧ x.enabled = ((e.tools.find serverId x.name).map McpToolRow.enabled).getD true := by
  obtain ⟨⟨tool, i⟩, htool, rfl⟩ := List.mem_map.1 hx
  exact ⟨rfl, List.mem_map_of_mem (List.fst_mem_of_mem_zipIdx htool), rfl⟩

theorem exists_mem_freshTools (h : name ∈ tools.map NewMcpTool.name) :
    ∃ x ∈ e.freshTools serverId tools draw now, x.name = name := by
  obtain ⟨tool, htool, rfl⟩ := List.mem_map.1 h
  obtain ⟨i, hi, rfl⟩ := List.mem_iff_getElem.1 htool
  have hmem : (tools[i], i) ∈ tools.zipIdx := by
    rw [List.mem_zipIdx_iff_getElem?]
    exact List.getElem?_eq_getElem hi
  exact ⟨_, List.mem_map_of_mem hmem, rfl⟩

/-- A refresh keeps a ban, but of a tool it lists and the cache does not hold. -/
theorem bans_upsertMcpTools {sid : String}
    (h : e.upsertMcpTools serverId tools draw now = .ok e') (hban : e.tools.Bans sid name) :
    e'.tools.Bans sid name ↔ ¬(sid = serverId ∧ name ∈ tools.map NewMcpTool.name
      ∧ e.tools.find sid name = none) := by
  obtain ⟨u, hu, rfl⟩ := upsertMcpTools_eq_ok h
  have hrows := ToolTable.rows_foldlM_insertTool hu
  constructor
  · rintro hbans ⟨rfl, hname, hnone⟩
    obtain ⟨x, hx, rfl⟩ : ∃ x ∈ e.freshTools sid tools draw now, x.name = name :=
      exists_mem_freshTools hname
    obtain ⟨rfl, -, henabled⟩ := of_mem_freshTools hx
    have hfind : u.find x.serverId x.name = some x :=
      ToolTable.find_eq_some.2 ⟨hrows ▸ List.mem_append_right _ hx, rfl⟩
    rw [hbans x hfind, hnone] at henabled
    cases henabled
  · intro hlisted x hx
    obtain ⟨hx, hslot⟩ := ToolTable.find_eq_some.1 hx
    rw [hrows] at hx
    rcases List.mem_append.1 hx with hx | hx
    · exact hban.keep _ x (ToolTable.find_eq_some.2 ⟨hx, hslot⟩)
    · obtain ⟨hserver, hname, henabled⟩ := of_mem_freshTools hx
      obtain ⟨rfl, rfl⟩ := Prod.mk.inj hslot
      rcases hfind : e.tools.find x.serverId x.name with _ | y
      · exact absurd ⟨hserver, hname, hfind⟩ hlisted
      · rw [henabled, ← hserver, hfind]
        exact hban y hfind

/-! ### The gate -/

theorem mem_listMcpTools :
    x ∈ e.listMcpTools serverId ↔ x ∈ e.tools.rows ∧ x.serverId = serverId := by
  simp [listMcpTools]

theorem checkPolicyCaps_ne (host : ExtHost) (projectId server : Option String) (now : ℤ) :
    e.checkPolicyCaps host projectId server now ≠ .deny reasonToolDisabled := by
  unfold checkPolicyCaps
  dsimp only
  split
  · exact Decision.noConfusion
  · split_ifs <;> decide

/-- The calls that are denied as those of a disabled tool are those of the banned ones. -/
theorem evaluate_toolCall_deny_iff (host : ExtHost) (projectId : Option String) :
    e.evaluate host now (.toolCall serverId name projectId) = .deny reasonToolDisabled
      ↔ e.tools.Bans serverId name := by
  have hany : (e.listMcpTools serverId).any (fun t => t.name == name && t.enabled) = true
      ↔ ¬e.tools.Bans serverId name := by
    simp only [List.any_eq_true, mem_listMcpTools, ToolTable.Bans, ToolTable.find_eq_some,
      McpToolRow.slot, Prod.mk.injEq, Bool.and_eq_true, beq_iff_eq]
    grind
  simp only [evaluate]
  split_ifs with h
  · simp only [hany.1 h, iff_false]
    exact checkPolicyCaps_ne host projectId (some serverId) now
  · simpa using mt hany.2 h

end ExtStore

namespace ExtSys

variable {host : ExtHost} {s s' : ExtSys} {serverId name : String}

/-- How the calls of a tool are taken once its owner has disabled it. -/
structure DeniesTool (host : ExtHost) (s : ExtSys) (serverId name : String) : Prop where
  gate (projectId : Option String) : s.ext.evaluate host s.clock
    (.toolCall serverId name projectId) = .deny reasonToolDisabled
  /-- A server that is switched on denies the call as one of a disabled tool. -/
  denied (c : ToolCall) (auditId auditId' : String) (server : McpServerRow)
    (hc : c.serverId = serverId ∧ c.toolName = name)
    (hserver : s.ext.servers.lookup serverId = some server) (henabled : server.enabled = true)
    (hid : s.ext.audit.lookup auditId = none) :
    (callPhaseOne host s c auditId auditId').answer = .error .toolDisabled
  /-- No server lets it through. -/
  refused (c : ToolCall) (auditId auditId' : String) (pass : Pass)
    (hc : c.serverId = serverId ∧ c.toolName = name) :
    (callPhaseOne host s c auditId auditId').answer ≠ .ok pass

theorem deniesTool_iff : s.DeniesTool host serverId name ↔ s.ext.tools.Bans serverId name := by
  refine ⟨fun h => (ExtStore.evaluate_toolCall_deny_iff host none).1 (h.gate none), fun h => ?_⟩
  have hgate : ∀ projectId, s.ext.evaluate host s.clock (.toolCall serverId name projectId)
      = .deny reasonToolDisabled := fun projectId =>
    (ExtStore.evaluate_toolCall_deny_iff host projectId).2 h
  refine ⟨hgate, ?_, ?_⟩
  · rintro c auditId auditId' server ⟨rfl, rfl⟩ hserver henabled hid
    obtain ⟨e, he⟩ := ExtStore.authorize_of_lookup_eq_none host
      (.toolCall server.id c.toolName c.projectId) s.clock hid
    rw [KeyedTable.key_eq hserver, hgate] at he
    simp [callPhaseOne, withEnabled, ExtStore.getMcpServer, hserver, henabled,
      KeyedTable.key_eq hserver, he, refused]
  · rintro c auditId auditId' pass ⟨rfl, rfl⟩ hpass
    rcases callPhaseOne_cases host s c auditId auditId' with
      ⟨e, error, hrefused⟩ | ⟨server, e, -, -, he, -⟩
    · rw [hrefused] at hpass
      cases hpass
    · obtain ⟨hdecision, -⟩ := ExtStore.authorize_eq_ok he
      rw [hgate] at hdecision
      cases hdecision

/-- Whether a step has the owner enable a tool of a name. -/
def EnablesTool (s : ExtSys) (serverId name : String) : ExtAction → Prop
  | .setToolEnabled toolId enabled =>
    enabled = true ∧ (s.ext.tools.lookup toolId).map McpToolRow.slot = some (serverId, name)
  | _ => False

instance (a : ExtAction) : Decidable (s.EnablesTool serverId name a) := by
  unfold EnablesTool
  split <;> infer_instance

/-- Whether a step is a refresh that goes through, of a list with a tool the cache does not hold. -/
def ReadmitsTool (s : ExtSys) (serverId name : String) (a : ExtAction) : Prop :=
  ∃ i t tools draw e, a = .answer i (.tools tools draw) ∧ s.tasks[i]? = some t
    ∧ t.pc = .dialing ∧ t.job = .connect serverId ∧ s.ext.tools.find serverId name = none
    ∧ name ∈ tools.map NewMcpTool.name
    ∧ s.ext.upsertMcpTools serverId tools draw s.clock = .ok e

theorem answer_tools_eq_some {i : ℕ} {t : Task} {tools : List NewMcpTool} {draw : ℕ → String}
    {e : ExtStore} (hi : s.tasks[i]? = some t) (hpc : t.pc = .dialing)
    (hjob : t.job = .connect serverId)
    (he : s.ext.upsertMcpTools serverId tools draw s.clock = .ok e)
    (h : s.answer host i (.tools tools draw) = some s') : s'.ext = e := by
  simp only [answer, hi, Option.bind_eq_bind, Option.bind_some, hpc, hjob, he] at h
  cases h
  rfl

/-- A ban is lifted by its owner and by a refresh that lists what the cache does not hold, and by
no other step. -/
theorem bans_step_iff {a : ExtAction} (h : s.step host a = some s')
    (hban : s.ext.tools.Bans serverId name) (hown : ¬s.EnablesTool serverId name a) :
    s'.ext.tools.Bans serverId name ↔ ¬s.ReadmitsTool serverId name a := by
  constructor
  · rintro hbans ⟨i, t, tools, draw, e, rfl, hi, hpc, hjob, hnone, hname, he⟩
    obtain rfl := answer_tools_eq_some hi hpc hjob he h
    exact (ExtStore.bans_upsertMcpTools he hban).1 hbans ⟨rfl, hname, hnone⟩
  · intro hreadmit
    cases tableStep h with
    | others hleaves => exact hleaves.tools ▸ hban
    | deleteServer ht => exact ht ▸ hban.keep _
    | deleteAccount ht => exact ht ▸ hban
    | setToolEnabled hx hs =>
      rw [hs]
      refine hban.setEnabled fun y hy hslot => ?_
      by_contra henabled
      exact hown ⟨by simpa using henabled, by rw [hy, Option.map_some, hslot]⟩
    | refresh hi hpc hjob he =>
      refine (ExtStore.bans_upsertMcpTools he hban).2 ?_
      rintro ⟨rfl, hname, hnone⟩
      exact hreadmit ⟨_, _, _, _, _, rfl, hi, hpc, hjob, hnone, hname, he⟩
    | attempt hi hpc hstart hrow he =>
      obtain ⟨t, -, ht⟩ := ExtStore.insertInvocation_eq_ok he
      exact ht ▸ hban

/-- Once its owner has disabled a tool, and until they enable one of its name, its calls are denied
exactly as long as no refresh lists it after another has dropped it. -/
theorem toolBan_sticks_iff {toolId : String} {x : McpToolRow} {as : List ExtAction}
    (hx : s.ext.tools.lookup toolId = some x)
    (hs : s.step host (.setToolEnabled toolId false) = some s')
    (hown : Runs.Along (step host) (fun t a => ¬t.EnablesTool x.serverId x.name a) s' as) :
    Runs.Throughout (step host) (fun t => t.DeniesTool host x.serverId x.name) s' as
      ↔ Runs.Along (step host) (fun t a => ¬t.ReadmitsTool x.serverId x.name a) s' as := by
  refine Runs.throughout_iff_of_along (I := fun _ => True) (fun _ _ _ _ _ _ _ => trivial)
    (fun t a u _ ht ha hu => ?_) trivial ?_ hown
  · rw [deniesTool_iff] at ht ⊢
    exact bans_step_iff hu ht ha
  · obtain rfl := KeyedTable.key_eq hx
    cases hs
    simp only [ExtStore.setMcpToolEnabled, hx, deniesTool_iff]
    exact ToolTable.bans_setEnabled_false hx

/-! ### A server that drops a tool for one refresh -/

def searchServer : NewMcpServer :=
  ⟨"search", .http, some "http://localhost:1", none, [], .empty, .global, none, .none, none, none,
    true, 30000, 0⟩

/-- A connect that is let through and answered by a list of tools. -/
def connects (i : ℕ) (auditId : String) (tools : List String) (toolId : String) : List ExtAction :=
  [.request (.connect "s"), .authorize i auditId "", .dial i,
    .answer i (.tools (tools.map fun name => ⟨name, none, none, "\x7b\x7d"⟩) fun _ => toolId)]

/-- A server is added and connected to, and lists a tool. -/
def searchAdded : List ExtAction :=
  [.addServer searchServer "s", .grantConsent "s" consentKindConnect "g" "a1"]
    ++ connects 0 "a2" ["wipe"] "t1"

theorem tool_readmitted : ∃ s s' t,
    Runs.run (step plainExtHost) fresh searchAdded = some s
      ∧ (s.ext.tools.lookup "t1").map McpToolRow.slot = some ("s", "wipe")
      ∧ s.step plainExtHost (.setToolEnabled "t1" false) = some s'
      ∧ Runs.Along (step plainExtHost) (fun t a => ¬t.EnablesTool "s" "wipe" a) s'
        (connects 1 "a3" [] "" ++ connects 2 "a4" ["wipe"] "t2")
      ∧ Runs.run (step plainExtHost) s' (connects 1 "a3" [] "" ++ connects 2 "a4" ["wipe"] "t2")
        = some t
      ∧ ¬t.DeniesTool plainExtHost "s" "wipe" := by
  refine ⟨_, _, _, rfl, by decide +kernel, rfl, by decide +kernel, rfl, fun h => ?_⟩
  exact absurd (h.gate none) (by decide +kernel)

theorem toolBan_sticks_iff_search : ∃ (s s' : ExtSys) (x : McpToolRow),
    Runs.run (step plainExtHost) fresh searchAdded = some s
      ∧ s.ext.tools.lookup "t1" = some x
      ∧ s.step plainExtHost (.setToolEnabled "t1" false) = some s'
      ∧ (Runs.Throughout (step plainExtHost)
          (fun t => t.DeniesTool plainExtHost x.serverId x.name) s' (connects 1 "a3" ["wipe"] "t2")
        ↔ Runs.Along (step plainExtHost) (fun t a => ¬t.ReadmitsTool x.serverId x.name a) s'
          (connects 1 "a3" ["wipe"] "t2")) := by
  refine ⟨_, _, _, rfl, rfl, rfl, ?_⟩
  exact @toolBan_sticks_iff _ _ _ "t1" _ _ rfl rfl (by decide +kernel)

end ExtSys

end BuilderPro
