import MikroLLM.Domain.Hub
import MikroLLM.Domain.Media
import MikroLLM.Store.A2A
import MikroLLM.Store.McpUpstreams
import MikroLLM.Store.Models

/-!
# What a node announces and what it runs

`announce` publishes the names of the models, MCP servers and agents that the
node shares; `runJob`, `runMCP` and `runA2A` look up the name of a job. The two
sides read the same rows with predicates of their own.
-/

namespace MikroLLM.Hub

open Domain Go Library Store

/-- The rows that the hub client reads. Every name of a server or an agent was written by `SaveMCP`
or `SaveA2A`, which write the normal form. -/
structure SharedStore (text : TextLibrary) where
  models : ModelTables
  mcps : MCPTable
  agents : A2ATables
  mcps_normal : ∀ row ∈ mcps.rows, normalizeMCPName text row.name = some row.name
  agents_normal : ∀ row ∈ agents.agents, normalizeMCPName text row.name = some row.name

/-- An alias in `AnnounceReq`, without the parameters that depend on nothing else. -/
structure HubAlias where
  aliasName : String
  media : List String
  context : ℤ

structure AnnounceReq where
  name : String
  aliases : List HubAlias
  schedule : Option HubSchedule
  caps : HubCaps
  mcps : List String
  agents : List String

/-- A job of the hub; the path is that of the envelope in its body. -/
structure Job where
  kind : String
  aliasName : String
  ref : String
  path : String

/-- What becomes of a job: a refusal, a call of the own handler, of an MCP server, a card of an
agent, or a call of an agent. -/
inductive JobFate
  | refused (status : ℕ) (body : String)
  | relayed
  | mcp (row : MCPUpstream)
  | card (agent : A2AUpstream)
  | agent (target : String)

/-- The job is executed. -/
def JobFate.executed : JobFate → Bool
  | refused _ _ => false
  | _ => true

section Requests

variable (text : TextLibrary)

/-- `MergeMedia`. -/
def mergeMedia (parts : List (List String)) : List String :=
  parseMedia text (join parts.flatten ",")

namespace SharedStore

variable {text} (store : SharedStore text)

/-- `Store.ListModels`. -/
def listModels : List Model :=
  orderBy (·.aliasName) store.models.models

/-- `Store.ListSharedMCP`. -/
def listSharedMCP : List MCPUpstream :=
  orderBy (fun row => toLex (row.name, row.id)) (store.mcps.rows.filter fun row =>
    row.enabled && row.hubShare)

/-- `Store.ListSharedA2A`. -/
def listSharedA2A : List A2AUpstream :=
  orderBy (fun row => toLex (row.name, row.id)) (store.agents.agents.filter fun row =>
    row.enabled && row.hubShare)

/-- `Store.MCPUpstream`. -/
def mcpUpstream (name : String) : Option MCPUpstream :=
  store.mcps.getMCPByName text name

end SharedStore

/-- `Client.announce`: the request that it sends. -/
def announce {text : TextLibrary} (store : SharedStore text) (settings : HubSettings) :
    AnnounceReq where
  name := if settings.name = "" then "mikrollm" else settings.name
  aliases := (store.listModels.filter fun model =>
      model.enabled && model.hubShare &&
        !(model.aliasName = hubAutoAlias && model.hubNodeID ≠ "" || model.aliasName = hubAutoAlias)).map
    fun model => ⟨model.aliasName, mergeMedia text [model.media,
      inferMedia text model.aliasName [], inferMedia text model.upstreamName []], model.maxContext⟩
  schedule := if settings.schedule.enabled then some settings.schedule else none
  caps := settings.caps.norm
  mcps :=
    if settings.enabled && settings.shareMCP then
      (store.listSharedMCP.filter fun row => row.enabled && row.hubShare && row.name ≠ "").map
        (·.name)
    else []
  agents :=
    if settings.enabled && settings.shareA2A then
      (store.listSharedA2A.filter fun row => row.enabled && row.hubShare && row.name ≠ "").map
        (·.name)
    else []

/-- `a2aproxy.IsCard`. -/
def isCard (path : String) : Bool :=
  let chars := (path.toList.dropWhile (· = '/')).rdropWhile (· = '/')
  String.ofList chars = ".well-known/agent-card.json" || String.ofList chars = ".well-known/agent.json"

/-- `a2aproxy.Join`. -/
def join (base rest : String) : Option String :=
  let rest := trimSpace rest
  if contains rest ".." || contains rest "://" || rest.toList.any (· ∈ ['\\', '?', '#']) then none
  else
    let base := trimRight (trimSpace base) '/'
    let rest := String.ofList ((rest.toList.dropWhile (· = '/')).rdropWhile (· = '/'))
    if rest = "" then if base = "" then none else some base
    else some (base ++ "/" ++ rest)

/-- A refusal with its text. -/
def refuse (status : ℕ) (message : String) : JobFate :=
  .refused status ("\x7b\"error\":\"" ++ message ++ "\"\x7d")

variable {text} (store : SharedStore text) (settings : HubSettings) (now : Instant)

/-- `Client.aliasShared`. -/
def aliasShared (name : String) : Bool :=
  store.listModels.any fun model => model.aliasName = name && model.enabled && model.hubShare

/-- `Client.runMCP`, up to the call of the server. -/
def runMCP (job : Job) : JobFate :=
  if !settings.enabled || !settings.shareMCP then refuse 404 "mcp not shared"
  else if !settings.schedule.sharingAt now then refuse 503 "sharing window closed"
  else
    match store.mcpUpstream job.aliasName with
    | some row => if row.enabled && row.hubShare then .mcp row else refuse 404 "mcp not shared"
    | none => refuse 404 "mcp not shared"

/-- `Client.runA2A`, up to the call of the agent. -/
def runA2A (job : Job) : JobFate :=
  if !settings.enabled || !settings.shareA2A then refuse 404 "agent not shared"
  else if !settings.schedule.sharingAt now then refuse 503 "sharing window closed"
  else
    match store.agents.getA2AByName text job.aliasName with
    | some row =>
        if row.enabled && row.hubShare then
          if isCard job.path then .card row
          else
            match Hub.join row.url job.path with
            | some target => .agent target
            | none => refuse 404 "agent not shared"
        else refuse 404 "agent not shared"
    | none => refuse 404 "agent not shared"

/-- `Client.runJob`, up to the call. -/
def runJob (job : Job) : JobFate :=
  if job.kind = "mcp" then runMCP store settings now job
  else if job.kind = "a2a" then runA2A store settings now job
  else if !aliasShared store job.aliasName then
    .refused 404 "\x7b\"error\":\x7b\"message\":\"alias not shared\"\x7d\x7d"
  else if !settings.schedule.sharingAt now then
    .refused 503 "\x7b\"error\":\x7b\"message\":\"sharing window closed\"\x7d\x7d"
  else .relayed

/-- The name of a job is in the list for its kind. -/
def Published (request : AnnounceReq) (job : Job) : Prop :=
  if job.kind = "mcp" then job.aliasName ∈ request.mcps
  else if job.kind = "a2a" then job.aliasName ∈ request.agents
  else job.aliasName ∈ request.aliases.map (·.aliasName)

/-- An agent takes a job with this path: it is asked for its card, or the path joins its URL. -/
def takesPath (agent : A2AUpstream) (path : String) : Bool :=
  isCard path || (Hub.join agent.url path).isSome

/-- Both sides treat the job alike: no model shares the reserved alias, a server is named as in its
row, and an agent is named as in its row exactly when it takes the path. -/
def agrees (job : Job) : Bool :=
  if job.kind = "mcp" then
    !settings.shareMCP || (store.mcpUpstream job.aliasName).all fun row =>
      !(row.enabled && row.hubShare) || row.name = job.aliasName
  else if job.kind = "a2a" then
    !settings.shareA2A || (store.agents.getA2AByName text job.aliasName).all fun row =>
      !(row.enabled && row.hubShare) || takesPath row job.path = decide (row.name = job.aliasName)
  else job.aliasName ≠ hubAutoAlias || !aliasShared store hubAutoAlias

end Requests

section Agreement

variable {text : TextLibrary} {store : SharedStore text} {settings : HubSettings} {now : Instant}

theorem name_ne_empty {name slug : String} (normal : normalizeMCPName text name = some slug) :
    slug ≠ "" := by
  unfold normalizeMCPName at normal
  simp only at normal
  split at normal
  · rename_i isSlug
    cases normal
    rintro blank
    rw [blank] at isSlug
    exact absurd isSlug (by decide)
  · exact nomatch normal

/-- The names of agents are in normal form after each save. -/
theorem saveA2A_normal {tables saved : A2ATables} {parse : String → Option ParsedURL}
    {agent : A2AUpstream} {id : AgentId}
    (lower : ∀ slug, mcpNameRE slug = true → text.toLower slug = slug)
    (normal : ∀ row ∈ tables.agents, normalizeMCPName text row.name = some row.name)
    (saves : A2ATables.saveA2A text parse tables agent = .ok (saved, id)) :
    ∀ row ∈ saved.agents, normalizeMCPName text row.name = some row.name := by
  intro row listed
  rcases A2ATables.saveA2A_agents saves row listed with old | ⟨named, _⟩
  · exact normal row old
  · exact normalizeMCPName_normal lower named

/-- So are those of servers. -/
theorem saveMCP_normal {table saved : MCPTable} {parse : String → Option ParsedURL}
    {upstream : MCPUpstream} {id : ℕ}
    (lower : ∀ slug, mcpNameRE slug = true → text.toLower slug = slug)
    (normal : ∀ row ∈ table.rows, normalizeMCPName text row.name = some row.name)
    (saves : table.saveMCP text parse upstream = .ok (saved, id)) :
    ∀ row ∈ saved.rows, normalizeMCPName text row.name = some row.name := by
  intro row listed
  rcases MCPTable.saveMCP_rows saves row listed with old | named
  · exact normal row old
  · exact normalizeMCPName_normal lower named

theorem mem_announce_aliases {name : String} :
    name ∈ (announce store settings).aliases.map (·.aliasName) ↔
      name ≠ hubAutoAlias ∧ aliasShared store name = true := by
  simp only [announce, List.map_map, List.mem_map, List.mem_filter, aliasShared,
    SharedStore.listModels, List.any_eq_true, mem_orderBy]
  constructor
  · rintro ⟨model, ⟨listed, shared⟩, rfl⟩
    simp only [Function.comp_apply, Bool.and_eq_true, Bool.not_eq_true', Bool.or_eq_false_iff,
      decide_eq_false_iff_not] at shared ⊢
    exact ⟨shared.2.2, model, listed, by simp [shared.1]⟩
  · rintro ⟨notAuto, model, listed, shared⟩
    simp only [Bool.and_eq_true, decide_eq_true_eq] at shared
    refine ⟨model, ⟨listed, ?_⟩, shared.1.1⟩
    simp [shared.1.1, shared.1.2, shared.2, notAuto]

/-- The list has the names of the servers that are shared, and looking one up finds its row. -/
theorem mem_announce_mcps {name : String} (member : settings.enabled = true) :
    name ∈ (announce store settings).mcps ↔ settings.shareMCP = true ∧
      ∃ row, store.mcpUpstream name = some row ∧ row.name = name ∧ row.enabled = true ∧
        row.hubShare = true := by
  have lookup : ∀ row ∈ store.mcps.rows, store.mcpUpstream row.name = some row := by
    intro row listed
    rw [SharedStore.mcpUpstream, MCPTable.getMCPByName, store.mcps_normal row listed,
      Option.bind_some]
    cases finds : store.mcps.rows.find? (·.name = row.name) with
    | none => simpa using List.find?_eq_none.mp finds row listed
    | some found =>
        have sameName : found.name = row.name := by simpa using List.find?_some finds
        rw [List.inj_on_of_nodup_map store.mcps.name_nodup (List.mem_of_find?_eq_some finds) listed
          sameName]
  by_cases shares : settings.shareMCP = true
  · simp only [announce, member, shares, Bool.and_self, if_true, true_and, List.mem_map,
      List.mem_filter, SharedStore.listSharedMCP, mem_orderBy, Bool.and_eq_true,
      decide_eq_true_eq]
    constructor
    · rintro ⟨row, ⟨⟨listed, isShared⟩, _⟩, rfl⟩
      exact ⟨row, lookup row listed, rfl, isShared⟩
    · rintro ⟨row, finds, rfl, isShared⟩
      rcases Option.bind_eq_some_iff.mp finds with ⟨slug, normal, found⟩
      have listed := List.mem_of_find?_eq_some found
      exact ⟨row, ⟨⟨listed, isShared⟩, isShared, name_ne_empty (store.mcps_normal row listed)⟩, rfl⟩
  · simp [announce, member, shares]

theorem mem_announce_agents {name : String} (member : settings.enabled = true) :
    name ∈ (announce store settings).agents ↔ settings.shareA2A = true ∧
      ∃ row, store.agents.getA2AByName text name = some row ∧ row.name = name ∧
        row.enabled = true ∧ row.hubShare = true := by
  have lookup : ∀ row ∈ store.agents.agents,
      store.agents.getA2AByName text row.name = some row := by
    intro row listed
    rw [A2ATables.getA2AByName, store.agents_normal row listed, Option.bind_some]
    cases finds : store.agents.agents.find? (·.name = row.name) with
    | none => simpa using List.find?_eq_none.mp finds row listed
    | some found =>
        have sameName : found.name = row.name := by simpa using List.find?_some finds
        rw [A2ATables.agent_ext_name (List.mem_of_find?_eq_some finds) listed sameName]
  by_cases shares : settings.shareA2A = true
  · simp only [announce, member, shares, Bool.and_self, if_true, true_and, List.mem_map,
      List.mem_filter, SharedStore.listSharedA2A, mem_orderBy, Bool.and_eq_true,
      decide_eq_true_eq]
    constructor
    · rintro ⟨row, ⟨⟨listed, isShared⟩, _⟩, rfl⟩
      exact ⟨row, lookup row listed, rfl, isShared⟩
    · rintro ⟨row, finds, rfl, isShared⟩
      have listed := A2ATables.mem_of_getA2AByName finds
      exact ⟨row, ⟨⟨listed, isShared⟩, isShared, name_ne_empty (store.agents_normal row listed)⟩,
        rfl⟩
  · simp [announce, member, shares]

/-- A job for a server runs when the name leads to a row that is shared. -/
theorem runMCP_executed {job : Job} (member : settings.enabled = true)
    (sharing : settings.schedule.sharingAt now = true) :
    (runMCP store settings now job).executed = true ↔ settings.shareMCP = true ∧
      ∃ row, store.mcpUpstream job.aliasName = some row ∧ row.enabled = true ∧
        row.hubShare = true := by
  by_cases shares : settings.shareMCP = true
  · simp only [runMCP, member, shares, sharing, Bool.not_true, Bool.or_self, Bool.false_eq_true,
      if_false, true_and]
    cases store.mcpUpstream job.aliasName with
    | none => simp [refuse, JobFate.executed]
    | some row =>
        by_cases isShared : row.enabled = true ∧ row.hubShare = true
        · simp [isShared, JobFate.executed]
        · simp [isShared, refuse, JobFate.executed]
  · simp [runMCP, member, shares, refuse, JobFate.executed]

/-- A job for an agent runs when, besides, the agent takes the path. -/
theorem runA2A_executed {job : Job} (member : settings.enabled = true)
    (sharing : settings.schedule.sharingAt now = true) :
    (runA2A store settings now job).executed = true ↔ settings.shareA2A = true ∧
      ∃ row, store.agents.getA2AByName text job.aliasName = some row ∧ row.enabled = true ∧
        row.hubShare = true ∧ takesPath row job.path = true := by
  by_cases shares : settings.shareA2A = true
  · simp only [runA2A, member, shares, sharing, Bool.not_true, Bool.or_self, Bool.false_eq_true,
      if_false, true_and]
    cases store.agents.getA2AByName text job.aliasName with
    | none => simp [refuse, JobFate.executed]
    | some row =>
        by_cases isShared : row.enabled = true ∧ row.hubShare = true
        · by_cases card : isCard job.path = true
          · simp [isShared, card, takesPath, JobFate.executed]
          · cases joins : Hub.join row.url job.path with
            | none => simp [isShared, card, joins, takesPath, refuse, JobFate.executed]
            | some target => simp [isShared, card, joins, takesPath, JobFate.executed]
        · simp [isShared, refuse, JobFate.executed]
          tauto
  · simp [runA2A, member, shares, refuse, JobFate.executed]

/-- The two sides agree on a row that a name leads to exactly when a shared row has that name if and
only if it takes the job. -/
theorem shared_agrees {enabled hubShare named takes : Prop} :
    (enabled ∧ hubShare ∧ takes ↔ named ∧ enabled ∧ hubShare) ↔
      (enabled ∧ hubShare → (takes ↔ named)) := by
  constructor
  · rintro same ⟨isEnabled, isShared⟩
    exact ⟨fun taken => (same.mp ⟨isEnabled, isShared, taken⟩).1,
      fun isNamed => (same.mpr ⟨isNamed, isEnabled, isShared⟩).2.2⟩
  · intro same
    constructor
    · rintro ⟨isEnabled, isShared, taken⟩
      exact ⟨(same ⟨isEnabled, isShared⟩).mp taken, isEnabled, isShared⟩
    · rintro ⟨isNamed, isEnabled, isShared⟩
      exact ⟨isEnabled, isShared, (same ⟨isEnabled, isShared⟩).mpr isNamed⟩

/-- A job is executed exactly when its name is published, where both sides treat it alike, and
nowhere else. -/
theorem executes_iff_published (text : TextLibrary) (store : SharedStore text)
    (settings : HubSettings) (now : Instant) (job : Job) (member : settings.enabled = true)
    (sharing : settings.schedule.sharingAt now = true) :
    ((runJob store settings now job).executed = true ↔ Published (announce store settings) job) ↔
      agrees store settings job = true := by
  unfold runJob Published agrees
  by_cases isMCP : job.kind = "mcp"
  · simp only [if_pos isMCP]
    rw [runMCP_executed member sharing, mem_announce_mcps member]
    by_cases shares : settings.shareMCP = true
    · cases store.mcpUpstream job.aliasName with
      | none => simp [shares]
      | some row =>
          have same := @shared_agrees (row.enabled = true) (row.hubShare = true)
            (row.name = job.aliasName) True
          simp only [shares, Option.some.injEq, exists_eq_left', true_and, Bool.not_true,
            Bool.false_or, Option.all_some, Bool.or_eq_true, Bool.not_eq_true', decide_eq_true_eq,
            ← Bool.not_eq_true, Bool.and_eq_true, ← imp_iff_not_or]
          simpa only [and_true, true_iff] using same
    · simp [shares]
  · by_cases isA2A : job.kind = "a2a"
    · simp only [if_neg isMCP, if_pos isA2A]
      rw [runA2A_executed member sharing, mem_announce_agents member]
      by_cases shares : settings.shareA2A = true
      · cases store.agents.getA2AByName text job.aliasName with
        | none => simp [shares]
        | some row =>
            simp only [shares, Option.some.injEq, exists_eq_left', true_and, Bool.not_true,
              Bool.false_or, Option.all_some, Bool.or_eq_true, Bool.not_eq_true',
              ← Bool.not_eq_true, Bool.and_eq_true, ← imp_iff_not_or, decide_eq_true_eq]
            have decides : takesPath row job.path = decide (row.name = job.aliasName) ↔
                (takesPath row job.path = true ↔ row.name = job.aliasName) := by
              rw [Bool.eq_iff_iff, decide_eq_true_eq]
            rw [shared_agrees, decides]
      · simp [shares]
    · simp only [if_neg isMCP, if_neg isA2A]
      rw [mem_announce_aliases]
      by_cases isAuto : job.aliasName = hubAutoAlias
      · cases isShared : aliasShared store hubAutoAlias with
        | true => simp [isAuto, isShared, sharing, JobFate.executed]
        | false => simp [isAuto, isShared, JobFate.executed]
      · cases aliasShared store job.aliasName with
        | true => simp [isAuto, sharing, JobFate.executed]
        | false => simp [isAuto, JobFate.executed]

end Agreement

/-- An agent without a URL that only polls, shared with the hub. -/
def pollOnly : A2AUpstream where
  id := 1
  name := "helper"
  url := ""
  token := ""
  enabled := true
  hubShare := true
  displayName := "Helper"
  company := ""
  description := ""
  skills := []
  authHash := ""

def pollOnlyStore : SharedStore asciiText where
  models := ⟨[], [], by decide, by decide, by decide, by simp⟩
  mcps := ⟨[], 1, by decide, by decide, by simp⟩
  agents := ⟨[pollOnly], [], [], [], 2, 1, by decide, by decide, by decide, by decide, by decide,
    by decide, by decide, by simp⟩
  mcps_normal := by simp
  agents_normal := by
    intro row listed
    rw [List.mem_singleton.mp listed]
    decide +kernel

/-- A member of the hub that shares at any time. -/
def sharingSettings : HubSettings where
  enabled := true
  nodeID := "node"
  token := "token"
  name := "mikrollm"
  schedule := ⟨false, [], "", "", ""⟩
  caps := ⟨4, 2, 1⟩
  shareMCP := true
  shareA2A := true

def noon : Instant where
  loadLocation := fun _ => true
  atZone := fun _ => ⟨1, 12, 0⟩

theorem executes_iff_published_card :
    ((runJob pollOnlyStore sharingSettings noon
        ⟨"a2a", "helper", "", ".well-known/agent.json"⟩).executed = true ↔
      Published (announce pollOnlyStore sharingSettings)
        ⟨"a2a", "helper", "", ".well-known/agent.json"⟩) :=
  (executes_iff_published asciiText pollOnlyStore sharingSettings noon
    ⟨"a2a", "helper", "", ".well-known/agent.json"⟩ rfl rfl).mpr (by decide +kernel)

/-- A message for the agent that only polls is answered that the agent is not shared. -/
theorem not_executes_iff_published :
    ¬ ∀ (text : TextLibrary) (store : SharedStore text) (settings : HubSettings) (now : Instant)
      (job : Job), settings.enabled = true → settings.schedule.sharingAt now = true →
      ((runJob store settings now job).executed = true ↔
        Published (announce store settings) job) := by
  intro claim
  have published : Published (announce pollOnlyStore sharingSettings) ⟨"a2a", "helper", "", ""⟩ := by
    simp only [Published]
    decide
  have executed := (claim asciiText pollOnlyStore sharingSettings noon ⟨"a2a", "helper", "", ""⟩
    rfl rfl).mpr published
  exact absurd executed (by decide +kernel)

end MikroLLM.Hub
