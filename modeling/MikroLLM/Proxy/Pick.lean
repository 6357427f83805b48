import MikroLLM.Go.Text
import MikroLLM.Store.Models
import MikroLLM.Store.Security

/-!
# Choosing a backend

`pick` and the functions around it. They read the store and the health checker;
what these answer at one moment is a `Snapshot`.
-/

namespace MikroLLM.Proxy

open Domain Store Go

/-- What the proxy reads at one moment: the tables, the health states, the number of open
connections, the catalog, and the turns that `round_robin` has taken. -/
structure Snapshot where
  models : ModelTables
  policies : PolicyTables
  healthy : BackendId → Bool
  served : BackendId → List String
  conns : BackendId → ℤ
  catalog : List CatalogEntry
  turns : ℕ
  promptCacheMode : String
  hubURL : String

/-- `Checker.HasModel`. A healthy backend whose model list did not load may serve any model. -/
def Snapshot.hasModel (snapshot : Snapshot) (id : BackendId) (name : String) : Bool :=
  snapshot.healthy id && ((snapshot.served id).isEmpty || name ∈ snapshot.served id)

/-- `hubBackend`: a hub node in the place of a backend. It is no row of the store. -/
def hubBackend (nodeID nodeName : String) : Backend where
  id := 0
  name := if nodeName = "" then nodeID else nodeName
  baseURL := nodeID
  kind := .hub
  token := ""
  enabled := false

/-- The node and the model of a name `hub|node|model`. -/
def hubName (name : String) : Option (String × String) :=
  if hasPrefix name "hub|" then
    let rest := (trimPrefix name "hub|").toList
    match rest.span (· ≠ '|') with
    | (node, _ :: upstream) =>
        if node.isEmpty then none else some (String.ofList node, String.ofList upstream)
    | (_, []) => none
  else none

/-- The backend with the fewest open connections, the first of several. -/
def leastConn (conns : BackendId → ℤ) (best : Backend) (rest : List Backend) : Backend :=
  rest.foldl (fun least next => if conns next.id < conns least.id then next else least) best

/-- `choose`, for a list that is not empty. -/
def choose (snapshot : Snapshot) (policy : String) (first : Backend) (rest : List Backend) :
    Backend :=
  if policy = "round_robin" then
    ((first :: rest)[snapshot.turns % (rest.length + 1)]?).getD first
  else if policy = "failover" then first
  else leastConn snapshot.conns first rest

/-- The backends bound to a model that are enabled and healthy. -/
def boundCandidates (snapshot : Snapshot) (model : Model) : List Backend :=
  (model.backendIds.filterMap snapshot.models.getBackend).filter fun backend =>
    backend.enabled && snapshot.healthy backend.id

/-- The enabled and healthy backends that may serve a name. -/
def nameCandidates (snapshot : Snapshot) (name : String) : List Backend :=
  snapshot.models.listBackends.filter fun backend =>
    backend.enabled && snapshot.healthy backend.id &&
      (snapshot.hasModel backend.id name || (snapshot.served backend.id).isEmpty)

/-- `pickHubCatalog`: the first online hub node that offers this name. -/
def pickHubCatalog (snapshot : Snapshot) (name : String) : Option (Backend × String) :=
  (snapshot.catalog.find? fun entry =>
    entry.hubNodeID ≠ "" && entry.hubOnline && entry.name = name).map fun entry =>
      (hubBackend entry.hubNodeID entry.hubNodeName, entry.name)

/-- The second pass of `pick`, with the upstream name and the policy of the first. -/
def pickByName (snapshot : Snapshot) (name upstream policy : String) :
    Except String (Backend × String) :=
  if snapshot.models.listBackends.isEmpty then .error "no backends configured"
  else
    match nameCandidates snapshot name with
    | first :: rest => .ok (choose snapshot policy first rest, upstream)
    | [] =>
        match pickHubCatalog snapshot name with
        | some hub => .ok hub
        | none => .error ("no healthy backend for model " ++ name)

/-- `pick`. -/
def pick (snapshot : Snapshot) (name : String) : Except String (Backend × String) :=
  match hubName name with
  | some (node, upstream) => .ok (hubBackend node "", upstream)
  | none =>
      match snapshot.models.getModelByAlias name with
      | some model =>
          if !model.enabled then pickByName snapshot name name "least_conn"
          else if model.hubNodeID = hubAutoRouter then .ok (hubBackend "auto" "auto", hubAutoAlias)
          else if model.hubNodeID ≠ "" then
            .ok (hubBackend model.hubNodeID model.hubNodeName, model.upstreamName)
          else
            let policy := if model.lbPolicy ≠ "" then model.lbPolicy else "least_conn"
            match boundCandidates snapshot model with
            | first :: rest => .ok (choose snapshot policy first rest, model.upstreamName)
            | [] => pickByName snapshot name model.upstreamName policy
      | none => pickByName snapshot name name "least_conn"

/-- `fallbackOf`. -/
def fallbackOf (snapshot : Snapshot) (name : String) : Option String :=
  (snapshot.models.getModelByAlias name).bind fun model =>
    let fallback := trimSpace model.fallback
    if fallback = "" ∨ fallback = name then none else some fallback

/-- The first catalog entry under the first of the names that has one. -/
def catalogMeta (snapshot : Snapshot) (names : List String) : Option CatalogEntry :=
  names.findSome? fun name =>
    if name = "" then none else snapshot.catalog.find? (·.name = name)

/-- `catalogMeta(..).Provider`; an entry that does not exist has none. -/
def providerMeta (snapshot : Snapshot) (names : List String) : String :=
  ((catalogMeta snapshot names).map (·.provider)).getD ""

/-- `providerOf`. -/
def providerOf (snapshot : Snapshot) (backend : Backend) (name upstream : String) : String :=
  let provider := providerMeta snapshot [upstream, name]
  if provider ≠ "" then provider else backend.label

end MikroLLM.Proxy
