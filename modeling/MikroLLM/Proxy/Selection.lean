import Mathlib.Tactic.Tauto
import MikroLLM.Proxy.Pick

/-!
# Which backend is chosen

An alias is meant to be served by the backends bound to it. When all of them are
down `pick` goes on to its second pass, which is the one for names without an
alias, and takes any backend that offers a model of the alias's name.
-/

namespace MikroLLM.Proxy

open Domain Store Go

/-- The enabled alias of this name, when it is no alias of a hub node. -/
def localModel (snapshot : Snapshot) (name : String) : Option Model :=
  (snapshot.models.getModelByAlias name).filter fun model =>
    model.enabled && model.hubNodeID = ""

/-- A backend that is bound to the model, enabled and healthy. -/
def Available (snapshot : Snapshot) (model : Model) (backend : Backend) : Prop :=
  backend ∈ snapshot.models.backends ∧ backend.id ∈ model.backendIds ∧
    backend.enabled = true ∧ snapshot.healthy backend.id = true

/-- `pick` chooses for an alias among its own backends, and without an alias among the healthy
backends that offer the upstream name. -/
structure SelectsBackend (snapshot : Snapshot) (name : String) : Prop where
  bound : ∀ model, localModel snapshot name = some model →
    (∃ backend, Available snapshot model backend) →
      ∃ backend, Available snapshot model backend ∧
        pick snapshot name = .ok (backend, model.upstreamName)
  down : ∀ model, localModel snapshot name = some model →
    (∀ backend, ¬Available snapshot model backend) →
      ∃ message, pick snapshot name = .error message
  other : localModel snapshot name = none → ∀ backend upstream,
    pick snapshot name = .ok (backend, upstream) → backend ∈ snapshot.models.backends →
      backend.enabled = true ∧ snapshot.healthy backend.id = true ∧
        (snapshot.served backend.id = [] ∨ upstream ∈ snapshot.served backend.id)

/-- No enabled and healthy backend may serve this name, and no online hub node offers it. -/
def NobodyOffers (snapshot : Snapshot) (name : String) : Prop :=
  (∀ backend ∈ snapshot.models.backends, backend.enabled = true →
    snapshot.healthy backend.id = true →
      snapshot.served backend.id ≠ [] ∧ name ∉ snapshot.served backend.id) ∧
    ∀ entry ∈ snapshot.catalog, entry.hubNodeID ≠ "" → entry.hubOnline = true → entry.name ≠ name

section Candidates

variable {snapshot : Snapshot} {name upstream policy : String} {model : Model} {backend : Backend}

theorem leastConn_mem (conns : BackendId → ℤ) (best : Backend) (rest : List Backend) :
    leastConn conns best rest ∈ best :: rest := by
  induction rest generalizing best with
  | nil => simp [leastConn]
  | cons next rest ih =>
      have later := ih (if conns next.id < conns best.id then next else best)
      simp only [leastConn, List.foldl_cons, List.mem_cons] at later ⊢
      rcases later with chosen | inside
      · split at chosen
        · right
          left
          simp [*]
        · left
          simp [*]
      · right
        right
        exact inside

theorem choose_mem (snapshot : Snapshot) (policy : String) (first : Backend)
    (rest : List Backend) : choose snapshot policy first rest ∈ first :: rest := by
  simp only [choose]
  split
  · have inRange : snapshot.turns % (rest.length + 1) < (first :: rest).length := by
      rw [List.length_cons]
      apply Nat.mod_lt
      omega
    rw [List.getElem?_eq_getElem inRange]
    exact List.getElem_mem inRange
  · split
    · exact List.mem_cons_self
    · exact leastConn_mem _ _ _

theorem mem_boundCandidates :
    backend ∈ boundCandidates snapshot model ↔ Available snapshot model backend := by
  simp only [boundCandidates, Available, List.mem_filter, List.mem_filterMap, Bool.and_eq_true]
  constructor
  · rintro ⟨⟨id, bound, found⟩, enabled, healthy⟩
    refine ⟨ModelTables.mem_of_getBackend found, ?_, enabled, healthy⟩
    rw [ModelTables.getBackend_id found]
    exact bound
  · rintro ⟨inside, bound, enabled, healthy⟩
    exact ⟨⟨backend.id, bound, ModelTables.getBackend_of_mem inside⟩, enabled, healthy⟩

theorem mem_nameCandidates :
    backend ∈ nameCandidates snapshot name ↔
      backend ∈ snapshot.models.backends ∧ backend.enabled = true ∧
        snapshot.healthy backend.id = true ∧
          (snapshot.served backend.id = [] ∨ name ∈ snapshot.served backend.id) := by
  simp only [nameCandidates, Snapshot.hasModel, List.mem_filter, ModelTables.mem_listBackends,
    Bool.and_eq_true, Bool.or_eq_true, List.isEmpty_iff, decide_eq_true_eq]
  tauto

theorem pickHubCatalog_eq_none :
    pickHubCatalog snapshot name = none ↔
      ∀ entry ∈ snapshot.catalog, entry.hubNodeID ≠ "" → entry.hubOnline = true →
        entry.name ≠ name := by
  simp [pickHubCatalog, List.find?_eq_none]

theorem nobodyOffers_iff :
    NobodyOffers snapshot name ↔
      nameCandidates snapshot name = [] ∧ pickHubCatalog snapshot name = none := by
  rw [NobodyOffers, pickHubCatalog_eq_none, List.eq_nil_iff_forall_not_mem]
  apply and_congr_left
  intro _
  apply forall_congr'
  intro backend
  rw [mem_nameCandidates]
  tauto

/-- The second pass answers with an error exactly when nobody offers the name. -/
theorem pickByName_error_iff :
    (∃ message, pickByName snapshot name upstream policy = .error message) ↔
      snapshot.models.backends = [] ∨ NobodyOffers snapshot name := by
  have emptyList : snapshot.models.listBackends = [] ↔ snapshot.models.backends = [] := by
    simp [List.eq_nil_iff_forall_not_mem]
  rw [nobodyOffers_iff]
  simp only [pickByName, List.isEmpty_iff, emptyList]
  split
  · simp [*]
  · rename_i configured
    split
    · simp [*]
    · rename_i none
      split
      · simp [*]
      · simp [*]

theorem localModel_eq_some :
    localModel snapshot name = some model ↔
      snapshot.models.getModelByAlias name = some model ∧ model.enabled = true ∧
        model.hubNodeID = "" := by
  simp [localModel, Option.filter_eq_some_iff]

theorem hubName_eq_none (plain : hasPrefix name "hub|" = false) : hubName name = none := by
  simp [hubName, plain]

theorem pick_of_localModel (plain : hasPrefix name "hub|" = false)
    (served : localModel snapshot name = some model) :
    pick snapshot name =
      match boundCandidates snapshot model with
      | first :: rest => .ok (choose snapshot
          (if model.lbPolicy ≠ "" then model.lbPolicy else "least_conn") first rest,
            model.upstreamName)
      | [] => pickByName snapshot name model.upstreamName
          (if model.lbPolicy ≠ "" then model.lbPolicy else "least_conn") := by
  rcases localModel_eq_some.mp served with ⟨found, enabled, notHub⟩
  simp only [pick, hubName_eq_none plain, found, enabled, notHub, hubAutoRouter]
  cases boundCandidates snapshot model with
  | nil => rfl
  | cons first rest => rfl

end Candidates

section Selection

variable {snapshot : Snapshot} {name : String}

theorem pick_available {model : Model} (plain : hasPrefix name "hub|" = false)
    (served : localModel snapshot name = some model)
    (available : ∃ backend, Available snapshot model backend) :
    ∃ backend, Available snapshot model backend ∧
      pick snapshot name = .ok (backend, model.upstreamName) := by
  rw [pick_of_localModel plain served]
  rcases available with ⟨backend, isAvailable⟩
  cases bound : boundCandidates snapshot model with
  | nil =>
      have inside := mem_boundCandidates.mpr isAvailable
      rw [bound] at inside
      cases inside
  | cons first rest =>
      refine ⟨_, ?_, rfl⟩
      rw [← mem_boundCandidates, bound]
      apply choose_mem

theorem pick_unavailable {model : Model} (plain : hasPrefix name "hub|" = false)
    (served : localModel snapshot name = some model)
    (down : ∀ backend, ¬Available snapshot model backend) :
    (∃ message, pick snapshot name = .error message) ↔
      snapshot.models.backends = [] ∨ NobodyOffers snapshot name := by
  have none : boundCandidates snapshot model = [] := by
    rw [List.eq_nil_iff_forall_not_mem]
    intro backend inside
    exact down backend (mem_boundCandidates.mp inside)
  rw [pick_of_localModel plain served, none]
  exact pickByName_error_iff

theorem hubBackend_not_mem (node nodeName : String) :
    hubBackend node nodeName ∉ snapshot.models.backends := by
  intro inside
  have positive := snapshot.models.backends_id_pos _ inside
  simp [hubBackend] at positive

theorem pickByName_row {upstream policy : String} {backend : Backend} {sent : String}
    (picked : pickByName snapshot name upstream policy = .ok (backend, sent))
    (row : backend ∈ snapshot.models.backends) :
    sent = upstream ∧ backend ∈ nameCandidates snapshot name := by
  simp only [pickByName] at picked
  split at picked
  · cases picked
  · split at picked
    · rename_i first rest candidates
      cases picked
      rw [candidates]
      exact ⟨rfl, choose_mem _ _ _ _⟩
    · split at picked
      · rename_i hub found
        cases picked
        simp only [pickHubCatalog, Option.map_eq_some_iff, Prod.mk.injEq] at found
        rcases found with ⟨entry, _, rfl, _⟩
        exact absurd row (hubBackend_not_mem _ _)
      · cases picked

theorem pick_other (plain : hasPrefix name "hub|" = false)
    (noLocal : localModel snapshot name = none) {backend : Backend} {upstream : String}
    (picked : pick snapshot name = .ok (backend, upstream))
    (row : backend ∈ snapshot.models.backends) :
    backend.enabled = true ∧ snapshot.healthy backend.id = true ∧
      (snapshot.served backend.id = [] ∨ upstream ∈ snapshot.served backend.id) := by
  have byName {policy : String}
      (found : pickByName snapshot name name policy = .ok (backend, upstream)) :
      backend.enabled = true ∧ snapshot.healthy backend.id = true ∧
        (snapshot.served backend.id = [] ∨ upstream ∈ snapshot.served backend.id) := by
    rcases pickByName_row found row with ⟨rfl, candidate⟩
    exact (mem_nameCandidates.mp candidate).2
  simp only [pick, hubName_eq_none plain] at picked
  split at picked
  · rename_i model found
    split at picked
    · exact byName picked
    · rename_i enabled
      split at picked
      · cases picked
        exact absurd row (hubBackend_not_mem _ _)
      · split at picked
        · cases picked
          exact absurd row (hubBackend_not_mem _ _)
        · rename_i notHub
          have isLocal : localModel snapshot name = some model := by
            apply localModel_eq_some.mpr
            simp_all
          rw [noLocal] at isLocal
          cases isLocal
  · exact byName picked

/-- `pick` keeps to the backends of an alias exactly when one of them is up, or nobody else
offers a model of the alias's name. -/
theorem selectsBackend_iff (plain : hasPrefix name "hub|" = false) :
    SelectsBackend snapshot name ↔
      ∀ model, localModel snapshot name = some model →
        (∃ backend, Available snapshot model backend) ∨
          snapshot.models.backends = [] ∨ NobodyOffers snapshot name := by
  constructor
  · intro selects model served
    by_cases available : ∃ backend, Available snapshot model backend
    · left
      exact available
    · right
      rw [not_exists] at available
      exact (pick_unavailable plain served available).mp (selects.down model served available)
  · intro condition
    constructor
    · intro model served available
      exact pick_available plain served available
    · intro model served down
      rcases condition model served with ⟨backend, available⟩ | nobody
      · exact absurd available (down backend)
      · exact (pick_unavailable plain served down).mpr nobody
    · intro noLocal backend upstream picked row
      exact pick_other plain noLocal picked row

end Selection

/-- The alias `chat` for the model `qwen3` of one server. -/
def chatModel : Model :=
  ⟨1, "chat", "qwen3", "", true, [1], 0, "", "inherit", "", [], false, "", ""⟩

/-- That server, and another one. -/
def twoServers : ModelTables where
  models := [chatModel]
  backends := [⟨1, "mac-82", "http://192.168.88.82:11434", .ollama, "", true⟩,
    ⟨2, "mac-80", "http://192.168.88.80:11434", .ollama, "", true⟩]
  models_id_nodup := by decide
  models_alias_nodup := by decide
  backends_id_nodup := by decide
  backends_id_pos := by decide

/-- No policy. -/
def noPolicies : PolicyTables where
  policies := []
  targets := []
  policies_id_nodup := by decide

/-- The second of the two servers has a model that is called like the alias of the first. -/
def twoServersUp (firstUp : Bool) : Snapshot where
  models := twoServers
  policies := noPolicies
  healthy := fun id => if id = 1 then firstUp else true
  served := fun id => if id = 1 then ["qwen3"] else ["chat"]
  conns := fun _ => 0
  catalog := []
  turns := 0
  promptCacheMode := "auto"
  hubURL := ""

theorem selectsBackend_iff_twoServers :
    SelectsBackend (twoServersUp true) "chat" ↔
      ∀ model, localModel (twoServersUp true) "chat" = some model →
        (∃ backend, Available (twoServersUp true) model backend) ∨
          (twoServersUp true).models.backends = [] ∨ NobodyOffers (twoServersUp true) "chat" :=
  selectsBackend_iff (by decide)

/-- With its own server down, the alias is served by the other one, which is asked for a model
it does not have. -/
theorem not_selectsBackend :
    ¬∀ snapshot name, hasPrefix name "hub|" = false → SelectsBackend snapshot name := by
  intro claim
  have selects := claim (twoServersUp false) "chat" (by decide)
  have isLocal : localModel (twoServersUp false) "chat" = some chatModel := by
    decide
  have down : ∀ backend, ¬Available (twoServersUp false) chatModel backend := by
    rintro backend ⟨_, bound, _, healthy⟩
    simp only [chatModel, List.mem_singleton] at bound
    simp [twoServersUp, bound] at healthy
  rcases selects.down _ isLocal down with ⟨message, picked⟩
  have other : pick (twoServersUp false) "chat" =
      .ok (⟨2, "mac-80", "http://192.168.88.80:11434", .ollama, "", true⟩, "qwen3") := by
    rfl
  rw [other] at picked
  cases picked

end MikroLLM.Proxy
