import Mathlib.Data.List.Sort
import MikroLLM.Domain.Gateway

/-!
# Models and backends in the store

The tables `models`, `model_backends` and `backends` and the queries the proxy
makes on them. A model row carries its backends.
-/

namespace MikroLLM.Store

open Domain

/-- The models and backends, with the keys the schema enforces. `AUTOINCREMENT` counts from
one. -/
structure ModelTables where
  models : List Model
  backends : List Backend
  models_id_nodup : (models.map (·.id)).Nodup
  models_alias_nodup : (models.map (·.aliasName)).Nodup
  backends_id_nodup : (backends.map (·.id)).Nodup
  backends_id_pos : ∀ backend ∈ backends, 0 < backend.id

namespace ModelTables

theorem backends_pos_nil : ∀ backend ∈ ([] : List Backend), 0 < backend.id := by
  simp

variable (tables : ModelTables)

/-- The tables with other models. -/
def setModels (models : List Model) (ids : (models.map (·.id)).Nodup)
    (names : (models.map (·.aliasName)).Nodup) : ModelTables :=
  { tables with models := models, models_id_nodup := ids, models_alias_nodup := names }

/-- `Store.GetModelByAlias`. -/
def getModelByAlias (name : String) : Option Model :=
  tables.models.find? (·.aliasName = name)

/-- `Store.GetBackend`. -/
def getBackend (id : BackendId) : Option Backend :=
  tables.backends.find? (·.id = id)

/-- `Store.ListBackends`, ordered by id. -/
def listBackends : List Backend :=
  tables.backends.insertionSort (·.id ≤ ·.id)

variable {tables}

theorem getModelByAlias_aliasName {name : String} {model : Model}
    (found : tables.getModelByAlias name = some model) : model.aliasName = name := by
  simpa using List.find?_some found

theorem mem_of_getBackend {id : BackendId} {backend : Backend}
    (found : tables.getBackend id = some backend) : backend ∈ tables.backends :=
  List.mem_of_find?_eq_some found

theorem getBackend_id {id : BackendId} {backend : Backend}
    (found : tables.getBackend id = some backend) : backend.id = id := by
  simpa using List.find?_some found

@[simp]
theorem mem_listBackends {backend : Backend} :
    backend ∈ tables.listBackends ↔ backend ∈ tables.backends := by
  simp [listBackends]

theorem getBackend_of_mem {backend : Backend} (inside : backend ∈ tables.backends) :
    tables.getBackend backend.id = some backend := by
  cases found : tables.getBackend backend.id with
  | none => simpa using List.find?_eq_none.mp found backend inside
  | some other =>
      have sameId := getBackend_id found
      rw [List.inj_on_of_nodup_map tables.backends_id_nodup (mem_of_getBackend found) inside sameId]

end ModelTables

end MikroLLM.Store
