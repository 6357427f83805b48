import Mathlib.Data.List.Sort
import MikroLLM.Domain.Security
import MikroLLM.Go.Strings

/-!
# Guard policies in the store

The tables `security_policies` and `security_targets`, and the query that finds
the policies of a request.
-/

namespace MikroLLM.Store

open Domain Go

/-- The policies and what they are attached to. -/
structure PolicyTables where
  policies : List Policy
  targets : List (PolicyId × GuardTarget × String)
  policies_id_nodup : (policies.map (·.id)).Nodup

namespace PolicyTables

variable (tables : PolicyTables)

/-- A policy is attached to this alias, queue or upstream model. -/
def targeted (policy : Policy) (target : GuardTarget) (name : String) : Bool :=
  trimSpace name ≠ "" && (policy.id, target, trimSpace name) ∈ tables.targets

/-- `Store.PoliciesFor`. -/
def policiesFor (aliasName queueAlias upstream : String) : List Policy :=
  (tables.policies.insertionSort (·.id ≤ ·.id)).filter fun policy =>
    policy.enabled && (tables.targeted policy .aliasName aliasName ||
      tables.targeted policy .queue queueAlias || tables.targeted policy .model upstream)

variable {tables}

theorem mem_policiesFor {aliasName queueAlias upstream : String} {policy : Policy} :
    policy ∈ tables.policiesFor aliasName queueAlias upstream ↔
      policy ∈ tables.policies ∧ policy.enabled = true ∧
        (tables.targeted policy .aliasName aliasName = true ∨
          tables.targeted policy .queue queueAlias = true ∨
          tables.targeted policy .model upstream = true) := by
  simp [policiesFor, or_assoc]

theorem policiesFor_id_nodup (aliasName queueAlias upstream : String) :
    ((tables.policiesFor aliasName queueAlias upstream).map (·.id)).Nodup := by
  have sorted : ((tables.policies.insertionSort (·.id ≤ ·.id)).map (·.id)).Nodup :=
    ((List.perm_insertionSort _ _).map _).nodup_iff.mpr tables.policies_id_nodup
  exact sorted.sublist (List.filter_sublist.map _)

end PolicyTables

end MikroLLM.Store
