import MikroLLM.Domain.Gateway
import MikroLLM.Library.Gathering

/-!
# Contexts of the models of an Ollama server

A health probe asks an Ollama server for the contexts of its models, four times at
most, and remembers what it was told. A model that tells no context is asked again
by every probe, so four of them in front of a model keep it from ever being asked.
-/

namespace MikroLLM.Health

open Domain Library

/-- `contextKey`. -/
def contextKey (backend : BackendId) (name : String) : String :=
  toString backend ++ "/" ++ name

/-- The map `ctxCache`, zero where there is no entry. -/
abbrev ContextCache := String → ℤ

/-- `rememberContext`. -/
def rememberContext (cache : ContextCache) (backend : BackendId) (name : String) (n : ℤ) :
    ContextCache :=
  if n ≤ 0 then cache else Function.update cache (contextKey backend name) n

/-- The variables of `ollamaContexts`, with the map `out`. -/
structure ContextLoop where
  cache : ContextCache
  out : String → ℤ
  fetched : ℕ

/-- One name in the loop of `ollamaContexts`. -/
def ContextLoop.visit (backend : BackendId) (answer : String → ℤ) (state : ContextLoop)
    (name : String) : ContextLoop :=
  let n := state.cache (contextKey backend name)
  if 0 < n then { state with out := Function.update state.out name n }
  else if 4 ≤ state.fetched then state
  else
    let n := answer name
    if 0 < n then
      ⟨rememberContext state.cache backend name n, Function.update state.out name n,
        state.fetched + 1⟩
    else { state with fetched := state.fetched + 1 }

/-- `ollamaContexts`, where `answer` is what `fetchOllamaShowContext` returns for a name. -/
def ollamaContexts (cache : ContextCache) (backend : BackendId) (answer : String → ℤ)
    (names : List String) : ContextLoop :=
  names.foldl (ContextLoop.visit backend answer) ⟨cache, fun _ => 0, 0⟩

/-- A probe of a backend, which lists these models and answers so. -/
structure Probe where
  backend : BackendId
  names : List String
  answer : String → ℤ

/-- The cache after a probe. -/
def Probe.cached (cache : ContextCache) (probe : Probe) : ContextCache :=
  (ollamaContexts cache probe.backend probe.answer probe.names).cache

/-- How many models that tell no context are listed before a model. -/
def untoldBefore (answer : String → ℤ) (names : List String) (name : String) : ℕ :=
  (names.takeWhile (· ≠ name)).countP fun other => answer other ≤ 0

section Keys

variable {one two : BackendId} {first second : String}

theorem not_mem_toString (n : ℕ) : '/' ∉ (toString n).toList := by
  intro inside
  have chars : (toString n).toList = Nat.toDigits 10 n := Nat.toList_repr
  rw [chars] at inside
  have isDigit := Nat.isDigit_of_mem_toDigits (by omega) (by omega) inside
  revert isDigit
  decide

theorem contextKey_inj (same : contextKey one first = contextKey two second) :
    one = two ∧ first = second := by
  have chars := congrArg String.toList same
  simp only [contextKey, String.toList_append] at chars
  have slash : "/".toList = ['/'] := by decide
  rw [slash, List.append_assoc, List.append_assoc] at chars
  have digits : (toString one).toList = (toString two).toList := by
    have taken := congrArg (List.takeWhile (· ≠ '/')) chars
    have whole : ∀ n : ℕ, ∀ rest : List Char,
        ((toString n).toList ++ ('/' :: rest)).takeWhile (· ≠ '/') = (toString n).toList := by
      intro n rest
      rw [List.takeWhile_append_of_pos]
      · simp
      · intro char inside
        have differs : char ≠ '/' := by
          rintro rfl
          exact not_mem_toString n inside
        simpa using differs
    simpa only [List.singleton_append, whole] using taken
  refine ⟨?_, ?_⟩
  · have sameDigits : Nat.toDigits 10 one = Nat.toDigits 10 two :=
      Nat.toList_repr.symm.trans (digits.trans Nat.toList_repr)
    rw [← Nat.ofDigitChars_ten_toDigits (n := one), sameDigits, Nat.ofDigitChars_ten_toDigits]
  · rw [digits] at chars
    have rest := List.append_cancel_left chars
    rw [List.singleton_append, List.singleton_append, List.cons.injEq] at rest
    exact String.toList_injective rest.2

end Keys

section Probes

variable {backend : BackendId} {answer : String → ℤ} {names : List String} {name : String}
  {cache : ContextCache} {state : ContextLoop}

/-- A positive number. -/
def told (n : ℤ) : Option ℤ :=
  if 0 < n then some n else none

theorem told_of_pos {n : ℤ} (positive : 0 < n) : told n = some n := if_pos positive

theorem told_of_nonpos {n : ℤ} (none : ¬0 < n) : told n = Option.none := if_neg none

/-- What the cache knows of the models of a backend. -/
def knownOf (backend : BackendId) (cache : ContextCache) (name : String) : Option ℤ :=
  told (cache (contextKey backend name))

/-- The loop as a round that gathers answers. -/
def ContextLoop.gathered (backend : BackendId) (state : ContextLoop) : Gathered String ℤ :=
  ⟨knownOf backend state.cache, state.fetched⟩

theorem knownOf_update {n : ℤ} (positive : 0 < n) :
    knownOf backend (Function.update cache (contextKey backend name) n) =
      Function.update (knownOf backend cache) name (some n) := by
  funext other
  by_cases same : other = name
  · subst same
    rw [knownOf, Function.update_self, Function.update_self, told_of_pos positive]
  · have differs : contextKey backend other ≠ contextKey backend name :=
      fun sameKey => same (contextKey_inj sameKey).2
    rw [knownOf, Function.update_of_ne differs, Function.update_of_ne same, knownOf]

theorem gathered_visit (state : ContextLoop) (name : String) :
    (state.visit backend answer name).gathered backend =
      (state.gathered backend).visit 4 (fun name => told (answer name)) name := by
  by_cases isKnown : 0 < state.cache (contextKey backend name)
  · have found : (state.gathered backend).known name =
        some (state.cache (contextKey backend name)) := told_of_pos isKnown
    rw [Gathered.visit_known found, ContextLoop.visit, if_pos isKnown]
    rfl
  · have unknown : (state.gathered backend).known name = none := told_of_nonpos isKnown
    by_cases full : 4 ≤ state.fetched
    · have isFull : 4 ≤ (state.gathered backend).asked := full
      rw [Gathered.visit_full isFull, ContextLoop.visit, if_neg isKnown, if_pos full]
    · have left : (state.gathered backend).asked < 4 := not_le.mp full
      rw [Gathered.visit_asks unknown left, ContextLoop.visit, if_neg isKnown, if_neg full]
      by_cases positive : 0 < answer name
      · have remembered : rememberContext state.cache backend name (answer name) =
            Function.update state.cache (contextKey backend name) (answer name) :=
          if_neg (not_le.mpr positive)
        simp only [if_pos positive, remembered, ContextLoop.gathered, knownOf_update positive,
          told_of_pos positive]
      · have unchanged : Function.update (knownOf backend state.cache) name none =
            knownOf backend state.cache := by
          have isNone : knownOf backend state.cache name = none := unknown
          rw [← isNone]
          exact Function.update_eq_self name _
        simp only [if_neg positive, ContextLoop.gathered, told_of_nonpos positive, unchanged]

theorem gathered_foldl (names : List String) (state : ContextLoop) :
    (names.foldl (ContextLoop.visit backend answer) state).gathered backend =
      names.foldl (Gathered.visit 4 fun name => told (answer name)) (state.gathered backend) := by
  induction names generalizing state with
  | nil => rfl
  | cons name rest ih => rw [List.foldl_cons, List.foldl_cons, ih, gathered_visit]

/-- A probe of the backend is a round. -/
theorem knownOf_cached (cache : ContextCache) (names : List String) (answer : String → ℤ) :
    knownOf backend ((⟨backend, names, answer⟩ : Probe).cached cache) =
      Gathered.round 4 (fun name => told (answer name)) names (knownOf backend cache) :=
  congrArg Gathered.known (gathered_foldl names ⟨cache, fun _ => 0, 0⟩)

/-- What a visit can do to the cache. -/
theorem visit_cache (backend : BackendId) (answer : String → ℤ) (state : ContextLoop)
    (name : String) :
    (state.visit backend answer name).cache = state.cache ∨
      (0 < answer name ∧ (state.visit backend answer name).cache =
        Function.update state.cache (contextKey backend name) (answer name)) := by
  rw [ContextLoop.visit]
  dsimp only
  split
  · exact Or.inl rfl
  · split
    · exact Or.inl rfl
    · split
      · rename_i positive
        exact Or.inr ⟨positive, if_neg (not_le.mpr positive)⟩
      · exact Or.inl rfl

/-- A probe of another backend does not touch what is known of this one. -/
theorem cached_other {probe : Probe} (differs : probe.backend ≠ backend) (cache : ContextCache)
    (name : String) :
    probe.cached cache (contextKey backend name) = cache (contextKey backend name) := by
  have stays : ∀ (names : List String) (state : ContextLoop),
      (names.foldl (ContextLoop.visit probe.backend probe.answer) state).cache
        (contextKey backend name) = state.cache (contextKey backend name) := by
    intro names
    induction names with
    | nil => exact fun state => rfl
    | cons other rest ih =>
        intro state
        have otherKey : contextKey backend name ≠ contextKey probe.backend other :=
          fun sameKey => differs (contextKey_inj sameKey).1.symm
        rw [List.foldl_cons, ih]
        rcases visit_cache probe.backend probe.answer state other with same | ⟨_, updated⟩
        · rw [same]
        · rw [updated]
          exact Function.update_of_ne otherKey _ _
  exact stays probe.names _

/-- What is known after probes of all backends: as many rounds as probes of this one. -/
theorem knownOf_probes (probes : List Probe)
    (same : ∀ probe ∈ probes, probe.backend = backend → probe = ⟨backend, names, answer⟩)
    (cache : ContextCache) :
    knownOf backend (probes.foldl (fun cache probe => probe.cached cache) cache) =
      (Gathered.round 4 (fun name => told (answer name)) names)^[
        probes.countP (·.backend = backend)] (knownOf backend cache) := by
  induction probes generalizing cache with
  | nil => rfl
  | cons probe rest ih =>
      rw [List.forall_mem_cons] at same
      rw [List.foldl_cons, ih same.2, List.countP_cons]
      by_cases isBackend : probe.backend = backend
      · rw [same.1 isBackend, knownOf_cached]
        simp only [decide_true, if_true, Function.iterate_succ_apply]
      · have stays : knownOf backend (probe.cached cache) = knownOf backend cache := by
          funext name
          rw [knownOf, cached_other isBackend, knownOf]
        simp only [stays, isBackend, decide_false, Bool.false_eq_true, if_false, Nat.add_zero]

/-- Nothing below zero is remembered. -/
theorem nonneg_probes (probes : List Probe) (nonneg : ∀ key, 0 ≤ cache key) :
    ∀ key, 0 ≤ probes.foldl (fun cache probe => probe.cached cache) cache key := by
  have visited : ∀ (backend : BackendId) (answer : String → ℤ) (names : List String)
      (state : ContextLoop), (∀ key, 0 ≤ state.cache key) →
        ∀ key, 0 ≤ (names.foldl (ContextLoop.visit backend answer) state).cache key := by
    intro backend answer names
    induction names with
    | nil => exact fun state stateNonneg => stateNonneg
    | cons name rest ih =>
        intro state stateNonneg
        apply ih
        intro key
        rcases visit_cache backend answer state name with same | ⟨positive, updated⟩
        · rw [same]
          exact stateNonneg key
        · rw [updated, Function.update_apply]
          split
          · omega
          · exact stateNonneg key
  induction probes generalizing cache with
  | nil => exact nonneg
  | cons probe rest ih => exact ih (visited probe.backend probe.answer probe.names _ nonneg)

theorem silentBefore_told (names : List String) (name : String) :
    Gathered.silentBefore (fun name => told (answer name)) names name =
      untoldBefore answer names name := by
  apply List.countP_congr
  intro other _
  by_cases positive : 0 < answer other
  · simp [told_of_pos positive, positive]
  · simp [told_of_nonpos positive, not_lt.mp positive]

end Probes

/-- When a server always lists and answers the same, and whatever other backends are probed: the
context of a model is known once the server was probed as often as it lists models, if fewer than
four models that tell none are listed before it. Otherwise no number of probes finds it. -/
theorem contexts_known {backend : BackendId} {names : List String} {answer : String → ℤ}
    {name : String} {probes : List Probe} (listed : name ∈ names) (tells : 0 < answer name)
    (same : ∀ probe ∈ probes, probe.backend = backend → probe = ⟨backend, names, answer⟩) :
    (untoldBefore answer names name < 4 → names.length ≤ probes.countP (·.backend = backend) →
      probes.foldl (fun cache probe => probe.cached cache) (fun _ => 0) (contextKey backend name) =
        answer name) ∧
    (4 ≤ untoldBefore answer names name →
      probes.foldl (fun cache probe => probe.cached cache) (fun _ => 0) (contextKey backend name) =
        0) := by
  have empty : knownOf backend (fun _ => 0) = fun _ => none := rfl
  have rounds := congrFun (knownOf_probes probes same fun _ => 0) name
  rw [empty, knownOf] at rounds
  rw [← silentBefore_told]
  constructor
  · intro few often
    rw [Gathered.known_rounds listed (told_of_pos tells) few often, told] at rounds
    split at rounds
    · exact Option.some.inj rounds
    · cases rounds
  · intro starved
    have nonneg := nonneg_probes probes (fun _ => le_refl 0) (contextKey backend name)
    rw [Gathered.unknown_rounds _ listed starved, told] at rounds
    split at rounds
    · cases rounds
    · rename_i nonpos
      exact le_antisymm (not_lt.mp nonpos) nonneg

/-- The models of a server. -/
def listedModels : List String := ["a", "b", "c", "d", "e", "f"]

/-- The second and the last one tell a context. -/
def shownContext (name : String) : ℤ := if name = "b" ∨ name = "f" then 8192 else 0

/-- Probes of the server, with one of another server in between. -/
def probesOfTwo : List Probe :=
  ⟨1, listedModels, shownContext⟩ :: ⟨2, ["b"], fun _ => 4096⟩ ::
    List.replicate 5 ⟨1, listedModels, shownContext⟩

/-- The context of the second model is known, the one of the last model is not. -/
theorem contexts_known_second :
    probesOfTwo.foldl (fun cache probe => probe.cached cache) (fun _ => 0) (contextKey 1 "b") =
      8192 ∧
    probesOfTwo.foldl (fun cache probe => probe.cached cache) (fun _ => 0) (contextKey 1 "f") =
      0 := by
  have same : ∀ probe ∈ probesOfTwo,
      probe.backend = 1 → probe = ⟨1, listedModels, shownContext⟩ := by
    simp [probesOfTwo]
  have second : "b" ∈ listedModels := by decide
  have last : "f" ∈ listedModels := by decide
  exact ⟨(contexts_known second (by decide) same).1 (by decide) (by decide),
    (contexts_known last (by decide) same).2 (by decide)⟩

end MikroLLM.Health
