import Mathlib.Data.List.Find
import MikroLLM.Domain.Kinds
import MikroLLM.Mcp.Arguments
import MikroLLM.Store.Rowids

/-!
# The tool `upsert_provider`

A backend is looked up by its id, or else by its URL, and is written by its URL.
-/

namespace MikroLLM.Mcp

open Domain Go Library Store Store.Connection

/-- The arguments of `UpsertBackend`. -/
structure ProviderSettings where
  name : String
  url : String
  enabled : Bool
  weight : ℤ
  kind : String
  token : String

/-- The answer of the tool. -/
structure ProviderAnswer where
  id : BackendId
  name : String
  url : String
  kind : BackendKind
  enabled : Bool
  deriving DecidableEq

/-- An error of the tool: a text, or what is wrong with the session. -/
inductive ProviderError
  | text (message : String)
  | session
  deriving DecidableEq

section Tool

variable {CodexSession GrokSession : Type} (outside : Double → ℤ) (text : TextLibrary)
  (addresses : AddressLibrary) (codex : SessionLibrary CodexSession)
  (grok : SessionLibrary GrokSession)

/-- The backend with the id. -/
def backendById (table : BackendTable) (args : Fields) : Option BackendRow :=
  (intArg outside args ["id"]).bind fun id => if 0 < id then table.getBackend id.toNat else none

/-- `toolUpsertProvider` up to its call of `UpsertBackend`. -/
def providerSettings (table : BackendTable) (args : Fields) :
    Except ProviderError ProviderSettings :=
  let byId := backendById outside table args
  let name := strArg outside args ["name"]
  let kind := strArg outside args ["kind"]
  let rawURL := strArg outside args ["base_url", "url"]
  let token := strArg outside args ["token"]
  let name := byId.elim name fun old => if name = "" then old.name else name
  let kind := byId.elim kind fun old => if kind = "" then old.kind.text else kind
  let rawURL := byId.elim rawURL fun old => if rawURL = "" then old.baseURL else rawURL
  let token := byId.elim token fun old => if token = "" then old.token else token
  let refused : ProviderError := .text "нужны name и корректный http(s) URL"
  match sanitizeBackendURL text addresses kind rawURL with
  | .error _ => .error refused
  | .ok url =>
      if name = "" ∨ url = "" then .error refused
      else
        let byURL :=
          if byId.isSome then none
          else table.rows.find? fun row => trimRight row.baseURL '/' = trimRight url '/'
        let token := byURL.elim token fun old => if token = "" then old.token else token
        let old := byId.or byURL
        if requiresToken kind ∧ token = "" then
          .error (.text "для OpenRouter и Ollama Cloud нужен API-ключ")
        else
          let weight := old.elim 1 fun old => if 0 < old.weight then old.weight else 1
          .ok {
            name := name
            url := url
            enabled :=
              if hasArg args "enabled" then boolArg args "enabled" true
              else old.elim true (·.enabled)
            weight := ((intArg outside args ["weight"]).filter (0 < ·)).getD weight
            kind := kind
            token := token }

/-- `toolUpsertProvider`. -/
def toolUpsertProvider (connection : Connection) (args : Fields) :
    Except ProviderError (Connection × ProviderAnswer) :=
  match providerSettings outside text addresses connection.backends args with
  | .error error => .error error
  | .ok settings =>
      let kind := normalizeKind settings.kind
      match connection.upsertBackend text codex grok settings.name settings.url settings.enabled
          settings.weight kind settings.token with
      | none => .error .session
      | some (next, id) =>
          .ok (next, ⟨id, settings.name, settings.url, kind, settings.enabled⟩)

end Tool

/-- What `UpsertBackend`, which alone inserts backends, ensures of each row. -/
def Normal (rows : List BackendRow) : Prop :=
  ∀ row ∈ rows, trimRight row.baseURL '/' = row.baseURL ∧ 0 < row.weight

/-- The store as the tools find it. -/
structure ProviderStore where
  connection : Connection
  normal : Normal connection.backends.rows

section Stores

variable {CodexSession GrokSession : Type} {text : TextLibrary}
  {codex : SessionLibrary CodexSession} {grok : SessionLibrary GrokSession}
  {table : BackendTable} {connection next : Connection}

theorem Normal.write (normal : Normal table.rows) (name baseURL : String) (enabled : Bool)
    (weight : ℤ) (kind : BackendKind) (token : String) :
    Normal (table.write name baseURL enabled weight kind token).rows := by
  have positive : 0 < if weight ≤ 0 then (1 : ℤ) else weight := by
    split <;> omega
  intro row inside
  simp only [BackendTable.write] at inside
  split at inside
  · rcases List.mem_map.mp inside with ⟨old, listed, rfl⟩
    split
    · exact ⟨(normal old listed).1, positive⟩
    · exact normal old listed
  · rcases List.mem_append.mp inside with listed | isNew
    · exact normal row listed
    · rw [List.mem_singleton.mp isNew]
      exact ⟨trimRight_trimRight baseURL '/', positive⟩

/-- Every operation of the store keeps the rows so. -/
theorem Normal.step {statement : Statement} (normal : Normal connection.backends.rows)
    (fires : connection.step text codex grok statement = some next) :
    Normal next.backends.rows := by
  cases statement with
  | upsertBackend name baseURL enabled weight kind token =>
      simp only [Connection.step] at fires
      split at fires
      · cases fires
        exact normal
      · rename_i written id accepted
        cases fires
        simp only [Connection.upsertBackend, BackendTable.upsertBackend, Option.map_map,
          Option.map_eq_some_iff] at accepted
        rcases accepted with ⟨stored, _, result⟩
        simp only [Function.comp_apply, Prod.mk.injEq] at result
        rw [← result.1]
        exact normal.write name baseURL enabled weight kind stored
  | setBackendEnabled id enabled =>
      cases fires
      intro row inside
      rcases List.mem_map.mp inside with ⟨old, listed, rfl⟩
      have sameValues := normal old listed
      split
      · exact sameValues
      · exact sameValues
  | deleteBackend id =>
      cases fires
      intro row inside
      exact normal row (List.mem_of_mem_filter inside)
  | log newHour =>
      cases fires
      cases newHour <;> exact normal
  | _ =>
      cases fires
      exact normal

/-- The store that operations have made of an empty one. -/
def ProviderStore.ofRun {statements : List Statement}
    (ran : exec (Connection.step text codex grok) created statements = some connection) :
    ProviderStore where
  connection := connection
  normal :=
    (run_of_exec ran).invariant (fun connection => Normal connection.backends.rows)
      (fun _ inside => absurd inside (List.not_mem_nil)) fun normal _ fires => normal.step fires

end Stores

section Updates

variable {CodexSession GrokSession : Type} (outside : Double → ℤ) (text : TextLibrary)
  (addresses : AddressLibrary) (codex : SessionLibrary CodexSession)
  (grok : SessionLibrary GrokSession)

/-- The arguments identify the row by its id; or no row by an id, and this one by its URL, as it is
given or as the tool writes it. -/
inductive Identifies (table : BackendTable) (args : Fields) : BackendRow → Bool → Prop
  | byId {row : BackendRow} (found : backendById outside table args = some row) :
      Identifies table args row true
  | byURL {row : BackendRow} (noId : backendById outside table args = none)
      (inside : row ∈ table.rows)
      (sameURL : trimRight (strArg outside args ["base_url", "url"]) '/' = row.baseURL ∨
        ∃ url, sanitizeBackendURL text addresses (strArg outside args ["kind"])
          (strArg outside args ["base_url", "url"]) = .ok url ∧
            trimRight url '/' = row.baseURL) :
      Identifies table args row false

/-- The fields whose arguments are absent or empty are those of the row. -/
structure KeepsFields (args : Fields) (byId : Bool) (row new : BackendRow) : Prop where
  token : strArg outside args ["token"] = "" → new.token = row.token
  kind : strArg outside args ["kind"] = "" → new.kind = row.kind
  enabled : lacks args "enabled" = true → new.enabled = row.enabled
  weight : lacks args "weight" = true → new.weight = row.weight
  name : byId = true → strArg outside args ["name"] = "" → new.name = row.name

/-- There are as many rows as before, the others are as they were, and the row with the id keeps
the fields that the arguments do not give. -/
structure InPlace (args : Fields) (byId : Bool) (row : BackendRow)
    (before after : List BackendRow) : Prop where
  length : after.length = before.length
  others : ∀ other ∈ before, other.id ≠ row.id → other ∈ after
  updated : ∃ new ∈ after, new.id = row.id ∧ KeepsFields outside args byId row new

/-- The kind that the row is given, as a text. -/
def kindFor (args : Fields) (byId : Bool) (row : BackendRow) : String :=
  if strArg outside args ["kind"] = "" then if byId then row.kind.text else ""
  else strArg outside args ["kind"]

/-- The URL for the row. -/
def addressFor (args : Fields) (byId : Bool) (row : BackendRow) : String :=
  if strArg outside args ["base_url", "url"] = "" then if byId then row.baseURL else ""
  else strArg outside args ["base_url", "url"]

/-- The URL for the row is its URL; without a kind the row was found by its id, or is of kind
Ollama; without a token the token of the row is stored as it is; and `enabled` is not given empty,
or the flag is what an empty argument stands for. -/
structure UpdatesRow (args : Fields) (byId : Bool) (row : BackendRow) : Prop where
  address : ∃ url, sanitizeBackendURL text addresses (kindFor outside args byId row)
    (addressFor outside args byId row) = .ok url ∧ trimRight url '/' = row.baseURL
  kind : strArg outside args ["kind"] = "" → byId = true ∨ row.kind = .ollama
  token : strArg outside args ["token"] = "" → BackendTable.storedToken text codex grok
    (normalizeKind (kindFor outside args byId row)) row.token = some row.token
  enabled : hasArg args "enabled" = true → lacks args "enabled" = true →
    boolArg args "enabled" true = row.enabled

/-- The row whose values stand for the arguments that are absent: the one with the id, or else the one
at the URL that is written. -/
def keeper (byId : Bool) (row other : BackendRow) : BackendRow :=
  if byId then row else other

/-- Another row is at the URL that is written and has every value already, the ones that are given and
those that stand for the others. -/
structure Repeats (args : Fields) (byId : Bool) (row other : BackendRow) : Prop where
  address : ∃ url, sanitizeBackendURL text addresses (kindFor outside args byId row)
    (addressFor outside args byId row) = .ok url ∧ trimRight url '/' = other.baseURL
  name : other.name =
    if byId = true ∧ strArg outside args ["name"] = "" then row.name else strArg outside args ["name"]
  kind : other.kind = normalizeKind (kindFor outside args byId row)
  token : BackendTable.storedToken text codex grok (normalizeKind (kindFor outside args byId row))
    (if strArg outside args ["token"] = "" then (keeper byId row other).token
    else strArg outside args ["token"]) = some other.token
  enabled : other.enabled =
    if hasArg args "enabled" then boolArg args "enabled" true else (keeper byId row other).enabled
  weight : other.weight =
    ((intArg outside args ["weight"]).filter (0 < ·)).getD (keeper byId row other).weight

end Updates

section Cases

variable {CodexSession GrokSession : Type} {outside : Double → ℤ} {text : TextLibrary}
  {addresses : AddressLibrary} {codex : SessionLibrary CodexSession}
  {grok : SessionLibrary GrokSession} {table : BackendTable} {args : Fields} {byId : Bool}
  {row other : BackendRow} {settings : ProviderSettings}

@[simp]
theorem kindFor_false : kindFor outside args false row = strArg outside args ["kind"] := by
  by_cases absent : strArg outside args ["kind"] = "" <;> simp [kindFor, absent]

@[simp]
theorem addressFor_false :
    addressFor outside args false row = strArg outside args ["base_url", "url"] := by
  by_cases absent : strArg outside args ["base_url", "url"] = "" <;> simp [addressFor, absent]

theorem refused_or_eq_ok {Error Value : Type} {refused : Prop} [Decidable refused] {error : Error}
    {result : Except Error Value} {value : Value} :
    (if refused then .error error else result) = .ok value ↔ ¬refused ∧ result = .ok value := by
  by_cases isRefused : refused <;> simp [isRefused]

/-- What is written when the call is not refused. -/
theorem providerSettings_eq_ok
    (accepted : providerSettings outside text addresses table args = .ok settings) :
    let byId := backendById outside table args
    let byURL :=
      if byId.isSome then none
      else table.rows.find? fun row => trimRight row.baseURL '/' = trimRight settings.url '/'
    let token := byId.elim (strArg outside args ["token"]) fun old =>
      if strArg outside args ["token"] = "" then old.token else strArg outside args ["token"]
    settings.name = (byId.elim (strArg outside args ["name"]) fun old =>
        if strArg outside args ["name"] = "" then old.name else strArg outside args ["name"]) ∧
      settings.kind = (byId.elim (strArg outside args ["kind"]) fun old =>
        if strArg outside args ["kind"] = "" then old.kind.text
        else strArg outside args ["kind"]) ∧
      sanitizeBackendURL text addresses settings.kind
        (byId.elim (strArg outside args ["base_url", "url"]) fun old =>
          if strArg outside args ["base_url", "url"] = "" then old.baseURL
          else strArg outside args ["base_url", "url"]) = .ok settings.url ∧
      settings.token = (byURL.elim token fun old => if token = "" then old.token else token) ∧
      settings.enabled = (if hasArg args "enabled" then boolArg args "enabled" true
        else (byId.or byURL).elim true (·.enabled)) ∧
      settings.weight = ((intArg outside args ["weight"]).filter (0 < ·)).getD
        ((byId.or byURL).elim 1 fun old => if 0 < old.weight then old.weight else 1) := by
  intro byId byURL token
  simp only [providerSettings] at accepted
  split at accepted
  · cases accepted
  · rename_i url sanitized
    rw [refused_or_eq_ok, refused_or_eq_ok] at accepted
    rcases accepted with ⟨_, _, isSettings⟩
    cases isSettings
    exact ⟨rfl, rfl, sanitized, rfl, rfl, rfl⟩

/-- What is written where, for a row that was found by its id or not at all. -/
theorem providerSettings_address
    (lookedUp : backendById outside table args = if byId then some row else none)
    (accepted : providerSettings outside text addresses table args = .ok settings) :
    settings.kind = kindFor outside args byId row ∧
      sanitizeBackendURL text addresses (kindFor outside args byId row)
        (addressFor outside args byId row) = .ok settings.url ∧
      settings.name =
        if byId = true ∧ strArg outside args ["name"] = "" then row.name
        else strArg outside args ["name"] := by
  rcases providerSettings_eq_ok accepted with ⟨name, kind, sanitized, _⟩
  rw [lookedUp] at name kind sanitized
  have sameKind : settings.kind = kindFor outside args byId row := by
    cases byId with
    | false => simpa using kind
    | true => simpa [kindFor] using kind
  rw [sameKind] at sanitized
  refine ⟨sameKind, ?_, ?_⟩
  · cases byId with
    | false => simpa using sanitized
    | true => simpa [addressFor] using sanitized
  · cases byId <;> simpa using name

/-- What is written into a row that was found. -/
theorem providerSettings_found
    (lookedUp : backendById outside table args = if byId then some row else none)
    (accepted : providerSettings outside text addresses table args = .ok settings)
    (found : byId = false →
      table.rows.find? (fun row => trimRight row.baseURL '/' = trimRight settings.url '/') =
        some row) :
    settings.token =
        (if strArg outside args ["token"] = "" then row.token
        else strArg outside args ["token"]) ∧
      settings.enabled =
        (if hasArg args "enabled" then boolArg args "enabled" true else row.enabled) ∧
      settings.weight = ((intArg outside args ["weight"]).filter (0 < ·)).getD
        (if 0 < row.weight then row.weight else 1) := by
  rcases providerSettings_eq_ok accepted with ⟨_, _, _, token, enabled, weight⟩
  rw [lookedUp] at token enabled weight
  cases byId with
  | true => exact ⟨by simpa using token, by simpa using enabled, by simpa using weight⟩
  | false =>
      rw [found rfl] at token enabled weight
      exact ⟨by simpa using token, by simpa using enabled, by simpa using weight⟩

theorem Identifies.mem (found : Identifies outside text addresses table args row byId) :
    row ∈ table.rows := by
  cases found with
  | byId isRow =>
      simp only [backendById, Option.bind_eq_some_iff] at isRow
      rcases isRow with ⟨id, _, isRow⟩
      split at isRow
      · exact List.mem_of_find?_eq_some isRow
      · cases isRow
  | byURL _ inside _ => exact inside

theorem Identifies.lookedUp (found : Identifies outside text addresses table args row byId) :
    backendById outside table args = if byId then some row else none := by
  cases found with
  | byId isRow => simpa using isRow
  | byURL noId _ _ => simpa using noId

section Writing

variable {name url token : String} {enabled : Bool} {weight : ℤ} {kind : BackendKind}

/-- A write to the row is in place when it keeps the fields that are not given. -/
theorem inPlace_iff_keeps (isRow : table.atURL url = some row) :
    InPlace outside args byId row table.rows
        (table.write name url enabled weight kind token).rows ↔
      KeepsFields outside args byId row
        (BackendTable.update row name enabled weight kind token) := by
  have inside := List.mem_of_find?_eq_some isRow
  rw [BackendTable.write_rows_of_some isRow]
  constructor
  · intro inPlace
    rcases inPlace.updated with ⟨new, isNew, sameId, keeps⟩
    rcases List.mem_map.mp isNew with ⟨old, listed, rfl⟩
    by_cases isOld : old.id = row.id
    · rw [if_pos isOld, List.inj_on_of_nodup_map table.id_nodup listed inside isOld] at keeps
      exact keeps
    · rw [if_neg isOld] at sameId
      exact absurd sameId isOld
  · intro keeps
    constructor
    · simp
    · intro other listed differs
      exact List.mem_map.mpr ⟨other, listed, if_neg differs⟩
    · exact ⟨_, List.mem_map.mpr ⟨row, inside, if_pos rfl⟩, rfl, keeps⟩

/-- A write to another row is in place when it changes nothing. -/
theorem inPlace_iff_unchanged (inside : row ∈ table.rows) (isOther : table.atURL url = some other)
    (differs : other.id ≠ row.id) :
    InPlace outside args byId row table.rows
        (table.write name url enabled weight kind token).rows ↔
      BackendTable.update other name enabled weight kind token = other := by
  have otherInside := List.mem_of_find?_eq_some isOther
  rw [BackendTable.write_rows_of_some isOther]
  constructor
  · intro inPlace
    rcases List.mem_map.mp (inPlace.others other otherInside differs) with ⟨old, listed, isOld⟩
    by_cases sameId : old.id = other.id
    · rw [if_pos sameId,
        List.inj_on_of_nodup_map table.id_nodup listed otherInside sameId] at isOld
      exact isOld
    · rw [if_neg sameId] at isOld
      exact absurd (congrArg (·.id) isOld) sameId
  · intro unchanged
    have sameRows : (table.rows.map fun row =>
        if row.id = other.id then BackendTable.update row name enabled weight kind token
        else row) = table.rows := by
      calc (table.rows.map fun row =>
            if row.id = other.id then BackendTable.update row name enabled weight kind token
            else row)
          = table.rows.map id := by
            apply List.map_congr_left
            intro old listed
            by_cases sameId : old.id = other.id
            · rw [if_pos sameId,
                List.inj_on_of_nodup_map table.id_nodup listed otherInside sameId]
              exact unchanged
            · exact if_neg sameId
        _ = table.rows := List.map_id _
    rw [sameRows]
    exact ⟨rfl, fun _ listed _ => listed, row, inside, rfl,
      ⟨fun _ => rfl, fun _ => rfl, fun _ => rfl, fun _ => rfl, fun _ _ => rfl⟩⟩

/-- A write that makes a new row is not in place. -/
theorem not_inPlace_of_missing (missing : table.atURL url = none) :
    ¬InPlace outside args byId row table.rows
      (table.write name url enabled weight kind token).rows := by
  intro inPlace
  have longer := inPlace.length
  rw [BackendTable.length_write_of_none missing] at longer
  omega

end Writing

/-- A call that succeeds writes its settings. -/
theorem toolUpsertProvider_eq_ok {connection next : Connection} {answer : ProviderAnswer}
    (done : toolUpsertProvider outside text addresses codex grok connection args =
      .ok (next, answer)) :
    ∃ settings stored,
      providerSettings outside text addresses connection.backends args = .ok settings ∧
      BackendTable.storedToken text codex grok (normalizeKind settings.kind) settings.token =
        some stored ∧
      next.backends = connection.backends.write settings.name settings.url settings.enabled
        settings.weight (normalizeKind settings.kind) stored := by
  simp only [toolUpsertProvider] at done
  split at done
  · cases done
  · rename_i settings accepted
    split at done
    · cases done
    · rename_i written id upserted
      cases done
      simp only [Connection.upsertBackend, BackendTable.upsertBackend, Option.map_map,
        Option.map_eq_some_iff] at upserted
      rcases upserted with ⟨stored, isStored, result⟩
      simp only [Function.comp_apply, Prod.mk.injEq] at result
      refine ⟨settings, stored, accepted, isStored, ?_⟩
      rw [← result.1]

/-- The weight that is written is positive. -/
theorem weight_pos (accepted : providerSettings outside text addresses table args = .ok settings) :
    0 < settings.weight := by
  rcases providerSettings_eq_ok accepted with ⟨_, _, _, _, _, weight⟩
  rw [weight]
  cases given : (intArg outside args ["weight"]).filter (0 < ·) with
  | some n => simpa using (Option.filter_eq_some_iff.mp given).2
  | none =>
      simp only [Option.getD_none]
      cases (backendById outside table args).or _ with
      | none => simp
      | some old =>
          simp only [Option.elim]
          split
          · assumption
          · omega

/-- The row at the URL of the settings. -/
theorem atURL_iff : table.atURL settings.url = some row ↔
    row ∈ table.rows ∧ row.baseURL = trimRight settings.url '/' := by
  constructor
  · intro isRow
    exact ⟨List.mem_of_find?_eq_some isRow, by simpa using List.find?_some isRow⟩
  · rintro ⟨inside, hasURL⟩
    cases isOther : table.atURL settings.url with
    | none =>
        rw [BackendTable.atURL, List.find?_eq_none] at isOther
        exact absurd hasURL (by simpa using isOther row inside)
    | some other =>
        have otherURL : other.baseURL = trimRight settings.url '/' := by
          simpa using List.find?_some isOther
        rw [List.inj_on_of_nodup_map table.url_nodup (List.mem_of_find?_eq_some isOther) inside
          (otherURL.trans hasURL.symm)]

/-- The tool finds the row at the URL. -/
theorem find_of_atURL (normal : Normal table.rows) (isRow : table.atURL settings.url = some row) :
    table.rows.find? (fun row => trimRight row.baseURL '/' = trimRight settings.url '/') =
      some row := by
  rw [← isRow, BackendTable.atURL]
  apply List.find?_congr
  intro old listed
  rw [(normal old listed).1]

variable {stored : String}

/-- The update of the row keeps the fields exactly when it is one. -/
theorem keepsFields_iff (normal : Normal table.rows)
    (lookedUp : backendById outside table args = if byId then some row else none)
    (accepted : providerSettings outside text addresses table args = .ok settings)
    (isStored : BackendTable.storedToken text codex grok (normalizeKind settings.kind)
      settings.token = some stored)
    (isRow : table.atURL settings.url = some row) :
    KeepsFields outside args byId row (BackendTable.update row settings.name settings.enabled
        settings.weight (normalizeKind settings.kind) stored) ↔
      UpdatesRow outside text addresses codex grok args byId row := by
  rcases providerSettings_address lookedUp accepted with ⟨isKind, sanitized, isName⟩
  rcases providerSettings_found lookedUp accepted (fun _ => find_of_atURL normal isRow) with
    ⟨isToken, isEnabled, isWeight⟩
  rcases atURL_iff.mp isRow with ⟨inside, hasURL⟩
  rw [isKind] at isStored
  rw [isKind]
  constructor
  · intro keeps
    constructor
    · exact ⟨settings.url, sanitized, hasURL.symm⟩
    · intro absent
      have sameKind : normalizeKind (kindFor outside args byId row) = row.kind := keeps.kind absent
      cases byId with
      | true => exact Or.inl rfl
      | false =>
          right
          rw [← sameKind, kindFor_false, absent, normalizeKind_empty]
    · intro absent
      rw [if_pos absent] at isToken
      rw [← isToken, isStored]
      exact congrArg some ((keeps.token absent).trans isToken.symm)
    · intro given isEmpty
      rw [if_pos given] at isEnabled
      rw [← isEnabled]
      exact keeps.enabled isEmpty
  · intro updates
    constructor
    · intro absent
      rw [if_pos absent] at isToken
      have same := updates.token absent
      rw [← isToken, isStored] at same
      rw [← isToken]
      exact Option.some.inj same
    · intro absent
      change normalizeKind (kindFor outside args byId row) = row.kind
      cases byId with
      | true => simp [kindFor, absent]
      | false =>
          rcases updates.kind absent with isId | isOllama
          · exact nomatch isId
          · rw [kindFor_false, absent, normalizeKind_empty, isOllama]
    · intro isEmpty
      change settings.enabled = row.enabled
      rw [isEnabled]
      split
      · rename_i given
        exact updates.enabled given isEmpty
      · rfl
    · intro isEmpty
      have positive := (normal row inside).2
      change (if settings.weight ≤ 0 then 1 else settings.weight) = row.weight
      rw [isWeight, intArg_of_lacks isEmpty]
      simp [positive]
    · intro isId absent
      change settings.name = row.name
      rw [isName, if_pos ⟨isId, absent⟩]

/-- The update of the row at the URL changes nothing exactly when it has all that is written. -/
theorem repeats_iff (normal : Normal table.rows) (inside : row ∈ table.rows)
    (lookedUp : backendById outside table args = if byId then some row else none)
    (accepted : providerSettings outside text addresses table args = .ok settings)
    (isStored : BackendTable.storedToken text codex grok (normalizeKind settings.kind)
      settings.token = some stored)
    (isOther : table.atURL settings.url = some other) :
    Repeats outside text addresses codex grok args byId row other ↔
      BackendTable.update other settings.name settings.enabled settings.weight
        (normalizeKind settings.kind) stored = other := by
  rcases atURL_iff.mp isOther with ⟨otherInside, hasURL⟩
  have keeperInside : keeper byId row other ∈ table.rows := by
    cases byId
    · exact otherInside
    · exact inside
  have foundKeeper : backendById outside table args =
      if byId then some (keeper byId row other) else none := by
    rw [lookedUp]
    cases byId <;> rfl
  have keeperThere : byId = false →
      table.rows.find? (fun row => trimRight row.baseURL '/' = trimRight settings.url '/') =
        some (keeper byId row other) := by
    rintro rfl
    exact find_of_atURL normal isOther
  rcases providerSettings_address lookedUp accepted with ⟨isKind, sanitized, isName⟩
  rcases providerSettings_found foundKeeper accepted keeperThere with ⟨isToken, isEnabled, isWeight⟩
  rw [if_pos (normal _ keeperInside).2] at isWeight
  have positive := weight_pos accepted
  have sameWeight : (if settings.weight ≤ 0 then 1 else settings.weight) = settings.weight :=
    if_neg (by omega)
  rw [isKind, isToken] at isStored
  constructor
  · intro repeats
    have sameToken : stored = other.token := by
      rw [← Option.some.injEq, ← isStored]
      exact repeats.token
    have name : settings.name = other.name := isName.trans repeats.name.symm
    have enabled : settings.enabled = other.enabled := isEnabled.trans repeats.enabled.symm
    have weight : settings.weight = other.weight := isWeight.trans repeats.weight.symm
    have kind : normalizeKind settings.kind = other.kind := by
      rw [isKind]
      exact repeats.kind.symm
    rw [weight] at sameWeight
    simp only [BackendTable.update, name, enabled, weight, sameWeight, kind, sameToken]
  · intro unchanged
    have same := unchanged.symm
    constructor
    · exact ⟨settings.url, sanitized, hasURL.symm⟩
    · exact (congrArg (·.name) same).trans isName
    · exact (congrArg (·.kind) same).trans (congrArg normalizeKind isKind)
    · exact isStored.trans (congrArg (fun row => some row.token) same.symm)
    · exact (congrArg (·.enabled) same).trans isEnabled
    · exact ((congrArg (·.weight) same).trans sameWeight).trans isWeight

end Cases

/-- A call that identifies a row and succeeds updates it in place exactly when it writes to the
URL of the row with the kind, the token and the flag that the row has where none is given; or when
some row has already all that it writes. -/
theorem inPlace_iff {CodexSession GrokSession : Type} {outside : Double → ℤ} {text : TextLibrary}
    {addresses : AddressLibrary} {codex : SessionLibrary CodexSession}
    {grok : SessionLibrary GrokSession} {store : ProviderStore} {args : Fields} {row : BackendRow}
    {byId : Bool} {next : Connection} {answer : ProviderAnswer}
    (found : Identifies outside text addresses store.connection.backends args row byId)
    (done : toolUpsertProvider outside text addresses codex grok store.connection args =
      .ok (next, answer)) :
    InPlace outside args byId row store.connection.backends.rows next.backends.rows ↔
      UpdatesRow outside text addresses codex grok args byId row ∨
        ∃ other ∈ store.connection.backends.rows,
          Repeats outside text addresses codex grok args byId row other := by
  rcases toolUpsertProvider_eq_ok done with ⟨settings, stored, accepted, isStored, written⟩
  rcases providerSettings_address found.lookedUp accepted with ⟨_, sanitized, _⟩
  have landsThere : UpdatesRow outside text addresses codex grok args byId row →
      store.connection.backends.atURL settings.url = some row := by
    intro updates
    rcases updates.address with ⟨url, isURL, isRow⟩
    rw [sanitized] at isURL
    cases isURL
    exact atURL_iff.mpr ⟨found.mem, isRow.symm⟩
  have repeatsThere : ∀ other ∈ store.connection.backends.rows,
      Repeats outside text addresses codex grok args byId row other →
        store.connection.backends.atURL settings.url = some other := by
    intro other inside repeats
    rcases repeats.address with ⟨url, isURL, hasURL⟩
    rw [sanitized] at isURL
    cases isURL
    exact atURL_iff.mpr ⟨inside, hasURL.symm⟩
  rw [written]
  cases isOther : store.connection.backends.atURL settings.url with
  | none =>
      apply iff_of_false (not_inPlace_of_missing isOther)
      rintro (updates | ⟨other, inside, repeats⟩)
      · exact nomatch isOther.symm.trans (landsThere updates)
      · exact nomatch isOther.symm.trans (repeatsThere other inside repeats)
  | some other =>
      have onlyOne : (∃ other ∈ store.connection.backends.rows,
          Repeats outside text addresses codex grok args byId row other) ↔
            Repeats outside text addresses codex grok args byId row other := by
        constructor
        · rintro ⟨old, inside, repeats⟩
          have isOld := repeatsThere old inside repeats
          rw [isOther] at isOld
          cases isOld
          exact repeats
        · intro repeats
          exact ⟨other, List.mem_of_find?_eq_some isOther, repeats⟩
      rw [onlyOne, repeats_iff store.normal found.mem found.lookedUp accepted isStored isOther]
      by_cases sameId : other.id = row.id
      · have isRow : other = row := List.inj_on_of_nodup_map store.connection.backends.id_nodup
          (List.mem_of_find?_eq_some isOther) found.mem sameId
        rw [isRow] at isOther ⊢
        rw [inPlace_iff_keeps isOther,
          keepsFields_iff store.normal found.lookedUp accepted isStored isOther, iff_self_or]
        intro unchanged
        apply (keepsFields_iff store.normal found.lookedUp accepted isStored isOther).mp
        rw [unchanged]
        exact ⟨fun _ => rfl, fun _ => rfl, fun _ => rfl, fun _ => rfl, fun _ _ => rfl⟩
      · rw [inPlace_iff_unchanged found.mem isOther sameId, iff_or_self]
        intro updates
        have isRow := landsThere updates
        rw [isOther] at isRow
        cases isRow
        exact absurd rfl sameId

section Trials

/-- A server of vLLM. -/
def vllmRow : BackendRow :=
  ⟨⟨1, "gpu", "http://10.0.0.5:8000", .vllm, "", true⟩, 2⟩

def vllmStore : ProviderStore where
  connection := .opened ⟨[vllmRow], 2, by decide, by decide, by decide⟩ (fun _ => []) fun _ => 0
  normal := by
    intro row inside
    rw [List.mem_singleton.mp inside]
    exact ⟨by decide, by decide⟩

/-- The address of the server. -/
def vllmAddresses : AddressLibrary where
  parse raw :=
    if raw = "http://10.0.0.5:8000" then
      some ⟨"http", false, "10.0.0.5:8000", "10.0.0.5", "8000", ""⟩
    else none
  knowsPort port := port = "8000"

/-- The server is disabled by its id. -/
def disableById : Fields :=
  [("id", .number ⟨1, 0⟩), ("enabled", .bool false)]

theorem inPlace_iff_disabled :
    ∃ next answer, toolUpsertProvider leastInt64 asciiText vllmAddresses noSessions noSessions
        vllmStore.connection disableById = .ok (next, answer) ∧
      next.backends.rows = [{ vllmRow with enabled := false }] ∧
      (InPlace leastInt64 disableById true vllmRow [vllmRow] next.backends.rows ↔
        UpdatesRow leastInt64 asciiText vllmAddresses noSessions noSessions disableById true
            vllmRow ∨
          ∃ other ∈ vllmStore.connection.backends.rows,
            Repeats leastInt64 asciiText vllmAddresses noSessions noSessions disableById true
              vllmRow other) := by
  have ran : (toolUpsertProvider leastInt64 asciiText vllmAddresses noSessions noSessions
      vllmStore.connection disableById).toOption.any (fun result =>
        result.1.backends.rows = [{ vllmRow with enabled := false }]) = true := by
    decide +kernel
  have found : Identifies leastInt64 asciiText vllmAddresses vllmStore.connection.backends
      disableById vllmRow true := .byId (by decide)
  cases done : toolUpsertProvider leastInt64 asciiText vllmAddresses noSessions noSessions
      vllmStore.connection disableById with
  | error error =>
      rw [done] at ran
      exact nomatch ran
  | ok result =>
      rw [done] at ran
      exact ⟨result.1, result.2, rfl, by simpa [Except.toOption] using ran,
        inPlace_iff found done⟩

/-- The server is renamed by its URL. -/
def renameByURL : Fields :=
  [("name", .string "gpu 2"), ("base_url", .string "http://10.0.0.5:8000/")]

/-- The server becomes one of Ollama. -/
theorem not_inPlace :
    ¬∀ (CodexSession GrokSession : Type) (outside : Double → ℤ) (text : TextLibrary)
        (addresses : AddressLibrary) (codex : SessionLibrary CodexSession)
        (grok : SessionLibrary GrokSession) (store : ProviderStore) (args : Fields)
        (row : BackendRow) (byId : Bool) (next : Connection) (answer : ProviderAnswer),
      Identifies outside text addresses store.connection.backends args row byId →
        toolUpsertProvider outside text addresses codex grok store.connection args =
          .ok (next, answer) →
        InPlace outside args byId row store.connection.backends.rows next.backends.rows := by
  intro claim
  have ran : (toolUpsertProvider leastInt64 asciiText vllmAddresses noSessions noSessions
      vllmStore.connection renameByURL).toOption.any (fun result =>
        result.1.backends.rows.map (·.kind) = [.ollama]) = true := by
    decide +kernel
  have found : Identifies leastInt64 asciiText vllmAddresses vllmStore.connection.backends
      renameByURL vllmRow false :=
    .byURL (by decide) List.mem_cons_self (Or.inl (by decide))
  cases done : toolUpsertProvider leastInt64 asciiText vllmAddresses noSessions noSessions
      vllmStore.connection renameByURL with
  | error error =>
      rw [done] at ran
      exact nomatch ran
  | ok result =>
      rw [done] at ran
      have kinds : result.1.backends.rows.map (·.kind) = [.ollama] := by
        simpa [Except.toOption] using ran
      have inPlace := claim _ _ _ _ _ _ _ _ _ _ _ result.1 result.2 found done
      rcases inPlace.updated with ⟨new, inside, _, keeps⟩
      have isOllama : new.kind ∈ result.1.backends.rows.map (·.kind) := List.mem_map_of_mem inside
      rw [kinds, keeps.kind (by decide)] at isOllama
      exact absurd isOllama (by decide)

end Trials

end MikroLLM.Mcp
