import Mathlib.Data.List.Sort
import Mathlib.Logic.Function.Basic
import MikroLLM.Library.Runs
import MikroLLM.Store.Backends

/-!
# The rowid of the last insertion

The store has one connection, and SQLite keeps for it the rowid of its last
successful insertion, into whatever table. `UpsertBackend` reads it after a
statement that may have updated a row, and then it is what an earlier operation
left.
-/

namespace MikroLLM.Store

open Domain Go Library

/-- The tables that the store inserts into, other than `backends`. -/
inductive OtherTable
  | adminMeta
  | requestLog
  | billingHour
  | models
  | modelBackends
  | apiKeys
  | queues
  | queueSteps
  | queueAliases
  | queueJobs
  | ollamaJobs
  | securityPolicies
  | securityTargets
  | mcpUpstreams
  | a2aUpstreams
  | a2aGroups
  | a2aGroupMembers
  | a2aMessages
  deriving DecidableEq

/-- Whether the schema says `AUTOINCREMENT`. -/
def OtherTable.autoincrement : OtherTable → Bool
  | .requestLog | .models | .apiKeys | .queues | .securityPolicies | .mcpUpstreams
  | .a2aUpstreams | .a2aGroups | .a2aMessages => true
  | _ => false

/-- What `UpsertBackend` returned, the URL it was asked for, and the rows after it. -/
structure Upserted where
  id : BackendId
  url : String
  rows : List BackendRow

/-- The id is that of the row with the URL. -/
def Upserted.Right (upserted : Upserted) : Prop :=
  ∃ row ∈ upserted.rows, row.baseURL = upserted.url ∧ row.id = upserted.id

/-- The store with its connection: the backends, the rowids in use in the other tables and the
largest that each of them ever had, and `last_insert_rowid`. -/
structure Connection where
  backends : BackendTable
  rowids : OtherTable → List ℕ
  sequence : OtherTable → ℕ
  lastInsert : ℕ
  upserts : List Upserted

/-- A statement of the store, or a whole operation: `UpsertBackend`, `SetBackendEnabled`,
`DeleteBackend`, `Log`. -/
inductive Statement
  | upsertBackend (name baseURL : String) (enabled : Bool) (weight : ℤ) (kind : BackendKind)
      (token : String)
  | setBackendEnabled (id : BackendId) (enabled : Bool)
  | deleteBackend (id : BackendId)
  | log (newHour : Bool)
  | insert (table : OtherTable)
  | delete (table : OtherTable) (gone : ℕ → Bool)
  | reopen

namespace Connection

/-- A connection that was just opened. -/
def opened (backends : BackendTable) (rowids : OtherTable → List ℕ) (sequence : OtherTable → ℕ) :
    Connection :=
  ⟨backends, rowids, sequence, 0, []⟩

/-- An insertion into another table: SQLite chooses the rowid. -/
def insert (connection : Connection) (table : OtherTable) : Connection :=
  let largest := (connection.rowids table).foldl max 0
  let rowid := (if table.autoincrement then max largest (connection.sequence table) else largest) + 1
  { connection with
    rowids := Function.update connection.rowids table (connection.rowids table ++ [rowid])
    sequence := Function.update connection.sequence table (max (connection.sequence table) rowid)
    lastInsert := rowid }

/-- Rows of another table are deleted. -/
def delete (connection : Connection) (table : OtherTable) (gone : ℕ → Bool) : Connection :=
  { connection with
    rowids := Function.update connection.rowids table
      ((connection.rowids table).filter fun rowid => !gone rowid) }

/-- `Store.Log`: the row of the request, the newest five hundred rows, and the row of the hour
unless there is one. -/
def log (connection : Connection) (newHour : Bool) : Connection :=
  let logged := connection.insert .requestLog
  let newest := ((logged.rowids .requestLog).insertionSort (· ≥ ·)).take 500
  let trimmed := logged.delete .requestLog fun rowid => !newest.contains rowid
  if newHour then trimmed.insert .billingHour else trimmed

section Operations

variable {CodexSession GrokSession : Type} (text : TextLibrary)
  (codex : SessionLibrary CodexSession) (grok : SessionLibrary GrokSession)

/-- `Store.UpsertBackend` with the id it returns; none when it returns an error. -/
def upsertBackend (connection : Connection) (name baseURL : String) (enabled : Bool) (weight : ℤ)
    (kind : BackendKind) (token : String) : Option (Connection × BackendId) :=
  (connection.backends.upsertBackend text codex grok name baseURL enabled weight kind token).map
    fun written =>
      let lastInsert :=
        if (connection.backends.atURL baseURL).isNone then connection.backends.next
        else connection.lastInsert
      let id :=
        if lastInsert = 0 then ((written.atURL baseURL).map (·.id)).getD 0 else lastInsert
      ({ connection with backends := written, lastInsert := lastInsert }, id)

def step (connection : Connection) : Statement → Option Connection
  | .upsertBackend name baseURL enabled weight kind token =>
      match connection.upsertBackend text codex grok name baseURL enabled weight kind token with
      | none => some connection
      | some (next, id) => some { next with
          upserts := next.upserts ++ [⟨id, trimRight baseURL '/', next.backends.rows⟩] }
  | .setBackendEnabled id enabled =>
      some { connection with backends := connection.backends.setBackendEnabled id enabled }
  | .deleteBackend id => some { connection with backends := connection.backends.deleteBackend id }
  | .log newHour => some (connection.log newHour)
  | .insert table => some (connection.insert table)
  | .delete table gone => some (connection.delete table gone)
  | .reopen => some { connection with lastInsert := 0 }

/-- An upsert that finds a row with its URL comes right after the insertion of that row, or before
any insertion of the connection; or its token is no session. -/
def lastInserted (connection : Connection) : Statement → Bool
  | .upsertBackend _ baseURL _ _ kind token =>
      (BackendTable.storedToken text codex grok kind token).isNone ||
        (connection.backends.atURL baseURL).all fun row =>
          connection.lastInsert = 0 || connection.lastInsert = row.id
  | _ => true

end Operations

/-- Every upsert returned the id of its row. -/
def AllRight (connection : Connection) : Prop :=
  ∀ upserted ∈ connection.upserts, upserted.Right

section Ids

variable {CodexSession GrokSession : Type} {text : TextLibrary}
  {codex : SessionLibrary CodexSession} {grok : SessionLibrary GrokSession}
  {connection next : Connection} {statement : Statement}

/-- After an upsert the row with the URL is the one there was, or the new one. -/
theorem atURL_write (table : BackendTable) (name baseURL : String) (enabled : Bool) (weight : ℤ)
    (kind : BackendKind) (token : String) :
    ((table.write name baseURL enabled weight kind token).atURL baseURL).map (·.id) =
      some (((table.atURL baseURL).map (·.id)).getD table.next) := by
  simp only [BackendTable.write]
  split
  · rename_i conflict
    rcases conflict with ⟨row, inside, hasURL⟩
    let change (row : BackendRow) : BackendRow :=
      if row.baseURL = trimRight baseURL '/' then
        BackendTable.update row name enabled weight kind token
      else row
    have sameURL : ∀ row, (change row).baseURL = row.baseURL := by
      intro row
      simp only [change]
      split <;> rfl
    have sameId : ∀ row, (change row).id = row.id := by
      intro row
      simp only [change]
      split <;> rfl
    have found : (table.atURL baseURL).isSome := by
      rw [BackendTable.atURL, List.find?_isSome]
      exact ⟨row, inside, by simpa using hasURL⟩
    rcases Option.isSome_iff_exists.mp found with ⟨old, isOld⟩
    calc ((table.rows.map change).find? (·.baseURL = trimRight baseURL '/')).map (·.id)
        = ((table.rows.find? (·.baseURL = trimRight baseURL '/')).map change).map (·.id) := by
          rw [List.find?_map]
          simp only [Function.comp_def, sameURL]
      _ = some (((table.atURL baseURL).map (·.id)).getD table.next) := by
          rw [BackendTable.atURL] at isOld ⊢
          simp [isOld, sameId]
  · rename_i free
    have missing : table.atURL baseURL = none := by
      rw [BackendTable.atURL, List.find?_eq_none]
      intro row inside hasURL
      exact free ⟨row, inside, by simpa using hasURL⟩
    have passes : table.rows.find? (·.baseURL = trimRight baseURL '/') = none := missing
    simp [BackendTable.atURL, passes, BackendTable.update]

/-- The id that is right is that of the row that has the URL after the upsert. -/
theorem right_iff {table : BackendTable} {baseURL : String} {id right : BackendId}
    (isRow : (table.atURL baseURL).map (·.id) = some right) :
    Upserted.Right ⟨id, trimRight baseURL '/', table.rows⟩ ↔ id = right := by
  rcases Option.map_eq_some_iff.mp isRow with ⟨row, found, rfl⟩
  have inside := List.mem_of_find?_eq_some found
  have hasURL : row.baseURL = trimRight baseURL '/' := by simpa using List.find?_some found
  constructor
  · rintro ⟨other, otherInside, otherURL, otherId⟩
    have same := List.inj_on_of_nodup_map table.url_nodup otherInside inside
      (otherURL.trans hasURL.symm)
    rw [← same]
    exact otherId.symm
  · rintro rfl
    exact ⟨row, inside, hasURL, rfl⟩

/-- The id that one upsert returns is right when it inserts the row, and otherwise when the last
insertion of the connection was that of the row or there was none. -/
theorem upsertBackend_right_iff {name baseURL token : String} {enabled : Bool} {weight : ℤ}
    {kind : BackendKind} {id : BackendId}
    (accepted : connection.upsertBackend text codex grok name baseURL enabled weight kind token =
      some (next, id)) :
    Upserted.Right ⟨id, trimRight baseURL '/', next.backends.rows⟩ ↔
      (connection.backends.atURL baseURL).all (fun row =>
        connection.lastInsert = 0 || connection.lastInsert = row.id) = true := by
  simp only [upsertBackend, BackendTable.upsertBackend, Option.map_map,
    Option.map_eq_some_iff] at accepted
  rcases accepted with ⟨stored, _, result⟩
  simp only [Function.comp_apply, Prod.mk.injEq] at result
  rcases result with ⟨rfl, rfl⟩
  have rightId := atURL_write connection.backends name baseURL enabled weight kind stored
  rw [right_iff rightId]
  simp only [rightId]
  cases connection.backends.atURL baseURL with
  | none => simp
  | some row => by_cases fresh : connection.lastInsert = 0 <;> simp [fresh]

/-- What a step does to the history: nothing, or an id that is right when the step is admitted. -/
theorem step_effect (fires : connection.step text codex grok statement = some next) :
    (next.upserts = connection.upserts ∧
        connection.lastInserted text codex grok statement = true) ∨
      ∃ upserted, next.upserts = connection.upserts ++ [upserted] ∧
        (upserted.Right ↔ connection.lastInserted text codex grok statement = true) := by
  cases statement with
  | upsertBackend name baseURL enabled weight kind token =>
      simp only [step] at fires
      split at fires
      · rename_i refused
        cases fires
        left
        refine ⟨rfl, ?_⟩
        simp only [upsertBackend, BackendTable.upsertBackend, Option.map_eq_none_iff] at refused
        simp [lastInserted, refused]
      · rename_i written id accepted
        cases fires
        right
        have sameHistory : written.upserts = connection.upserts := by
          simp only [upsertBackend, BackendTable.upsertBackend, Option.map_map,
            Option.map_eq_some_iff] at accepted
          rcases accepted with ⟨stored, _, result⟩
          simp only [Function.comp_apply, Prod.mk.injEq] at result
          rw [← result.1]
        have stored : (BackendTable.storedToken text codex grok kind token).isNone = false := by
          cases isStored : BackendTable.storedToken text codex grok kind token with
          | none => simp [upsertBackend, BackendTable.upsertBackend, isStored] at accepted
          | some stored => rfl
        refine ⟨_, by rw [sameHistory], ?_⟩
        rw [upsertBackend_right_iff accepted]
        simp [lastInserted, stored]
  | log newHour =>
      cases fires
      left
      refine ⟨?_, rfl⟩
      cases newHour <;> rfl
  | _ =>
      cases fires
      exact Or.inl ⟨rfl, rfl⟩

theorem AllRight.past (fires : connection.step text codex grok statement = some next)
    (right : next.AllRight) : connection.AllRight := by
  rcases step_effect fires with ⟨same, _⟩ | ⟨upserted, more, _⟩
  · rwa [AllRight, same] at right
  · intro earlier listed
    apply right
    rw [more]
    exact List.mem_append_left _ listed

theorem AllRight.step (right : connection.AllRight)
    (admitted : connection.lastInserted text codex grok statement = true)
    (fires : connection.step text codex grok statement = some next) : next.AllRight := by
  rcases step_effect fires with ⟨same, _⟩ | ⟨upserted, more, isRight⟩
  · rwa [AllRight, same]
  · intro earlier listed
    rw [more] at listed
    rcases List.mem_append.mp listed with old | isNew
    · exact right earlier old
    · rw [List.mem_singleton.mp isNew]
      exact isRight.mpr admitted

theorem AllRight.lastInserted (fires : connection.step text codex grok statement = some next)
    (right : next.AllRight) : connection.lastInserted text codex grok statement = true := by
  rcases step_effect fires with ⟨_, admitted⟩ | ⟨upserted, more, isRight⟩
  · exact admitted
  · apply isRight.mp
    apply right
    rw [more]
    exact List.mem_append_right _ (List.mem_singleton_self _)

end Ids

/-- In a run of store operations every upsert returns the id of its row exactly when each upsert
that finds a row follows the insertion of that row without another insertion in between, or comes
before all insertions of the connection. -/
theorem upserts_right_iff {CodexSession GrokSession : Type} {text : TextLibrary}
    {codex : SessionLibrary CodexSession} {grok : SessionLibrary GrokSession}
    {backends : BackendTable} {rowids : OtherTable → List ℕ} {sequence : OtherTable → ℕ}
    {statements : List Statement} {last : Connection}
    (ran : exec (step text codex grok) (opened backends rowids sequence) statements = some last) :
    last.AllRight ↔ Run (step text codex grok)
      (fun connection statement => connection.lastInserted text codex grok statement = true)
      (opened backends rowids sequence) statements last :=
  good_iff_run (fun _ right admitted fires => ⟨trivial, AllRight.step right admitted fires⟩)
    (fun _ fires right => AllRight.lastInserted fires right) AllRight.past ran trivial
    (by simp [AllRight, opened])

section Trials

/-- Tokens are no sessions. -/
def noSessions : SessionLibrary String where
  parse _ := none
  compact session := session

/-- A new store. -/
def created : Connection :=
  opened ⟨[], 1, by simp, by simp, by simp⟩ (fun _ => []) fun _ => 0

def upsertOllama (weight : ℤ) : Statement :=
  .upsertBackend "ollama" "http://127.0.0.1:11434/" true weight .ollama ""

/-- A backend is written twice with nothing in between, and once after a restart. -/
def undisturbed : List Statement :=
  [upsertOllama 1, upsertOllama 2, .log true, .log false, .reopen, upsertOllama 3]

theorem upserts_right_iff_undisturbed :
    ∃ last, exec (step asciiText noSessions noSessions) created undisturbed = some last ∧
      last.upserts.map (·.id) = [1, 1, 1] ∧
      (last.AllRight ↔ Run (step asciiText noSessions noSessions)
        (fun connection statement =>
          connection.lastInserted asciiText noSessions noSessions statement = true)
        created undisturbed last) := by
  have ran : (exec (step asciiText noSessions noSessions) created undisturbed).any
      (·.upserts.map (·.id) = [1, 1, 1]) = true := by
    decide
  rcases (Option.any_eq_true _ _).mp ran with ⟨last, executed, ids⟩
  exact ⟨last, executed, by simpa using ids, upserts_right_iff executed⟩

/-- Two requests are logged before the backend is written again. -/
def logged : List Statement :=
  [upsertOllama 1, .log true, .log false, upsertOllama 2]

/-- The second upsert returns the rowid of a request. -/
theorem not_upserts_right :
    ¬∀ (CodexSession GrokSession : Type) (text : TextLibrary)
        (codex : SessionLibrary CodexSession) (grok : SessionLibrary GrokSession)
        (backends : BackendTable) (rowids : OtherTable → List ℕ) (sequence : OtherTable → ℕ)
        (statements : List Statement) (last : Connection),
      exec (step text codex grok) (opened backends rowids sequence) statements = some last →
        last.AllRight := by
  intro claim
  have ran : (exec (step asciiText noSessions noSessions) created logged).any
      (·.upserts.any fun upserted => upserted.id = 2 && upserted.rows.map (·.id) = [1]) = true := by
    decide
  rcases (Option.any_eq_true _ _).mp ran with ⟨last, executed, wrong⟩
  rcases List.any_eq_true.mp wrong with ⟨upserted, listed, differs⟩
  simp only [Bool.and_eq_true, decide_eq_true_eq] at differs
  rcases claim _ _ _ _ _ _ _ _ _ last executed upserted listed with ⟨row, inside, _, sameId⟩
  have isListed : row.id ∈ upserted.rows.map (·.id) := List.mem_map_of_mem inside
  rw [differs.2, sameId, differs.1] at isListed
  exact absurd isListed (by decide)

end Trials

end Connection

end MikroLLM.Store
