import MikroLLM.Library.Runs
import MikroLLM.Store.Backends

/-!
# Sessions that requests refresh

A request to a subscription carries the row of its backend through its calls, and
each session that it refreshes is stored with the rest of the row it carries. The
admin and other requests write the row in the meantime.
-/

namespace MikroLLM.Proxy

open Domain Go Library Store

/-- A request of `forwardCodex` or `forwardGrok` with its row, how many refreshes it has left, and a
session that it has refreshed but not stored, with the number of the refresh. -/
structure SessionRequest where
  backend : BackendRow
  left : ℕ
  refreshed : Option (String × ℕ)

/-- A persist callback that wrote: for which backend, the row that has the URL, the number of the
refresh, the rows before and after, and what the rows had been given before. -/
structure Persisted where
  backend : BackendId
  row : BackendId
  serial : ℕ
  before : List BackendRow
  after : List BackendRow
  given : List (BackendId × ℕ)

/-- The callback writes the token of its backend only, and no session that is older than one the
row was given. -/
def Persisted.Sound (persisted : Persisted) : Prop :=
  (∃ token, persisted.after = persisted.before.map fun row =>
    if row.id = persisted.backend then { row with token := token } else row) ∧
  ∀ earlier ∈ persisted.given, earlier.1 = persisted.row → earlier.2 ≤ persisted.serial

/-- The table and the requests. The refreshes are counted, and `given` are the numbers of those
that a row was given. -/
structure SessionStore where
  table : BackendTable
  requests : List SessionRequest
  refreshes : ℕ
  given : List (BackendId × ℕ)
  persisted : List Persisted

/-- A step: an operation of the admin, a request that starts with the row of a backend, a refresh
with what `Compact` makes of the new session, the callback, and the end of a request. -/
inductive SessionAction
  | upsertBackend (name baseURL : String) (enabled : Bool) (weight : ℤ) (kind : BackendKind)
      (token : String)
  | setBackendEnabled (id : BackendId) (enabled : Bool)
  | deleteBackend (id : BackendId)
  | start (id : BackendId)
  | refresh (request : ℕ) (compact : String)
  | persist (request : ℕ)
  | finish (request : ℕ)

/-- The refreshes of `codex.Complete`, before and after its first call, and that of `grok.Write`. -/
def refreshesOf : BackendKind → ℕ
  | .codex => 2
  | .grok => 1
  | _ => 0

namespace SessionStore

section System

variable {CodexSession GrokSession : Type} (text : TextLibrary)
  (codex : SessionLibrary CodexSession) (grok : SessionLibrary GrokSession)

/-- The persist callback: `UpsertBackend` with the row of the request. -/
def callback (store : SessionStore) (backend : BackendRow) (compact : String) (age : ℕ) :
    SessionStore :=
  match store.table.upsertBackend text codex grok backend.name backend.baseURL backend.enabled
      backend.weight backend.kind compact with
  | none => store
  | some written =>
      let row := ((store.table.atURL backend.baseURL).map (·.id)).getD store.table.next
      { store with
        table := written
        given := store.given ++ [(row, age)]
        persisted := store.persisted ++
          [⟨backend.id, row, age, store.table.rows, written.rows, store.given⟩] }

def step (store : SessionStore) : SessionAction → Option SessionStore
  | .upsertBackend name baseURL enabled weight kind token =>
      some { store with
        table := (store.table.upsertBackend text codex grok name baseURL enabled weight kind
          token).getD store.table }
  | .setBackendEnabled id enabled =>
      some { store with table := store.table.setBackendEnabled id enabled }
  | .deleteBackend id => some { store with table := store.table.deleteBackend id }
  | .start id =>
      (store.table.getBackend id).map fun backend => { store with
        requests := store.requests ++ [⟨backend, refreshesOf backend.kind, none⟩] }
  | .refresh request compact =>
      match store.requests[request]? with
      | some ⟨backend, left + 1, none⟩ => some { store with
          requests := store.requests.set request ⟨backend, left, some (compact, store.refreshes)⟩
          refreshes := store.refreshes + 1 }
      | _ => none
  | .persist request =>
      match store.requests[request]? with
      | some ⟨backend, left, some (compact, age)⟩ =>
          some { store.callback text codex grok backend compact age with
            requests := store.requests.set request ⟨backend, left, none⟩ }
      | _ => none
  | .finish request => some { store with requests := store.requests.eraseIdx request }

/-- No request has started. -/
def init (table : BackendTable) : SessionStore :=
  ⟨table, [], 0, [], []⟩

/-- Every callback that wrote was sound. -/
def Keeps (store : SessionStore) : Prop :=
  ∀ persisted ∈ store.persisted, persisted.Sound

/-- The row of the request is still what the store has, and no later session was stored. -/
def upToDate (store : SessionStore) (backend : BackendRow) (token : String) (serial : ℕ) : Bool :=
  (store.table.atURL backend.baseURL).any fun row =>
    let written := BackendTable.update row backend.name backend.enabled backend.weight backend.kind
      token
    (row.id = backend.id && written = { row with token := token } || written = row) &&
      store.given.all fun earlier => earlier.1 ≠ row.id || earlier.2 ≤ serial

/-- A request that stores a session has a row that nothing has made stale. -/
def current (store : SessionStore) : SessionAction → Bool
  | .persist request =>
      match store.requests[request]? with
      | some ⟨backend, _, some (compact, serial)⟩ =>
          (BackendTable.storedToken text codex grok backend.kind compact).all fun token =>
            store.upToDate backend token serial
      | _ => true
  | _ => true

end System

section Steps

variable {CodexSession GrokSession : Type} {text : TextLibrary}
  {codex : SessionLibrary CodexSession} {grok : SessionLibrary GrokSession}
  {store next : SessionStore} {action : SessionAction}

/-- The upsert of a row changes the token of the backend only, when it is the row of the backend or
when it changes nothing. -/
theorem onlyToken_iff {table : BackendTable} {found : BackendRow} {backend : BackendId}
    {change : BackendRow → BackendRow} (inside : found ∈ table.rows) :
    (∃ token, (table.rows.map fun row => if row.id = found.id then change row else row) =
      table.rows.map fun row => if row.id = backend then { row with token := token } else row) ↔
    (found.id = backend ∧ change found = { found with token := (change found).token }) ∨
      change found = found := by
  have same : ∀ row ∈ table.rows, ∀ other ∈ table.rows, row.id = other.id → row = other := by
    intro row listed other otherListed sameId
    exact List.inj_on_of_nodup_map table.id_nodup listed otherListed sameId
  constructor
  · rintro ⟨token, rows⟩
    have atFound := List.map_inj_left.mp rows found inside
    rw [if_pos rfl] at atFound
    by_cases isBackend : found.id = backend
    · rw [if_pos isBackend] at atFound
      refine Or.inl ⟨isBackend, ?_⟩
      rw [atFound]
    · rw [if_neg isBackend] at atFound
      exact Or.inr atFound
  · rintro (⟨isBackend, changes⟩ | unchanged)
    · refine ⟨(change found).token, ?_⟩
      apply List.map_congr_left
      intro row listed
      rw [isBackend]
      by_cases sameId : row.id = backend
      · rw [if_pos sameId, if_pos sameId, same row listed found inside (sameId.trans isBackend.symm)]
        exact changes
      · rw [if_neg sameId, if_neg sameId]
    · refine ⟨((table.getBackend backend).map (·.token)).getD "", ?_⟩
      apply List.map_congr_left
      intro row listed
      have left : (if row.id = found.id then change row else row) = row := by
        split
        · rename_i sameId
          rw [same row listed found inside sameId, unchanged]
        · rfl
      rw [left]
      split
      · rename_i isBackend
        cases read : table.getBackend backend with
        | none => simpa [isBackend] using List.find?_eq_none.mp read row listed
        | some other =>
            have otherId : other.id = backend := by simpa using List.find?_some read
            rw [same other (List.mem_of_find?_eq_some read) row listed (otherId.trans isBackend.symm)]
            rfl
      · rfl

/-- What a callback does: nothing, or a write that is sound when the row is up to date. -/
theorem callback_effect (store : SessionStore) (backend : BackendRow) (compact : String)
    (serial : ℕ) :
    ((store.callback text codex grok backend compact serial).persisted = store.persisted ∧
      (BackendTable.storedToken text codex grok backend.kind compact).all
        (fun token => store.upToDate backend token serial) = true) ∨
    ∃ persisted, (store.callback text codex grok backend compact serial).persisted =
        store.persisted ++ [persisted] ∧
      (persisted.Sound ↔ (BackendTable.storedToken text codex grok backend.kind compact).all
        (fun token => store.upToDate backend token serial) = true) := by
  unfold callback BackendTable.upsertBackend
  cases stores : BackendTable.storedToken text codex grok backend.kind compact with
  | none => exact Or.inl ⟨rfl, rfl⟩
  | some token =>
      refine Or.inr ⟨_, rfl, ?_⟩
      simp only [Option.all_some, upToDate, Persisted.Sound]
      cases finds : store.table.atURL backend.baseURL with
      | none =>
          simp only [Option.any_none, Bool.false_eq_true, iff_false, not_and]
          rintro ⟨written, rows⟩
          have lengths := congrArg List.length rows
          rw [BackendTable.length_write_of_none finds, List.length_map] at lengths
          omega
      | some row =>
          rw [BackendTable.write_rows_of_some finds]
          have inside := List.mem_of_find?_eq_some finds
          simp only [Option.any_some, Option.map_some, Option.getD_some, Bool.and_eq_true,
            Bool.or_eq_true, decide_eq_true_eq, List.all_eq_true, Bool.or_eq_true]
          rw [onlyToken_iff inside]
          apply and_congr
          · rfl
          · apply forall_congr'
            intro earlier
            apply forall_congr'
            intro _
            simp only [ne_eq]
            tauto

/-- What a step does to the history: nothing, or a write that is sound when it is admitted. -/
theorem step_effect (fires : store.step text codex grok action = some next) :
    (next.persisted = store.persisted ∧ store.current text codex grok action = true) ∨
      ∃ persisted, next.persisted = store.persisted ++ [persisted] ∧
        (persisted.Sound ↔ store.current text codex grok action = true) := by
  cases action with
  | persist request =>
      simp only [step] at fires
      split at fires
      · rename_i backend left compact serial isRequest
        cases fires
        simp only [current, isRequest]
        exact callback_effect store backend compact serial
      · exact nomatch fires
  | refresh request compact =>
      simp only [step] at fires
      split at fires
      · cases fires
        exact Or.inl ⟨rfl, rfl⟩
      · exact nomatch fires
  | start id =>
      rcases Option.map_eq_some_iff.mp fires with ⟨backend, _, rfl⟩
      exact Or.inl ⟨rfl, rfl⟩
  | upsertBackend name baseURL enabled weight kind token =>
      cases fires
      exact Or.inl ⟨rfl, rfl⟩
  | setBackendEnabled id enabled =>
      cases fires
      exact Or.inl ⟨rfl, rfl⟩
  | deleteBackend id =>
      cases fires
      exact Or.inl ⟨rfl, rfl⟩
  | finish request =>
      cases fires
      exact Or.inl ⟨rfl, rfl⟩

theorem Keeps.past (fires : store.step text codex grok action = some next) (keeps : next.Keeps) :
    store.Keeps := by
  rcases step_effect fires with ⟨same, _⟩ | ⟨persisted, more, _⟩
  · rwa [Keeps, same] at keeps
  · intro earlier listed
    apply keeps
    rw [more]
    exact List.mem_append_left _ listed

theorem Keeps.step (keeps : store.Keeps) (admitted : store.current text codex grok action = true)
    (fires : store.step text codex grok action = some next) : next.Keeps := by
  rcases step_effect fires with ⟨same, _⟩ | ⟨persisted, more, sound⟩
  · rwa [Keeps, same]
  · intro earlier listed
    rw [more] at listed
    rcases List.mem_append.mp listed with old | isNew
    · exact keeps earlier old
    · rw [List.mem_singleton.mp isNew]
      exact sound.mpr admitted

theorem Keeps.current (fires : store.step text codex grok action = some next) (keeps : next.Keeps) :
    store.current text codex grok action = true := by
  rcases step_effect fires with ⟨_, admitted⟩ | ⟨persisted, more, sound⟩
  · exact admitted
  · apply sound.mp
    apply keeps
    rw [more]
    exact List.mem_append_right _ (List.mem_singleton_self _)

end Steps

/-- A session is stored without another change, and not over a later one, exactly when no request
stores one with a row that is stale. -/
theorem sessions_kept_iff {CodexSession GrokSession : Type} {text : TextLibrary}
    {codex : SessionLibrary CodexSession} {grok : SessionLibrary GrokSession} {table : BackendTable}
    {actions : List SessionAction} {last : SessionStore}
    (ran : exec (step text codex grok) (init table) actions = some last) :
    last.Keeps ↔ Run (step text codex grok)
      (fun store action => store.current text codex grok action = true) (init table) actions last :=
  good_iff_run (fun _ keeps admitted fires => ⟨trivial, Keeps.step keeps admitted fires⟩)
    (fun _ fires keeps => Keeps.current fires keeps) Keeps.past ran trivial (by simp [Keeps, init])

section Trials

/-- The compact form of a Codex session. -/
def codexToken (access refresh : String) : String :=
  "\x7b\"access_token\":\"" ++ access ++ "\",\"refresh_token\":\"" ++ refresh ++
    "\",\"model\":\"gpt-5.4\"\x7d"

/-- The sessions with these compact forms. -/
def knownSessions (known : List String) : SessionLibrary String where
  parse token := if token ∈ known then some token else none
  compact session := session

def codexSessions : SessionLibrary String :=
  knownSessions [codexToken "a0" "r0", codexToken "a1" "r1"]

/-- A store with one Codex backend. -/
def codexTable : BackendTable where
  rows := [⟨⟨1, "codex", "https://chatgpt.com/backend-api/codex", .codex, codexToken "a0" "r0",
    true⟩, 1⟩]
  next := 2
  id_nodup := by decide
  url_nodup := by decide
  id_lt := by decide

/-- One request refreshes its session and stores it. -/
def refreshed : List SessionAction :=
  [.start 1, .refresh 0 (codexToken "a1" "r1"), .persist 0, .finish 0]

theorem sessions_kept_iff_refreshed :
    ∃ last, exec (step asciiText codexSessions codexSessions) (init codexTable) refreshed =
        some last ∧ last.table.rows.map (·.token) = [codexToken "a1" "r1"] ∧
      (last.Keeps ↔ Run (step asciiText codexSessions codexSessions)
        (fun store action => store.current asciiText codexSessions codexSessions action = true)
        (init codexTable) refreshed last) := by
  have ran : (exec (step asciiText codexSessions codexSessions) (init codexTable) refreshed).any
      (·.table.rows.map (·.token) = [codexToken "a1" "r1"]) = true := by
    decide
  rcases (Option.any_eq_true _ _).mp ran with ⟨last, executed, tokens⟩
  exact ⟨last, executed, by simpa using tokens, sessions_kept_iff executed⟩

/-- The admin disables the backend while its session is refreshed. -/
def disabledBehind : List SessionAction :=
  [.start 1, .refresh 0 (codexToken "a1" "r1"), .setBackendEnabled 1 false, .persist 0]

/-- The backend is enabled again. -/
theorem not_sessions_kept :
    ¬∀ (CodexSession GrokSession : Type) (text : TextLibrary)
        (codex : SessionLibrary CodexSession) (grok : SessionLibrary GrokSession)
        (table : BackendTable) (actions : List SessionAction) (last : SessionStore),
      exec (step text codex grok) (init table) actions = some last → last.Keeps := by
  intro claim
  have ran : (exec (step asciiText codexSessions codexSessions) (init codexTable)
      disabledBehind).any (fun last => last.persisted.any fun persisted =>
        persisted.before.map (·.enabled) = [false] && persisted.after.map (·.enabled) = [true]) =
        true := by
    decide
  rcases (Option.any_eq_true _ _).mp ran with ⟨last, executed, enabled⟩
  rcases List.any_eq_true.mp enabled with ⟨persisted, listed, differs⟩
  rcases claim String String asciiText codexSessions codexSessions codexTable disabledBehind last
    executed persisted listed with ⟨⟨token, rows⟩, _⟩
  simp only [Bool.and_eq_true, decide_eq_true_eq] at differs
  have same : persisted.after.map (·.enabled) = persisted.before.map (·.enabled) := by
    rw [rows, List.map_map]
    apply List.map_congr_left
    intro row _
    simp only [Function.comp_apply]
    split <;> rfl
  rw [differs.1, differs.2] at same
  exact nomatch same

end Trials

end SessionStore

end MikroLLM.Proxy
