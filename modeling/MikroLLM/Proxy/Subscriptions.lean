import MikroLLM.Library.Custody
import MikroLLM.Library.Runs
import MikroLLM.Proxy.Logins

/-!
# Refresh tokens of subscriptions

A refresh exchanges the refresh token of a session at its issuer, and an issuer
that rotates them takes no token twice. Requests carry the row that they have
read, refresh its session and store it, while the admin and other requests write
the row as well. Who has the tokens of a kind is a custody.
-/

namespace MikroLLM.Proxy

open Domain Go Library Store

/-- A range over a map takes its entries in such an order. -/
abbrev MapOrder := List (String × Doc) → List (String × Doc)

/-- A reply with its status, the line of the status and its body, or an error. -/
abbrev TokenReply := Except String (Status × String × Bytes)

/-- Where `codex.Complete` or `grok.Write` is: `again` after the answer 401. A refresh that has been
granted is not stored yet, and `spent` is the token that it exchanged. -/
inductive LoginPhase
  | begun
  | refreshing (again : Bool)
  | granted (again : Bool) (spent : String)
  | calling (again : Bool)
  | ended

def LoginPhase.spent : LoginPhase → Option String
  | granted _ spent => some spent
  | _ => none

/-- A request of `forwardCodex` or `forwardGrok` with the row that it carries. -/
structure LoginCall where
  backend : BackendRow
  login : Login
  phase : LoginPhase

/-- The store, the requests, and for each kind the refresh tokens that the issuer takes and those
that it has ever given. -/
structure Subscriptions where
  table : BackendTable
  calls : List LoginCall
  live : BackendKind → List String
  given : BackendKind → List String

/-- A step: an operation of the admin, a request that starts with the row of a backend and goes on,
the answer of its upstream, the reply to a refresh, the callback that stores a session, the refresh
of a health probe, and a restart of the gateway. -/
inductive LoginMove
  | upsertBackend (order : MapOrder) (name baseURL : String) (enabled : Bool) (weight : ℤ)
      (kind : BackendKind) (token : String)
  | setBackendEnabled (id : BackendId) (enabled : Bool)
  | deleteBackend (id : BackendId)
  | start (order : MapOrder) (id : BackendId)
  | proceed (call : ℕ) (now : ℤ) (converts : Bool)
  | answer (call : ℕ) (status : ℕ)
  | refresh (call : ℕ) (discovery reply : TokenReply)
  | persist (order : MapOrder) (call : ℕ) (converts : Bool)
  | probe (order : MapOrder) (id : BackendId) (discovery reply : TokenReply)
  | restart

namespace Login

/-- The refresh token, when there is one. -/
def token (login : Login) : Option String :=
  if login.refreshToken = "" then none else some login.refreshToken

/-- The check before the first call, which `grok.Write` does not make. -/
def expired (now : ℤ) : Login → Bool
  | codex session => Codex.jwtExpired now session.accessToken
  | grok _ => false

end Login

namespace Subscriptions

/-- No request has come yet, and nothing is stored. -/
def init : Subscriptions := ⟨BackendTable.empty, [], fun _ => [], fun _ => []⟩

/-- The issuer has given a token. -/
def issue (state : Subscriptions) (kind : BackendKind) (token : Option String) : Subscriptions :=
  { state with
    live := fun other => if other = kind then token.toList ++ state.live kind else state.live other
    given := fun other =>
      if other = kind then token.toList ++ state.given kind else state.given other }

/-- The admin has a token that the issuer gave. One that it has given before is not taken again. -/
def issueNew (state : Subscriptions) (kind : BackendKind) (token : Option String) : Subscriptions :=
  state.issue kind (token.filter (· ∉ state.given kind))

/-- The issuer no longer takes a token. -/
def revoke (state : Subscriptions) (kind : BackendKind) (token : String) : Subscriptions :=
  { state with
    live := fun other =>
      if other = kind then (state.live kind).filter (· ≠ token) else state.live other }

section System

variable (text : TextLibrary) (stamp : ℤ → String) (rotates : BackendKind → Bool)

/-- The issuer exchanges a token for the next one. -/
def exchange (state : Subscriptions) (kind : BackendKind) (spent next : String) : Subscriptions :=
  (if rotates kind then state.revoke kind spent else state).issue kind (some next)

/-- `Store.UpsertBackend`, whose error the callback ignores. -/
def upsert (state : Subscriptions) (order : MapOrder) (name baseURL : String) (enabled : Bool)
    (weight : ℤ) (kind : BackendKind) (token : String) : Subscriptions :=
  { state with
    table := (state.table.upsertBackend text Codex.sessions (Grok.sessions order) name baseURL
      enabled weight kind token).getD state.table }

def setCall (state : Subscriptions) (index : ℕ) (call : LoginCall) : Subscriptions :=
  { state with calls := state.calls.set index call }

/-- The session of a health probe, and the one that it is granted. -/
def probeGrants (state : Subscriptions) (order : MapOrder) (id : BackendId)
    (discovery reply : TokenReply) : Option (Login × Login) :=
  (state.table.getBackend id).bind fun backend =>
    if backend.kind = .grok then
      (Login.parse order backend.kind backend.token).bind fun login =>
        (login.refresh stamp discovery reply).map fun next => (login, next)
    else none

def step (state : Subscriptions) : LoginMove → Option Subscriptions
  | .upsertBackend order name baseURL enabled weight kind token =>
      some ((state.upsert text order name baseURL enabled weight kind token).issueNew kind
        ((Login.parse order kind token).bind Login.token))
  | .setBackendEnabled id enabled =>
      some { state with table := state.table.setBackendEnabled id enabled }
  | .deleteBackend id => some { state with table := state.table.deleteBackend id }
  | .start order id =>
      (state.table.getBackend id).map fun backend =>
        match Login.parse order backend.kind backend.token with
        | none => state
        | some login => { state with calls := state.calls ++ [⟨backend, login, .begun⟩] }
  | .proceed index now converts =>
      match state.calls[index]? with
      | some ⟨backend, login, .begun⟩ =>
          let phase : LoginPhase :=
            if login.expired now = true ∧ login.refreshToken ≠ "" then .refreshing false
            else if converts then .calling false
            else .ended
          some (state.setCall index ⟨backend, login, phase⟩)
      | _ => none
  | .answer index status =>
      match state.calls[index]? with
      | some ⟨backend, login, .calling again⟩ =>
          let phase : LoginPhase :=
            if again = false ∧ status = 401 ∧ login.refreshToken ≠ "" then .refreshing true
            else .ended
          some (state.setCall index ⟨backend, login, phase⟩)
      | _ => none
  | .refresh index discovery reply =>
      match state.calls[index]? with
      | some ⟨backend, login, .refreshing again⟩ =>
          match login.refresh stamp discovery reply with
          | none => some (state.setCall index ⟨backend, login, .ended⟩)
          | some next =>
              some ((state.exchange rotates login.kind login.refreshToken next.refreshToken).setCall
                index ⟨backend, next, .granted again login.refreshToken⟩)
      | _ => none
  | .persist order index converts =>
      match state.calls[index]? with
      | some ⟨backend, login, .granted again _⟩ =>
          let phase : LoginPhase := if again || converts then .calling again else .ended
          some ((state.upsert text order backend.name backend.baseURL backend.enabled backend.weight
            backend.kind login.compact).setCall index ⟨backend, login, phase⟩)
      | _ => none
  | .probe order id discovery reply =>
      (state.table.getBackend id).map fun _ =>
        match state.probeGrants stamp order id discovery reply with
        | none => state
        | some (login, next) => state.exchange rotates .grok login.refreshToken next.refreshToken
  | .restart => some { state with calls := [] }

/-- What is asked of the issuers: they exchange the tokens that they take, for new ones where they
rotate them, and a request is given an access token that is not blank. -/
def Issues (state : Subscriptions) : LoginMove → Prop
  | .refresh index discovery reply =>
      ∀ call ∈ state.calls[index]?, ∀ next, call.login.refresh stamp discovery reply = some next →
        next.Usable ∧ call.login.refreshToken ∈ state.live call.login.kind ∧
          (rotates call.login.kind = true → next.refreshToken ∉ state.given call.login.kind)
  | .probe order id discovery reply =>
      rotates .grok = true → ∀ granted ∈ state.probeGrants stamp order id discovery reply,
        granted.1.refreshToken ∈ state.live .grok ∧ granted.2.refreshToken ∉ state.given .grok
  | _ => True

/-- What is asked of a step for no token to be lost: the admin saves new logins; the health probe is
granted nothing where tokens are rotated, as it does not store what it is granted; and the gateway
does not stop between a refresh and its callback. -/
def Careful (state : Subscriptions) : LoginMove → Prop
  | .upsertBackend order _ _ _ _ kind token =>
      ∀ login, Login.parse order kind token = some login → login.refreshToken ∉ state.given kind
  | .probe order id discovery reply =>
      rotates .grok = true → state.probeGrants stamp order id discovery reply = none
  | .restart => ∀ call ∈ state.calls, call.phase.spent = none
  | _ => True

def Honest (state : Subscriptions) (move : LoginMove) : Prop :=
  state.Issues stamp rotates move ∧ state.Careful stamp rotates move

end System

section Abstraction

/-- The refresh token in the row with a URL, for the rows of a kind. -/
def tokenAt (table : BackendTable) (kind : BackendKind) (url : String) : Option String :=
  (table.rows.find? (·.baseURL = url)).bind fun row =>
    if row.kind = kind then
      (Login.parse (fun entries => entries) row.kind row.token).bind Login.token
    else none

/-- What a request has of the tokens of a kind. -/
def errand (kind : BackendKind) (call : LoginCall) : Errand String String :=
  if call.backend.kind = kind then
    ⟨call.backend.baseURL, call.login.token, call.phase.spent⟩
  else ⟨call.backend.baseURL, none, none⟩

/-- Who has the tokens of a kind. -/
def custody (state : Subscriptions) (kind : BackendKind) : Custody String String where
  stored := tokenAt state.table kind
  errands := state.calls.map (errand kind)
  accepted := {token | token ∈ state.live kind}
  issued := {token | token ∈ state.given kind}

end Abstraction

section Tables

variable {table : BackendTable} {name baseURL token : String} {enabled : Bool} {weight : ℤ}
  {kind other : BackendKind} {id : BackendId} {row : BackendRow}

theorem tokenAt_write :
    tokenAt (table.write name baseURL enabled weight kind token) other =
      Function.update (tokenAt table other) (trimRight baseURL '/')
        (if kind = other then (Login.parse (fun entries => entries) kind token).bind Login.token
        else none) := by
  funext url
  by_cases same : url = trimRight baseURL '/'
  · subst same
    rcases BackendTable.exists_mem_write table name baseURL enabled weight kind token with
      ⟨row, inside, hasURL⟩
    rcases BackendTable.mem_write_self inside hasURL with ⟨isKind, isToken⟩
    rw [Function.update_self, tokenAt,
      BackendTable.find?_baseURL_eq_some_iff.mpr ⟨inside, hasURL⟩, Option.bind_some, isKind, isToken]
  · have sameRow : (table.write name baseURL enabled weight kind token).rows.find?
        (·.baseURL = url) = table.rows.find? (·.baseURL = url) := by
      apply Option.ext
      intro row
      rw [BackendTable.find?_baseURL_eq_some_iff, BackendTable.find?_baseURL_eq_some_iff]
      apply and_congr_left
      intro hasURL
      apply BackendTable.mem_write_other
      rwa [hasURL]
    rw [Function.update_of_ne same, tokenAt, tokenAt, sameRow]

theorem tokenAt_setBackendEnabled :
    tokenAt (table.setBackendEnabled id enabled) other = tokenAt table other := by
  funext url
  have sameURL : ((fun row : BackendRow => decide (row.baseURL = url)) ∘ fun row =>
      if row.id = id then { row with enabled := enabled } else row) =
        fun row => decide (row.baseURL = url) := by
    funext row
    simp only [Function.comp_apply]
    split <;> rfl
  rw [tokenAt, tokenAt, BackendTable.setBackendEnabled, List.find?_map, sameURL]
  cases table.rows.find? (·.baseURL = url) with
  | none => rfl
  | some row =>
      simp only [Option.map_some, Option.bind_some]
      split <;> rfl

theorem getBackend_eq_some (found : table.getBackend id = some row) :
    row ∈ table.rows ∧ row.id = id :=
  ⟨List.mem_of_find?_eq_some found, by simpa using List.find?_some found⟩

theorem tokenAt_deleteBackend (found : table.getBackend id = some row) :
    tokenAt (table.deleteBackend id) other =
      Function.update (tokenAt table other) row.baseURL none := by
  rcases getBackend_eq_some found with ⟨inside, isId⟩
  funext url
  by_cases same : url = row.baseURL
  · subst same
    have gone : (table.deleteBackend id).rows.find? (·.baseURL = row.baseURL) = none := by
      rw [List.find?_eq_none]
      intro left listed
      rcases List.mem_filter.mp listed with ⟨old, otherId⟩
      intro sameURL
      have isRow := List.inj_on_of_nodup_map table.url_nodup old inside (by simpa using sameURL)
      rw [isRow, isId] at otherId
      simp at otherId
    rw [Function.update_self, tokenAt, gone, Option.bind_none]
  · have sameRow : (table.deleteBackend id).rows.find? (·.baseURL = url) =
        table.rows.find? (·.baseURL = url) := by
      apply Option.ext
      intro left
      rw [BackendTable.find?_baseURL_eq_some_iff, BackendTable.find?_baseURL_eq_some_iff]
      apply and_congr_left
      intro hasURL
      rw [BackendTable.deleteBackend, List.mem_filter]
      refine and_iff_left_of_imp ?_
      intro listed
      have otherId : left.id ≠ id := by
        intro sameId
        have isRow := List.inj_on_of_nodup_map table.id_nodup listed inside (sameId.trans isId.symm)
        rw [isRow] at hasURL
        exact same hasURL.symm
      simpa using otherId
    rw [Function.update_of_ne same, tokenAt, tokenAt, sameRow]

theorem deleteBackend_of_none (missing : table.getBackend id = none) :
    tokenAt (table.deleteBackend id) other = tokenAt table other := by
  have all : (table.deleteBackend id).rows = table.rows := by
    rw [BackendTable.deleteBackend, List.filter_eq_self]
    intro row inside
    simpa using List.find?_eq_none.mp missing row inside
  funext url
  rw [tokenAt, tokenAt, all]

end Tables

/-- What holds of a request: the row that it carries is one of the store, its session is read again
when it is stored, and what a refresh has granted has a refresh token. -/
structure CallValid (call : LoginCall) : Prop where
  url : trimRight call.backend.baseURL '/' = call.backend.baseURL
  kind : call.login.kind = call.backend.kind
  usable : call.login.Usable
  granted : call.phase.spent ≠ none → call.login.refreshToken ≠ ""

/-- What holds of a row: its URL is trimmed, and every range over a map reads the same login. -/
structure RowValid (row : BackendRow) : Prop where
  url : trimRight row.baseURL '/' = row.baseURL
  steady : ∀ order other, Login.parse order row.kind row.token = Login.parse other row.kind row.token

structure Valid (state : Subscriptions) : Prop where
  rows : ∀ row ∈ state.table.rows, RowValid row
  calls : ∀ call ∈ state.calls, CallValid call

section Upserts

variable {text : TextLibrary} {order : MapOrder} {name baseURL token : String} {enabled : Bool}
  {weight : ℤ} {kind : BackendKind} {login : Login} {state : Subscriptions} {table : BackendTable}

theorem rowValid_write (rows : ∀ row ∈ table.rows, RowValid row)
    (steady : ∀ order other, Login.parse order kind token = Login.parse other kind token) :
    ∀ row ∈ (table.write name baseURL enabled weight kind token).rows, RowValid row := by
  intro row inside
  by_cases hasURL : row.baseURL = trimRight baseURL '/'
  · rcases BackendTable.mem_write_self inside hasURL with ⟨isKind, isToken⟩
    constructor
    · rw [hasURL, trimRight_trimRight]
    · rw [isKind, isToken]
      exact steady
  · exact rows row ((BackendTable.mem_write_other hasURL).mp inside)

theorem steady_compact (settled : login.Settled) (order other : MapOrder) :
    Login.parse order login.kind login.compact = Login.parse other login.kind login.compact := by
  rw [settled.parse_compact, settled.parse_compact]

/-- An upsert of a login writes it. -/
theorem table_upsert (reads : Login.parse order kind token = some login) :
    (state.upsert text order name baseURL enabled weight kind token).table =
      state.table.write name baseURL enabled weight kind login.compact := by
  rw [upsert, BackendTable.upsertBackend, Login.storedToken_of_parse reads]
  rfl

/-- An upsert without a login does nothing, or writes a row that has none. -/
theorem table_upsert_none (reads : Login.parse order kind token = none) :
    (state.upsert text order name baseURL enabled weight kind token).table = state.table ∨
      ∃ stored, (∀ other, Login.parse other kind stored = none) ∧
        (state.upsert text order name baseURL enabled weight kind token).table =
          state.table.write name baseURL enabled weight kind stored := by
  cases kind with
  | codex =>
      have parsed : (Codex.parse token).toOption = none := Option.map_eq_none_iff.mp reads
      left
      simp only [upsert, BackendTable.upsertBackend, BackendTable.storedToken, Codex.sessions, parsed,
        Option.map_none, Option.getD_none]
  | grok =>
      have parsed : (Grok.parse order token).toOption = none := Option.map_eq_none_iff.mp reads
      left
      simp only [upsert, BackendTable.upsertBackend, BackendTable.storedToken, Grok.sessions, parsed,
        Option.map_none, Option.getD_none]
  | _ => exact Or.inr ⟨sanitizeToken text token, fun other => rfl, rfl⟩

theorem tokenAt_upsert (reads : Login.parse order kind token = some login) (other : BackendKind) :
    tokenAt (state.upsert text order name baseURL enabled weight kind token).table other =
      Function.update (tokenAt state.table other) (trimRight baseURL '/')
        (if kind = other then login.token else none) := by
  rcases Login.settled_of_parse reads with ⟨rfl, settled⟩
  rw [table_upsert reads, tokenAt_write, settled.parse_compact, Option.bind_some]

theorem rowValid_upsert (rows : ∀ row ∈ state.table.rows, RowValid row) :
    ∀ row ∈ (state.upsert text order name baseURL enabled weight kind token).table.rows,
      RowValid row := by
  cases reads : Login.parse order kind token with
  | none =>
      rcases @table_upsert_none text order name baseURL token enabled weight kind state reads with
        same | ⟨stored, unread, written⟩
      · rwa [same]
      · rw [written]
        apply rowValid_write rows
        intro one two
        rw [unread, unread]
  | some login =>
      rw [table_upsert reads]
      apply rowValid_write rows
      rcases Login.settled_of_parse reads with ⟨rfl, settled⟩
      exact steady_compact settled

end Upserts

section Calls

variable {state : Subscriptions} {index : ℕ} {call changed : LoginCall} {kind : BackendKind}

theorem set_of_getElem {Item : Type} {items : List Item} {item : Item}
    (found : items[index]? = some item) : items.set index item = items := by
  apply List.ext_getElem?
  intro position
  by_cases same : index = position
  · subst same
    rw [List.getElem?_set_self (List.getElem?_eq_some_iff.mp found).1, found]
  · rw [List.getElem?_set_ne same]

/-- A request that goes on with the tokens that it has changes nothing. -/
theorem custody_setCall (found : state.calls[index]? = some call)
    (same : errand kind changed = errand kind call) :
    (state.setCall index changed).custody kind = state.custody kind := by
  have isErrand : (state.calls.map (errand kind))[index]? = some (errand kind call) := by
    rw [List.getElem?_map, found]
    rfl
  simp only [custody, setCall, List.map_set, same, set_of_getElem isErrand]

theorem callValid_set (calls : ∀ call ∈ state.calls, CallValid call) (valid : CallValid changed) :
    ∀ call ∈ state.calls.set index changed, CallValid call := by
  intro call inside
  rcases List.mem_or_eq_of_mem_set inside with old | rfl
  · exact calls call old
  · exact valid

theorem callValid_of_getElem (calls : ∀ call ∈ state.calls, CallValid call)
    (found : state.calls[index]? = some call) : CallValid call :=
  calls call (List.mem_of_getElem? found)

end Calls

section Issuers

variable {state : Subscriptions} {kind other : BackendKind} {token spent next : String}
  {rotates : BackendKind → Bool}

@[simp]
theorem table_exchange : (state.exchange rotates kind spent next).table = state.table := by
  rw [exchange]
  split <;> rfl

@[simp]
theorem calls_exchange : (state.exchange rotates kind spent next).calls = state.calls := by
  rw [exchange]
  split <;> rfl

theorem custody_issue_none : (state.issue kind none).custody other = state.custody other := by
  simp only [custody, issue, Option.toList_none, List.nil_append]
  split
  · rename_i same
    rw [same]
  · rfl

theorem issueNew_none : state.issueNew kind none = state.issue kind none := rfl

theorem issueNew_fresh (isNew : token ∉ state.given kind) :
    state.issueNew kind (some token) = state.issue kind (some token) := by
  rw [issueNew, Option.filter_some_pos (by simpa using isNew)]

/-- A token that was given before changes nothing. -/
theorem issueNew_known (known : token ∈ state.given kind) :
    state.issueNew kind (some token) = state.issue kind none := by
  rw [issueNew, Option.filter_some_neg (by simpa using known)]

theorem custody_issue_other (differs : other ≠ kind) (given : Option String) :
    (state.issue kind given).custody other = state.custody other := by
  simp only [custody, issue, if_neg differs]

theorem custody_issue_some :
    (state.issue kind (some token)).custody kind = { state.custody kind with
      accepted := insert token (state.custody kind).accepted
      issued := insert token (state.custody kind).issued } := by
  simp only [custody, issue, if_true, Option.toList_some, List.singleton_append, List.mem_cons]
  rfl

theorem custody_exchange_other (differs : other ≠ kind) :
    (state.exchange rotates kind spent next).custody other = state.custody other := by
  rw [exchange, custody_issue_other differs]
  split
  · simp only [custody, revoke, if_neg differs]
  · rfl

theorem custody_exchange_rotating (rotating : rotates kind = true) :
    (state.exchange rotates kind spent next).custody kind = { state.custody kind with
      accepted := insert next ((state.custody kind).accepted \ {spent})
      issued := insert next (state.custody kind).issued } := by
  have revoked : (state.revoke kind spent).custody kind = { state.custody kind with
      accepted := (state.custody kind).accepted \ {spent} } := by
    simp only [custody, revoke, if_true, List.mem_filter, decide_eq_true_eq]
    rfl
  rw [exchange, if_pos rotating, custody_issue_some, revoked]

theorem custody_exchange_steady (steady : rotates kind = false) :
    (state.exchange rotates kind spent next).custody kind = { state.custody kind with
      accepted := insert next (state.custody kind).accepted
      issued := insert next (state.custody kind).issued } := by
  rw [exchange, steady, if_neg Bool.false_ne_true, custody_issue_some]

end Issuers

section Steps

variable {text : TextLibrary} {stamp : ℤ → String} {rotates : BackendKind → Bool}
  {state next : Subscriptions} {move : LoginMove} {kind : BackendKind}

theorem callValid_phase {call : LoginCall} (valid : CallValid call) {phase : LoginPhase}
    (unspent : phase.spent = none) : CallValid ⟨call.backend, call.login, phase⟩ :=
  ⟨valid.url, valid.kind, valid.usable, fun spent => absurd unspent spent⟩

theorem Valid.step (valid : state.Valid) (issues : state.Issues stamp rotates move)
    (fires : state.step text stamp rotates move = some next) : next.Valid := by
  cases move with
  | upsertBackend order name baseURL enabled weight kind token =>
      cases fires
      exact ⟨rowValid_upsert valid.rows, valid.calls⟩
  | setBackendEnabled id enabled =>
      cases fires
      refine ⟨?_, valid.calls⟩
      intro row inside
      rcases List.mem_map.mp inside with ⟨old, listed, rfl⟩
      have oldValid := valid.rows old listed
      split
      · exact ⟨oldValid.url, oldValid.steady⟩
      · exact oldValid
  | deleteBackend id =>
      cases fires
      exact ⟨fun row inside => valid.rows row (List.mem_of_mem_filter inside), valid.calls⟩
  | start order id =>
      rcases Option.map_eq_some_iff.mp fires with ⟨backend, found, rfl⟩
      have rowValid := valid.rows backend (getBackend_eq_some found).1
      cases reads : Login.parse order backend.kind backend.token with
      | none => exact valid
      | some login =>
          rcases Login.settled_of_parse reads with ⟨isKind, settled⟩
          refine ⟨valid.rows, ?_⟩
          intro call inside
          rcases List.mem_append.mp inside with old | isNew
          · exact valid.calls call old
          · rw [List.mem_singleton.mp isNew]
            exact ⟨rowValid.url, isKind, settled.usable, fun spent => absurd rfl spent⟩
  | proceed index now converts =>
      simp only [Subscriptions.step] at fires
      split at fires
      · rename_i backend login found
        cases fires
        refine ⟨valid.rows, callValid_set valid.calls ?_⟩
        apply callValid_phase (callValid_of_getElem valid.calls found)
        split
        · rfl
        · split <;> rfl
      · cases fires
  | answer index status =>
      simp only [Subscriptions.step] at fires
      split at fires
      · rename_i backend login again found
        cases fires
        refine ⟨valid.rows, callValid_set valid.calls ?_⟩
        apply callValid_phase (callValid_of_getElem valid.calls found)
        split <;> rfl
      · cases fires
  | refresh index discovery reply =>
      simp only [Subscriptions.step] at fires
      split at fires
      · rename_i backend login again found
        have old := callValid_of_getElem valid.calls found
        split at fires
        · cases fires
          refine ⟨valid.rows, callValid_set valid.calls ?_⟩
          exact callValid_phase old rfl
        · rename_i fresh refreshes
          cases fires
          rcases Login.refresh_eq_some refreshes with ⟨sameKind, _, hasToken⟩
          refine ⟨?_, ?_⟩
          · rw [setCall, table_exchange]
            exact valid.rows
          · rw [setCall, calls_exchange]
            apply callValid_set valid.calls
            exact ⟨old.url, sameKind.trans old.kind,
              (issues _ (Option.mem_def.mpr found) fresh refreshes).1, fun _ => hasToken⟩
      · cases fires
  | persist order index converts =>
      simp only [Subscriptions.step] at fires
      split at fires
      · rename_i backend login again spent found
        cases fires
        refine ⟨rowValid_upsert valid.rows, callValid_set valid.calls ?_⟩
        apply callValid_phase (callValid_of_getElem valid.calls found)
        split <;> rfl
      · cases fires
  | probe order id discovery reply =>
      rcases Option.map_eq_some_iff.mp fires with ⟨backend, found, rfl⟩
      split
      · exact valid
      · refine ⟨?_, ?_⟩
        · rw [table_exchange]
          exact valid.rows
        · rw [calls_exchange]
          exact valid.calls
  | restart =>
      cases fires
      exact ⟨valid.rows, fun call inside => absurd inside List.not_mem_nil⟩

end Steps

end Subscriptions

end MikroLLM.Proxy
