import MikroLLM.Codex.Credentials
import MikroLLM.Grok.Credentials

/-!
# Logins of subscriptions

The admin saves a login, a request reads it from the row of its backend, and
stores it again after a refresh. What is read is what was saved.
-/

namespace MikroLLM.Proxy

open Domain Go Library Store

/-- The session of a subscription. -/
inductive Login
  | codex (session : Codex.Session)
  | grok (session : Grok.Session)
  deriving DecidableEq

namespace Login

def kind : Login → BackendKind
  | codex _ => .codex
  | grok _ => .grok

def refreshToken : Login → String
  | codex session => session.refreshToken
  | grok session => session.refreshToken

/-- `Session.Compact`. -/
def compact : Login → String
  | codex session => session.compact
  | grok session => session.compact

/-- `Parse`, for the kinds that are subscriptions. -/
def parse (order : List (String × Doc) → List (String × Doc)) (kind : BackendKind)
    (token : String) : Option Login :=
  match kind with
  | .codex => (Codex.parse token).toOption.map codex
  | .grok => (Grok.parse order token).toOption.map grok
  | _ => none

/-- `Refresh`; only Grok asks for the discovery. -/
def refresh (stamp : ℤ → String) (discovery reply : Except String (Status × String × Bytes)) :
    Login → Option Login
  | codex session => (Codex.refresh session reply).toOption.map codex
  | grok session => (Grok.refresh stamp session discovery reply).toOption.map grok

/-- The session as it is read again. -/
def trimmed : Login → Login
  | codex session => codex session
  | grok session => grok { session with accessToken := trimSpace session.accessToken }

/-- The access token is one that `Parse` takes. -/
def Usable : Login → Prop
  | codex session => session.accessToken ≠ ""
  | grok session => trimSpace session.accessToken ≠ ""

/-- Reading the session again adds nothing. -/
def Settled : Login → Prop
  | codex session => session.Settled
  | grok session => session.Settled

section Reading

variable {order other : List (String × Doc) → List (String × Doc)} {kind : BackendKind}
  {token : String} {login next : Login} {stamp : ℤ → String}
  {discovery reply : Except String (Status × String × Bytes)}

theorem toOption_eq_some {Value : Type} {result : Except String Value} {value : Value} :
    result.toOption = some value ↔ result = .ok value := by
  cases result with
  | error message => simp [Except.toOption]
  | ok other => simp [Except.toOption]

theorem settled_of_parse (reads : parse order kind token = some login) :
    login.kind = kind ∧ login.Settled := by
  cases kind with
  | codex =>
      rcases Option.map_eq_some_iff.mp reads with ⟨session, parsed, rfl⟩
      exact ⟨rfl, Codex.settled_of_parse (toOption_eq_some.mp parsed)⟩
  | grok =>
      rcases Option.map_eq_some_iff.mp reads with ⟨session, parsed, rfl⟩
      exact ⟨rfl, Grok.settled_of_parse (toOption_eq_some.mp parsed)⟩
  | _ => cases reads

theorem Settled.usable (settled : login.Settled) : login.Usable := by
  cases login with
  | codex session => exact Codex.Session.Settled.accessToken settled
  | grok session =>
      have isTrimmed := Grok.Session.Settled.trimmed settled
      rw [Usable, isTrimmed]
      exact Grok.Session.Settled.accessToken settled

/-- A session that was read is read again as it was, in whatever order a map is ranged over. -/
theorem Settled.parse_compact (settled : login.Settled) :
    parse order login.kind login.compact = some login := by
  cases login with
  | codex session =>
      have same := Codex.Session.Settled.parse_compact settled
      simp only [parse, kind, compact, same, Except.toOption, Option.map_some]
  | grok session =>
      have same : Grok.parse order session.compact = .ok session :=
        Grok.Session.Settled.parse_compact settled
      simp only [parse, kind, compact, same, Except.toOption, Option.map_some]

/-- A refreshed session with a usable token is read again, with the token trimmed. -/
theorem Settled.parse_refreshed (settled : login.Settled)
    (refreshes : login.refresh stamp discovery reply = some next) (usable : next.Usable) :
    parse order next.kind next.compact = some next.trimmed := by
  cases login with
  | codex session =>
      rcases Option.map_eq_some_iff.mp refreshes with ⟨fresh, done, rfl⟩
      rcases Codex.refresh_eq_ok (toOption_eq_some.mp done) with ⟨_, granted, hasToken, rfl⟩
      have settled : session.Settled := settled
      have same := (settled.refreshed hasToken).parse_compact
      simp only [parse, kind, compact, trimmed, same, Except.toOption, Option.map_some]
  | grok session =>
      rcases Option.map_eq_some_iff.mp refreshes with ⟨fresh, done, rfl⟩
      rcases Grok.refresh_eq_ok (toOption_eq_some.mp done) with ⟨_, granted, _, rfl⟩
      have settled : session.Settled := settled
      have same : Grok.parse order (session.refreshed stamp granted).compact = .ok _ :=
        settled.parse_refreshed stamp usable
      simp only [parse, kind, compact, trimmed, same, Except.toOption, Option.map_some]
      rfl

/-- A refreshed session is of the same kind, and has a refresh token. -/
theorem refresh_eq_some (refreshes : login.refresh stamp discovery reply = some next) :
    next.kind = login.kind ∧ login.refreshToken ≠ "" ∧ next.refreshToken ≠ "" := by
  cases login with
  | codex session =>
      rcases Option.map_eq_some_iff.mp refreshes with ⟨fresh, done, rfl⟩
      rcases Codex.refresh_eq_ok (toOption_eq_some.mp done) with ⟨hasToken, granted, _, rfl⟩
      refine ⟨rfl, hasToken, ?_⟩
      exact Codex.firstOf_ne hasToken
  | grok session =>
      rcases Option.map_eq_some_iff.mp refreshes with ⟨fresh, done, rfl⟩
      rcases Grok.refresh_eq_ok (toOption_eq_some.mp done) with ⟨hasToken, granted, _, rfl⟩
      refine ⟨rfl, hasToken, ?_⟩
      simp only [refreshToken, Grok.Session.refreshed]
      split
      · assumption
      · exact hasToken

/-- What `Parse` makes of any compact session with a usable token: the refresh token stays. -/
theorem Usable.parse_compact (usable : login.Usable) :
    ∃ read, parse order login.kind login.compact = some read ∧
      read.refreshToken = login.refreshToken := by
  cases login with
  | codex session =>
      have same := Codex.parse_compact_eq session
      rw [if_neg usable] at same
      simp only [parse, kind, compact, same, Except.toOption, Option.map_some, Option.some.injEq,
        exists_eq_left', refreshToken]
  | grok session =>
      have hasToken : session.accessToken ≠ "" := by
        intro isEmpty
        rw [Usable, isEmpty] at usable
        exact usable rfl
      have same : Grok.parse order session.compact = session.completed :=
        Grok.parse_compact_eq session hasToken
      rw [Grok.Session.completed, if_neg usable] at same
      simp only [parse, kind, compact, same, Except.toOption, Option.map_some, Option.some.injEq,
        exists_eq_left', refreshToken]

end Reading

section Saving

variable {text : TextLibrary} {order other : List (String × Doc) → List (String × Doc)}
  {kind : BackendKind} {token : String} {login next : Login} {table saved : BackendTable}
  {row : BackendRow} {name baseURL : String} {enabled : Bool} {weight : ℤ}

/-- What the store makes of a login. -/
theorem storedToken_of_parse (reads : parse order kind token = some login) :
    BackendTable.storedToken text Codex.sessions (Grok.sessions order) kind token =
      some login.compact := by
  cases kind with
  | codex =>
      rcases Option.map_eq_some_iff.mp reads with ⟨session, parsed, rfl⟩
      simp only [BackendTable.storedToken, Codex.sessions, parsed, Option.map_some, compact]
  | grok =>
      rcases Option.map_eq_some_iff.mp reads with ⟨session, parsed, rfl⟩
      simp only [BackendTable.storedToken, Grok.sessions, parsed, Option.map_some, compact]
  | _ => cases reads

/-- A row that an upsert of a login wrote is read as the login. -/
theorem parse_of_mem_write (reads : parse order kind token = some login)
    (inside : row ∈ (table.write name baseURL enabled weight kind login.compact).rows)
    (hasURL : row.baseURL = trimRight baseURL '/') : parse other row.kind row.token = some login := by
  rcases BackendTable.mem_write_self inside hasURL with ⟨isKind, isToken⟩
  rcases settled_of_parse reads with ⟨rfl, settled⟩
  rw [isKind, isToken]
  exact settled.parse_compact

/-- A login that `Parse` takes is saved, the row of its URL is read as this login by every request,
and a session that a request refreshes and stores is what the requests after it read. -/
theorem login_saved (table : BackendTable) (text : TextLibrary)
    (order : List (String × Doc) → List (String × Doc)) (name baseURL : String) (enabled : Bool)
    (weight : ℤ) {kind : BackendKind} {token : String} {login : Login}
    (reads : parse order kind token = some login) :
    ∃ saved, table.upsertBackend text Codex.sessions (Grok.sessions order) name baseURL enabled
        weight kind token = some saved ∧
      (∀ row, row.baseURL ≠ trimRight baseURL '/' → (row ∈ saved.rows ↔ row ∈ table.rows)) ∧
      ∃ row ∈ saved.rows, row.baseURL = trimRight baseURL '/' ∧
        (∀ other, parse other row.kind row.token = some login) ∧
        ∀ stamp discovery reply next, login.refresh stamp discovery reply = some next →
          next.Usable → ∀ later : BackendTable,
            ∃ stored, later.upsertBackend text Codex.sessions (Grok.sessions order) row.name
                row.baseURL row.enabled row.weight row.kind next.compact = some stored ∧
              ∃ again ∈ stored.rows, again.baseURL = row.baseURL ∧
                ∀ other, parse other again.kind again.token = some next.trimmed := by
  have stores := @storedToken_of_parse text order kind token login reads
  refine ⟨_, by rw [BackendTable.upsertBackend, stores, Option.map_some], ?_, ?_⟩
  · exact fun row otherURL => BackendTable.mem_write_other otherURL
  · rcases BackendTable.exists_mem_write table name baseURL enabled weight kind login.compact with
      ⟨row, inside, hasURL⟩
    refine ⟨row, inside, hasURL, fun other => parse_of_mem_write reads inside hasURL, ?_⟩
    intro stamp discovery reply next refreshes usable later
    rcases settled_of_parse reads with ⟨isKind, settled⟩
    have rowKind : row.kind = next.kind := by
      rw [(BackendTable.mem_write_self inside hasURL).1, (refresh_eq_some refreshes).1, isKind]
    have readsNext : parse order row.kind next.compact = some next.trimmed := by
      rw [rowKind]
      exact settled.parse_refreshed refreshes usable
    have storesNext := @storedToken_of_parse text order row.kind next.compact next.trimmed readsNext
    refine ⟨_, by rw [BackendTable.upsertBackend, storesNext, Option.map_some], ?_⟩
    rcases BackendTable.exists_mem_write later row.name row.baseURL row.enabled row.weight row.kind
      next.trimmed.compact with ⟨again, listed, againURL⟩
    have sameURL : again.baseURL = row.baseURL := by
      rw [againURL, hasURL, trimRight_trimRight]
    exact ⟨again, listed, sameURL, fun other => parse_of_mem_write readsNext listed againURL⟩

end Saving

section Trials

def savedSession : Codex.Session := ⟨"a", "r", "acct", "gpt-5.4"⟩

/-- The session after its refresh token was exchanged. -/
def grantedSession : Codex.Session := ⟨"b", "s", "acct", "gpt-5.4"⟩

def grantReply : Except String (Status × String × Bytes) :=
  .ok (⟨200, by decide⟩, "200 OK",
    bytesOf "\x7b\"access_token\":\"b\",\"refresh_token\":\"s\"\x7d")

def noStamp (_ : ℤ) : String := ""

theorem parse_savedSession (order : List (String × Doc) → List (String × Doc)) :
    parse order .codex savedSession.compact = some (codex savedSession) := by
  have settled : savedSession.Settled := ⟨by decide, rfl, by decide⟩
  exact @Settled.parse_compact order (codex savedSession) settled

theorem refresh_savedSession :
    refresh noStamp (.error "") grantReply (codex savedSession) = some (codex grantedSession) := by
  rfl

/-- The session is saved and read, and after its refresh the next one is. -/
theorem login_saved_codex :
    ∃ saved, BackendTable.empty.upsertBackend asciiText Codex.sessions (Grok.sessions id) "codex"
        "https://chatgpt.com/backend-api/codex/" true 1 .codex savedSession.compact = some saved ∧
      ∃ row ∈ saved.rows, row.baseURL = "https://chatgpt.com/backend-api/codex" ∧
        (∀ other, parse other row.kind row.token = some (codex savedSession)) ∧
        ∃ stored, saved.upsertBackend asciiText Codex.sessions (Grok.sessions id) row.name
            row.baseURL row.enabled row.weight row.kind grantedSession.compact = some stored ∧
          ∃ again ∈ stored.rows, again.baseURL = row.baseURL ∧
            ∀ other, parse other again.kind again.token = some (codex grantedSession) := by
  rcases login_saved BackendTable.empty asciiText id "codex"
    "https://chatgpt.com/backend-api/codex/" true 1 (parse_savedSession id) with
    ⟨saved, saves, _, row, inside, hasURL, reads, later⟩
  have usable : grantedSession.accessToken ≠ "" := by decide
  exact ⟨saved, saves, row, inside, hasURL.trans (by decide), reads,
    later noStamp (.error "") grantReply (codex grantedSession) refresh_savedSession usable saved⟩

end Trials

end Login

end MikroLLM.Proxy
