import MikroLLM.Go.Http
import MikroLLM.Go.Members
import MikroLLM.Library.Association
import MikroLLM.Store.Backends

/-!
# Grok credentials

A session comes from the file of the Grok CLI, as a bare token, or from the
compact form that the store keeps. What was read is written in the compact form
and read again as the same session.
-/

namespace MikroLLM.Grok

open Go Library Store

/-- `DefaultModel`. -/
def defaultModel : String := "grok-build"

def signInKey : String := "https://accounts.x.ai/sign-in"

structure Session where
  accessToken : String := ""
  refreshToken : String := ""
  expiresAt : String := ""
  issuer : String := ""
  clientID : String := ""
  model : String := ""
  deriving DecidableEq

section Reading

/-- A `map[string]json.RawMessage` of the members. -/
def rawMap (members : List (Bytes × Doc)) : Association String Doc :=
  members.foldl (fun map member => map.put (unquote member.1) member.2) Association.empty

/-- The text under a key, empty where there is none. -/
def textAt (map : Association String Doc) (key : String) : String :=
  ((map.get key).bind fun doc => storeString doc "").getD ""

/-- An entry of the file of the CLI. -/
structure Box where
  key : String := ""
  refreshToken : String := ""
  expiresAt : String := ""
  issuer : String := ""
  clientID : String := ""

def storeBox : Store Box :=
  storeStruct fun members held => do
    let key ← storeField storeString members "key" held.key
    let refreshToken ← storeField storeString members "refresh_token" held.refreshToken
    let expiresAt ← storeField storeString members "expires_at" held.expiresAt
    let issuer ← storeField storeString members "oidc_issuer" held.issuer
    let clientID ← storeField storeString members "oidc_client_id" held.clientID
    some { key, refreshToken, expiresAt, issuer, clientID }

/-- The session of an entry that has a key. -/
def boxSession (doc : Doc) : Option Session :=
  ((storeBox doc {}).filter (trimSpace ·.key ≠ "")).map fun box => {
    accessToken := trimSpace box.key
    refreshToken := box.refreshToken
    expiresAt := box.expiresAt
    issuer := box.issuer
    clientID := box.clientID }

/-- `sessionFromBoxes`, for the entries in the order in which the map is ranged over. -/
def sessionFromBoxes (best : Session) : List (String × Doc) → Session
  | [] => best
  | (key, doc) :: rest =>
      match boxSession doc with
      | none => sessionFromBoxes best rest
      | some session =>
          if key = signInKey ∨ contains key "accounts.x.ai" then session
          else sessionFromBoxes (if best.accessToken = "" then session else best) rest

/-- The session of the members of a document. A range over a map takes its entries in any order,
which is `order` here. -/
def mapSession (order : List (String × Doc) → List (String × Doc)) (map : Association String Doc) :
    Session :=
  let session : Session := {
    accessToken := textAt map "access_token"
    refreshToken := textAt map "refresh_token"
    expiresAt := textAt map "expires_at"
    issuer := textAt map "issuer"
    clientID := textAt map "client_id"
    model := textAt map "model" }
  if session.accessToken = "" then sessionFromBoxes {} (order map.entries) else session

/-- The end of `Parse`. -/
def Session.completed (session : Session) : Except String Session :=
  if trimSpace session.accessToken = "" then .error "grok access token missing"
  else .ok { session with
    accessToken := trimSpace session.accessToken
    model := if session.model = "" then defaultModel else session.model }

/-- `Parse`. -/
def parse (order : List (String × Doc) → List (String × Doc)) (raw : String) :
    Except String Session :=
  let text := trimSpace raw
  if text = "" then .error "grok auth required"
  else if !hasPrefix text "\x7b" then .ok { accessToken := text, model := defaultModel }
  else
    match parseDoc maxNestingDepth (bytesOf text) with
    | some (.object members) => (mapSession order (rawMap members)).completed
    | _ => .error "grok auth is not json"

def Session.fields (session : Session) : List (String × Doc) :=
  textField "access_token" session.accessToken ::
    (omitEmpty "refresh_token" session.refreshToken ++ omitEmpty "expires_at" session.expiresAt ++
      omitEmpty "issuer" session.issuer ++ omitEmpty "client_id" session.clientID ++
        omitEmpty "model" session.model)

/-- `Session.Compact`. -/
def Session.compact (session : Session) : String :=
  decodeText (Doc.object (membersOf session.fields)).print

/-- `Parse` and `Compact`, as the store uses them. -/
def sessions (order : List (String × Doc) → List (String × Doc)) : SessionLibrary Session where
  parse raw := (parse order raw).toOption
  compact := Session.compact

end Reading

section Refreshing

/-- A reply to a refresh. -/
structure Granted where
  accessToken : String := ""
  refreshToken : String := ""
  expiresIn : ℤ := 0

def storeGranted : Store Granted :=
  storeStruct fun members held => do
    let accessToken ← storeField storeString members "access_token" held.accessToken
    let refreshToken ← storeField storeString members "refresh_token" held.refreshToken
    let expiresIn ← storeField storeInt members "expires_in" held.expiresIn
    some { accessToken, refreshToken, expiresIn }

/-- What a reply grants, if it is one. -/
def grantOf (body : Bytes) : Option Granted :=
  ((parseDoc maxNestingDepth body).bind fun doc => storeGranted doc {}).filter
    (·.accessToken ≠ "")

/-- The session after a refresh. `stamp` writes the time so many seconds from now. -/
def Session.refreshed (stamp : ℤ → String) (session : Session) (granted : Granted) : Session :=
  { session with
    accessToken := granted.accessToken
    refreshToken :=
      if granted.refreshToken ≠ "" then granted.refreshToken else session.refreshToken
    expiresAt := if 0 < granted.expiresIn then stamp granted.expiresIn else session.expiresAt }

/-- The token endpoint in the configuration of an issuer. -/
def endpointOf (body : Bytes) : String :=
  ((parseDoc maxNestingDepth body).bind fun doc =>
    storeStruct (fun members held => storeField storeString members "token_endpoint" held)
      doc "").getD ""

/-- `Refresh`, with the reply of the discovery and that of the token endpoint. -/
def refresh (stamp : ℤ → String) (session : Session)
    (discovery reply : Except String (Status × String × Bytes)) : Except String Session :=
  if session.refreshToken = "" ∨ session.issuer = "" ∨ session.clientID = "" then
    .error "grok refresh token missing"
  else
    match discovery with
    | .error message => .error message
    | .ok (status, line, body) =>
        if 400 ≤ status.val then .error ("grok discovery " ++ line)
        else if endpointOf (body.take (2 ^ 20)) = "" then
          .error "grok discovery: no token endpoint"
        else
          match reply with
          | .error message => .error message
          | .ok (status, line, body) =>
              if 400 ≤ status.val then .error ("grok refresh " ++ line)
              else
                match grantOf (body.take (2 ^ 20)) with
                | none => .error "grok refresh: bad token response"
                | some granted => .ok (session.refreshed stamp granted)

end Refreshing

section Compact

variable {session : Session} {raw : String} {fields : List (String × Doc)}
  {order : List (String × Doc) → List (String × Doc)}

theorem get_rawMap (smallNames : SmallNames fields) (name : String) :
    (rawMap (membersOf fields)).get name =
      ((fields.filter (·.1 = name)).map (·.2)).getLast? := by
  induction fields using List.reverseRecOn with
  | nil => rfl
  | append_singleton fields field ih =>
      have small : SmallName field.1 := smallNames field (by simp)
      have earlier := ih fun other inside => smallNames other (List.mem_append_left _ inside)
      rw [rawMap, membersOf] at earlier ⊢
      rw [List.map_append, List.foldl_append, List.map_singleton, List.foldl_cons, List.foldl_nil,
        unquote_small small, List.filter_append, List.map_append]
      by_cases same : field.1 = name
      · rw [same, Association.get_put_self]
        simp [same]
      · rw [Association.get_put_other (Ne.symm same), earlier]
        simp [same]

theorem Session.textFields : TextFields session.fields := by
  intro field inside
  simp only [Session.fields, List.mem_cons, List.mem_append] at inside
  rcases inside with rfl | (((refresh | expires) | issuer) | client) | model
  · exact ⟨_, rfl⟩
  · exact textFields_omitEmpty _ _ field refresh
  · exact textFields_omitEmpty _ _ field expires
  · exact textFields_omitEmpty _ _ field issuer
  · exact textFields_omitEmpty _ _ field client
  · exact textFields_omitEmpty _ _ field model

theorem Session.smallNames : SmallNames session.fields := by
  intro field inside
  simp only [Session.fields, List.mem_cons, List.mem_append] at inside
  rcases inside with rfl | (((refresh | expires) | issuer) | client) | model
  · exact show SmallName "access_token" by decide
  · rw [name_of_omitEmpty refresh]
    decide
  · rw [name_of_omitEmpty expires]
    decide
  · rw [name_of_omitEmpty issuer]
    decide
  · rw [name_of_omitEmpty client]
    decide
  · rw [name_of_omitEmpty model]
    decide

/-- A text is found under its key, also when it was left out because it is empty. -/
theorem textAt_membersOf (smallNames : SmallNames fields) {name text : String}
    (given : fields.filter (·.1 = name) = [textField name text] ∨
      fields.filter (·.1 = name) = omitEmpty name text) :
    textAt (rawMap (membersOf fields)) name = text := by
  have written : ((storeString (textField name text).2 "")).getD "" = text := by
    simp [textField, storeString, unquote_quote, decodeText_bytesOf]
  rw [textAt, get_rawMap smallNames]
  rcases given with isText | isOmitted
  · rw [isText]
    exact written
  · rw [isOmitted, omitEmpty]
    split
    · rename_i isEmpty
      rw [isEmpty]
      rfl
    · exact written

/-- `Parse` reads a compact session with a token as the session, and completes it. -/
theorem parse_compact_eq (session : Session) (hasToken : session.accessToken ≠ "") :
    parse order session.compact = session.completed := by
  rcases @textFields_read session.fields Session.smallNames Session.textFields with
    ⟨begins, trimmed, reads⟩
  have texts : ∀ name text, (session.fields.filter (·.1 = name) = [textField name text] ∨
      session.fields.filter (·.1 = name) = omitEmpty name text) →
        textAt (rawMap (membersOf session.fields)) name = text :=
    fun name text given => textAt_membersOf Session.smallNames given
  have same : mapSession order (rawMap (membersOf session.fields)) = session := by
    rw [mapSession, texts "access_token" session.accessToken, if_neg hasToken,
      texts "refresh_token" session.refreshToken, texts "expires_at" session.expiresAt,
      texts "issuer" session.issuer, texts "client_id" session.clientID,
      texts "model" session.model]
    all_goals simp [Session.fields, textField, filter_omitEmpty]
  rw [parse, Session.compact, trimmed, if_neg (ne_empty_of_hasPrefix begins), begins, reads]
  simp only [Bool.not_true, Bool.false_eq_true, if_false, same]

/-- A session that is complete: reading it again adds nothing. -/
structure Session.Settled (session : Session) : Prop where
  accessToken : session.accessToken ≠ ""
  trimmed : trimSpace session.accessToken = session.accessToken
  model : session.model ≠ ""

theorem Session.Settled.parse_compact (settled : session.Settled) :
    parse order session.compact = .ok session := by
  rw [parse_compact_eq session settled.accessToken, Session.completed, settled.trimmed,
    if_neg settled.accessToken, if_neg settled.model]

theorem settled_of_completed {read : Session} (completes : read.completed = .ok session) :
    session.Settled := by
  rw [Session.completed] at completes
  split at completes
  · cases completes
  · rename_i hasToken
    rw [Except.ok.injEq] at completes
    subst completes
    refine ⟨hasToken, trimSpace_trimSpace _, ?_⟩
    dsimp only
    split
    · decide
    · assumption

theorem settled_of_parse (accepted : parse order raw = .ok session) : session.Settled := by
  simp only [parse] at accepted
  split at accepted
  · cases accepted
  · rename_i notEmpty
    split at accepted
    · rw [Except.ok.injEq] at accepted
      subst accepted
      exact ⟨notEmpty, trimSpace_trimSpace _, show defaultModel ≠ "" by decide⟩
    · split at accepted
      · exact settled_of_completed accepted
      · cases accepted

theorem grantOf_ne {body : Bytes} {granted : Granted} (grants : grantOf body = some granted) :
    granted.accessToken ≠ "" := by
  have kept := (Option.filter_eq_some_iff.mp grants).2
  simpa using kept

/-- What a refresh that succeeds has done. -/
theorem refresh_eq_ok {next : Session} {stamp : ℤ → String}
    {discovery reply : Except String (Status × String × Bytes)}
    (refreshes : refresh stamp session discovery reply = .ok next) :
    session.refreshToken ≠ "" ∧ ∃ granted : Granted, granted.accessToken ≠ "" ∧
      next = session.refreshed stamp granted := by
  unfold refresh at refreshes
  split at refreshes
  · cases refreshes
  · rename_i complete
    rw [not_or] at complete
    split at refreshes
    · cases refreshes
    · split at refreshes
      · cases refreshes
      · split at refreshes
        · cases refreshes
        · split at refreshes
          · cases refreshes
          · split at refreshes
            · cases refreshes
            · split at refreshes
              · cases refreshes
              · rename_i granted grants
                rw [Except.ok.injEq] at refreshes
                exact ⟨complete.1, granted, grantOf_ne grants, refreshes.symm⟩

/-- A refreshed session with a token that is not blank is read with the token trimmed. -/
theorem Session.Settled.parse_refreshed (settled : session.Settled) {granted : Granted}
    (stamp : ℤ → String) (notBlank : trimSpace granted.accessToken ≠ "") :
    parse order (session.refreshed stamp granted).compact =
      .ok { session.refreshed stamp granted with
        accessToken := trimSpace granted.accessToken } := by
  have hasToken : (session.refreshed stamp granted).accessToken ≠ "" := by
    intro isEmpty
    apply notBlank
    have same : granted.accessToken = "" := isEmpty
    rw [same]
    rfl
  have hasModel : (session.refreshed stamp granted).model ≠ "" := settled.model
  have notBlankToken : trimSpace (session.refreshed stamp granted).accessToken ≠ "" := notBlank
  rw [parse_compact_eq _ hasToken, Session.completed, if_neg notBlankToken, if_neg hasModel]
  rfl

end Compact

end MikroLLM.Grok
