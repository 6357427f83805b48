import MikroLLM.Go.Base64
import MikroLLM.Go.Http
import MikroLLM.Go.Members
import MikroLLM.Store.Backends

/-!
# Codex credentials

A session comes from the file of the Codex CLI or from the compact form that the
store keeps. What was read is written in the compact form and read again as the
same session.
-/

namespace MikroLLM.Codex

open Go Store

/-- `DefaultModel`. -/
def defaultModel : String := "gpt-5.4"

structure Session where
  accessToken : String
  refreshToken : String
  accountID : String
  model : String
  deriving DecidableEq

section Tokens

/-- The claims of a JWT that `accountFromJWT` reads. -/
structure Claims where
  accountID : String := ""
  exp : ℤ := 0

def storeClaims : Store Claims :=
  storeStruct fun members held => do
    let accountID ← storeField
      (storeStruct fun inner held => storeField storeString inner "chatgpt_account_id" held)
      members "https://api.openai.com/auth" held.accountID
    let exp ← storeField storeInt members "exp" held.exp
    some { accountID, exp }

/-- The second part of a JWT. -/
def jwtPayload (jwt : String) : Option Bytes :=
  match split jwt '.' with
  | _ :: payload :: _ => (rawURLDecode (bytesOf payload)).or (urlDecode (bytesOf payload))
  | _ => none

/-- `accountFromJWT`. -/
def accountFromJWT (jwt : String) : String :=
  (((jwtPayload jwt).bind fun raw =>
    (parseDoc maxNestingDepth raw).bind fun doc => storeClaims doc {}).getD {}).accountID

/-- `Unix(exp, 0).Add(-2 * time.Minute)`, in seconds since year one. -/
def expiryOf (exp : ℤ) : ℤ :=
  let seconds := (exp + 62135596800).bmod (2 ^ 64)
  if seconds - 120 < -2 ^ 63 then 1 - 2 ^ 63 else seconds - 120

/-- `jwtExpired`, at a time in nanoseconds since year one. -/
def jwtExpired (now : ℤ) (jwt : String) : Bool :=
  let exp := ((jwtPayload jwt).bind fun raw =>
    (parseDoc maxNestingDepth raw).bind fun doc =>
      storeStruct (fun members held => storeField storeInt members "exp" held) doc 0).getD 0
  exp ≠ 0 && expiryOf exp * 1000000000 < now

/-- `accountFromIDToken`. -/
def accountFromIDToken : Json → String
  | .string jwt => accountFromJWT jwt
  | _ => ""

end Tokens

section Reading

/-- The tokens of `auth.json`. -/
structure TokenBox where
  accessToken : String := ""
  refreshToken : String := ""
  accountID : String := ""
  idToken : Json := .null

/-- What `Parse` reads of a text. -/
structure Wrap where
  tokens : Option TokenBox := none
  accessToken : String := ""
  refreshToken : String := ""
  accountID : String := ""
  model : String := ""

def storeTokenBox : Store TokenBox :=
  storeStruct fun members held => do
    let accessToken ← storeField storeString members "access_token" held.accessToken
    let refreshToken ← storeField storeString members "refresh_token" held.refreshToken
    let accountID ← storeField storeString members "account_id" held.accountID
    let idToken ← storeField storeAny members "id_token" held.idToken
    some { accessToken, refreshToken, accountID, idToken }

def storeWrap : Store Wrap :=
  storeStruct fun members held => do
    let tokens ← storeField (storePointer {} storeTokenBox) members "tokens" held.tokens
    let accessToken ← storeField storeString members "access_token" held.accessToken
    let refreshToken ← storeField storeString members "refresh_token" held.refreshToken
    let accountID ← storeField storeString members "account_id" held.accountID
    let model ← storeField storeString members "model" held.model
    some { tokens, accessToken, refreshToken, accountID, model }

/-- The first text that is not empty. -/
def firstOf (text other : String) : String :=
  if text ≠ "" then text else other

/-- The session of what was read, before its model is set. -/
def Wrap.session (wrap : Wrap) : Session :=
  let session : Session :=
    match wrap.tokens with
    | none => ⟨wrap.accessToken, wrap.refreshToken, wrap.accountID, wrap.model⟩
    | some tokens => {
        accessToken := firstOf tokens.accessToken wrap.accessToken
        refreshToken := firstOf tokens.refreshToken wrap.refreshToken
        accountID := firstOf (firstOf tokens.accountID wrap.accountID)
          (accountFromIDToken tokens.idToken)
        model := wrap.model }
  { session with accountID := firstOf session.accountID (accountFromJWT session.accessToken) }

/-- `Parse`. -/
def parse (raw : String) : Except String Session :=
  let text := trimSpace raw
  if text = "" then .error "codex auth required"
  else
    match (parseDoc maxNestingDepth (bytesOf text)).bind fun doc => storeWrap doc {} with
    | none => .error "codex auth is not json"
    | some wrap =>
        let session := wrap.session
        if session.accessToken = "" then .error "codex access_token missing"
        else .ok { session with model := firstOf session.model defaultModel }

def Session.fields (session : Session) : List (String × Doc) :=
  textField "access_token" session.accessToken ::
    textField "refresh_token" session.refreshToken ::
      (omitEmpty "account_id" session.accountID ++ omitEmpty "model" session.model)

/-- `Session.Compact`. -/
def Session.compact (session : Session) : String :=
  decodeText (Doc.object (membersOf session.fields)).print

/-- `Parse` and `Compact`, as the store uses them. -/
def sessions : SessionLibrary Session where
  parse raw := (parse raw).toOption
  compact := Session.compact

end Reading

section Refreshing

/-- A reply to a refresh. -/
structure Granted where
  accessToken : String := ""
  refreshToken : String := ""
  idToken : String := ""

def storeGranted : Store Granted :=
  storeStruct fun members held => do
    let accessToken ← storeField storeString members "access_token" held.accessToken
    let refreshToken ← storeField storeString members "refresh_token" held.refreshToken
    let idToken ← storeField storeString members "id_token" held.idToken
    some { accessToken, refreshToken, idToken }

/-- What a reply grants, if it is one. -/
def grantOf (body : Bytes) : Option Granted :=
  ((parseDoc maxNestingDepth body).bind fun doc => storeGranted doc {}).filter
    (·.accessToken ≠ "")

/-- The session after a refresh. -/
def Session.refreshed (session : Session) (granted : Granted) : Session :=
  let accountID := firstOf (accountFromJWT granted.idToken) session.accountID
  { session with
    accessToken := granted.accessToken
    refreshToken := firstOf granted.refreshToken session.refreshToken
    accountID := firstOf accountID (accountFromJWT granted.accessToken) }

/-- `Refresh`. A reply has a status with its line, and a body. -/
def refresh (session : Session) (reply : Except String (Status × String × Bytes)) :
    Except String Session :=
  if session.refreshToken = "" then .error "codex refresh_token missing"
  else
    match reply with
    | .error message => .error message
    | .ok (status, line, body) =>
        if 400 ≤ status.val then .error ("codex refresh " ++ line)
        else
          match grantOf (body.take (2 ^ 20)) with
          | none => .error "codex refresh: bad token response"
          | some granted => .ok (session.refreshed granted)

end Refreshing

section Compact

variable {session : Session} {raw : String}

theorem Session.textFields : TextFields session.fields := by
  intro field inside
  simp only [Session.fields, List.mem_cons, List.mem_append] at inside
  rcases inside with rfl | rfl | account | model
  · exact ⟨_, rfl⟩
  · exact ⟨_, rfl⟩
  · exact textFields_omitEmpty _ _ field account
  · exact textFields_omitEmpty _ _ field model

theorem Session.smallNames : SmallNames session.fields := by
  intro field inside
  simp only [Session.fields, List.mem_cons, List.mem_append] at inside
  rcases inside with rfl | rfl | account | model
  · exact show SmallName "access_token" by decide
  · exact show SmallName "refresh_token" by decide
  · rw [name_of_omitEmpty account]
    decide
  · rw [name_of_omitEmpty model]
    decide

/-- A session is read as it was written. -/
theorem storeWrap_compact (session : Session) :
    storeWrap (.object (membersOf session.fields)) {} =
      some ⟨none, session.accessToken, session.refreshToken, session.accountID, session.model⟩ := by
  have values : ∀ name, SmallName name → valuesOf (membersOf session.fields) name =
      (session.fields.filter (·.1 = name)).map (·.2) :=
    fun name small => valuesOf_membersOf name small Session.smallNames
  have tokens : valuesOf (membersOf session.fields) "tokens" = [] := by
    rw [values "tokens" (by decide)]
    simp [Session.fields, textField, filter_omitEmpty]
  have access : storeField storeString (membersOf session.fields) "access_token" "" =
      some session.accessToken := by
    apply storeField_textField
    rw [values "access_token" (by decide)]
    simp [Session.fields, textField, filter_omitEmpty]
  have refresh : storeField storeString (membersOf session.fields) "refresh_token" "" =
      some session.refreshToken := by
    apply storeField_textField
    rw [values "refresh_token" (by decide)]
    simp [Session.fields, textField, filter_omitEmpty]
  have account : storeField storeString (membersOf session.fields) "account_id" "" =
      some session.accountID := by
    apply storeField_omitEmpty
    rw [values "account_id" (by decide)]
    simp [Session.fields, textField, filter_omitEmpty]
  have model : storeField storeString (membersOf session.fields) "model" "" =
      some session.model := by
    apply storeField_omitEmpty
    rw [values "model" (by decide)]
    simp [Session.fields, textField, filter_omitEmpty]
  simp only [storeWrap, storeStruct, storeField_absent tokens, access, refresh, account, model,
    Option.bind_eq_bind, Option.bind_some]

/-- What `Parse` gives of a compact session: the account is read from the token when there is none,
and the model is set. -/
theorem parse_compact_eq (session : Session) :
    parse session.compact =
      if session.accessToken = "" then .error "codex access_token missing"
      else .ok { session with
        accountID := firstOf session.accountID (accountFromJWT session.accessToken)
        model := firstOf session.model defaultModel } := by
  rcases @textFields_read session.fields Session.smallNames Session.textFields with
    ⟨begins, trimmed, reads⟩
  rw [parse, Session.compact, trimmed, if_neg (ne_empty_of_hasPrefix begins), reads, Option.bind_some,
    storeWrap_compact]
  rfl

@[simp]
theorem firstOf_empty (text : String) : firstOf "" text = text := rfl

theorem firstOf_of_ne {text : String} (other : String) (notEmpty : text ≠ "") :
    firstOf text other = text :=
  if_pos notEmpty

theorem firstOf_ne {text other : String} (notEmpty : other ≠ "") : firstOf text other ≠ "" := by
  rw [firstOf]
  split
  · assumption
  · exact notEmpty

@[simp]
theorem firstOf_firstOf (text other : String) :
    firstOf (firstOf text other) other = firstOf text other := by
  by_cases isEmpty : text = ""
  · rw [isEmpty, firstOf_empty]
    by_cases otherEmpty : other = ""
    · rw [otherEmpty, firstOf_empty]
    · rw [firstOf_of_ne _ otherEmpty]
  · rw [firstOf_of_ne _ isEmpty, firstOf_of_ne _ isEmpty]

/-- A session that is complete: reading it again adds nothing. -/
structure Session.Settled (session : Session) : Prop where
  accessToken : session.accessToken ≠ ""
  accountID : firstOf session.accountID (accountFromJWT session.accessToken) = session.accountID
  model : session.model ≠ ""

theorem Session.Settled.parse_compact (settled : session.Settled) :
    parse session.compact = .ok session := by
  rw [parse_compact_eq, if_neg settled.accessToken, settled.accountID,
    firstOf_of_ne _ settled.model]

theorem settled_of_parse (accepted : parse raw = .ok session) : session.Settled := by
  simp only [parse] at accepted
  split at accepted
  · cases accepted
  · split at accepted
    · cases accepted
    · rename_i wrap _
      split at accepted
      · cases accepted
      · rename_i hasToken
        rw [Except.ok.injEq] at accepted
        subst accepted
        refine ⟨hasToken, ?_, firstOf_ne (by decide)⟩
        simp only [Wrap.session]
        exact firstOf_firstOf _ _

theorem Session.Settled.refreshed (settled : session.Settled) {granted : Granted}
    (hasToken : granted.accessToken ≠ "") : (session.refreshed granted).Settled :=
  ⟨hasToken, firstOf_firstOf _ _, settled.model⟩

theorem grantOf_ne {body : Bytes} {granted : Granted} (grants : grantOf body = some granted) :
    granted.accessToken ≠ "" := by
  have kept := (Option.filter_eq_some_iff.mp grants).2
  simpa using kept

/-- What a refresh that succeeds has done. -/
theorem refresh_eq_ok {next : Session} {reply : Except String (Status × String × Bytes)}
    (refreshes : refresh session reply = .ok next) :
    session.refreshToken ≠ "" ∧ ∃ granted : Granted, granted.accessToken ≠ "" ∧
      next = session.refreshed granted := by
  unfold refresh at refreshes
  split at refreshes
  · cases refreshes
  · rename_i hasToken
    split at refreshes
    · cases refreshes
    · split at refreshes
      · cases refreshes
      · split at refreshes
        · cases refreshes
        · rename_i granted grants
          rw [Except.ok.injEq] at refreshes
          exact ⟨hasToken, granted, grantOf_ne grants, refreshes.symm⟩

end Compact

end MikroLLM.Codex
