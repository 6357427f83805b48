import MikroLLM.Auth.Lockout
import MikroLLM.Auth.Session
import MikroLLM.Go.Strings
import MikroLLM.Go.Text
import MikroLLM.Library.Runs

/-!
# The administrator's sessions

A login gives a cookie, and the handlers of the interface are behind `protect`.
Every password comes with a secret of its own, so that cookies lose their value
with the password they were given for. The handlers run side by side: what one of
them does between two looks at the shared state is a step.
-/

namespace MikroLLM.Auth

open Go Library

/-- What the clock shows, within what the numbers of a session can hold. -/
structure Instant where
  nanos : ℤ
  early : 0 ≤ nanos
  late : unix (nanos + sessionTTL) < 2 ^ 63

/-- Bytes of the random source. -/
abbrev RandomBytes (count : ℕ) := {bytes : Bytes // bytes.length = count}

/-- Package `bcrypt`. The first bytes are the salt. -/
structure Bcrypt where
  generateFromPassword : Bytes → String → Option String
  compareHashAndPassword : String → String → Bool

/-- What the interface reads of a request. The form is as it is after `ParseForm`. -/
structure AdminRequest where
  method : String
  cookie : Option Bytes
  csrfToken : String
  csrf : String
  contentType : String
  formCSRF : String
  formPassword : String
  deriving DecidableEq

def isUnsafe (method : String) : Bool :=
  !(method = "GET" || method = "HEAD" || method = "OPTIONS" || method = "TRACE")

def csrfFromRequest (request : AdminRequest) : String :=
  if trimSpace request.csrfToken ≠ "" then trimSpace request.csrfToken
  else if trimSpace request.csrf ≠ "" then trimSpace request.csrf
  else if hasPrefix request.contentType "application/x-www-form-urlencoded" ||
      hasPrefix request.contentType "multipart/form-data" then request.formCSRF
  else ""

/-- The row of `admin_meta`. -/
structure AdminMeta where
  passwordHash : String
  sessionSecret : Bytes

/-- A cookie that was given, with the number of passwords there had been. -/
structure Issued where
  token : RandomBytes 16
  made : Instant
  secret : Bytes
  epoch : ℕ

def Issued.session (entry : Issued) : Session :=
  newSession entry.token.val entry.made.nanos

def Issued.cookie (mac : Mac) (entry : Issued) : Bytes :=
  signedValue mac entry.secret entry.session.marshal

/-- What a running handler does next. -/
inductive Handler
  | checkPassword (ip password : String)
  | recordLogin (ip : String) (ok : Bool)
  | issueCookie
  | checkToken (request : AdminRequest)
  | serve (request : AdminRequest)
  deriving DecidableEq

/-- The shared state with the handlers that run. The secrets that were drawn, the latest
first, and the cookies that were given are kept for the account only. -/
structure AdminState where
  admin : Option AdminMeta
  fails : Fails
  handlers : List Handler
  secrets : List Bytes
  issued : List Issued

namespace AdminState

variable (mac : Mac) (bcrypt : Bcrypt)

def start : AdminState :=
  ⟨none, Association.empty, [], [], []⟩

/-- How many passwords there have been. -/
def epoch (state : AdminState) : ℕ :=
  state.secrets.length

/-- A handler of the state, taken off. -/
def resume (state : AdminState) (handler : Handler) : Option AdminState :=
  if handler ∈ state.handlers then
    some { state with handlers := state.handlers.erase handler }
  else none

def proceed (state : AdminState) (handler : Handler) : AdminState :=
  { state with handlers := handler :: state.handlers }

def parse (state : AdminState) (now : ℤ) (cookie : Option Bytes) : Option Session :=
  state.admin.bind fun row => parseSession mac row.sessionSecret now cookie

/-- `ValidSession`. -/
def validSession (state : AdminState) (now : ℤ) (cookie : Option Bytes) : Bool :=
  (state.parse mac now cookie).isSome

/-- `ValidCSRF`. -/
def validCSRF (state : AdminState) (now : ℤ) (cookie : Option Bytes) (tok : String) : Bool :=
  state.admin.any fun row => Auth.validCSRF mac row.sessionSecret now cookie tok

def checkPassword (state : AdminState) (password : String) : Bool :=
  state.admin.any fun row => bcrypt.compareHashAndPassword row.passwordHash password

/-- Both columns of the row are written at once. -/
def writeMeta (state : AdminState) (hash : String) (secret : RandomBytes 32) : AdminState :=
  let text := bytesOf (hexString secret.val)
  { state with admin := some ⟨hash, text⟩, secrets := text :: state.secrets }

/-- `EnsureAdmin`. -/
def ensureAdmin (state : AdminState) (password : String) (reset : Bool)
    (generated : RandomBytes 16) (salt : Bytes) (secret : RandomBytes 32) : AdminState :=
  if state.admin.isSome && !reset then state
  else
    let password := if password = "" then hexString generated.val else password
    match bcrypt.generateFromPassword salt password with
    | none => state
    | some hash => state.writeMeta hash secret

/-- `SetAdminPassword`. Without a row nothing is updated. -/
def setAdminPassword (state : AdminState) (password : String) (salt : Bytes)
    (secret : RandomBytes 32) : Option AdminState :=
  (bcrypt.generateFromPassword salt password).map fun hash =>
    if state.admin.isSome then state.writeMeta hash secret else state

/-- `IssueCookie`. Without a secret there is no cookie. -/
def issueCookie (state : AdminState) (now : Instant) (token : RandomBytes 16) : AdminState :=
  match state.admin with
  | none => state
  | some row =>
      { state with issued := ⟨token, now, row.sessionSecret, state.epoch⟩ :: state.issued }

end AdminState

/-- What happens next, with the readings of the clock and of the random source. -/
inductive AdminEvent
  /-- The service starts again: handlers and failed logins are gone. -/
  | ensureAdmin (password : String) (reset : Bool) (generated : RandomBytes 16) (salt : Bytes)
      (secret : RandomBytes 32)
  | loginPost (ip password : String) (now : ℤ)
  | checkPassword (ip password : String)
  | recordLogin (ip : String) (ok : Bool) (now opened : ℤ)
  | issueCookie (now : Instant) (token : RandomBytes 16)
  | protect (request : AdminRequest) (now : ℤ)
  | checkToken (request : AdminRequest) (now : ℤ)
  | password (request : AdminRequest) (salt : Bytes) (secret : RandomBytes 32)
  /-- The other handlers behind `protect` leave what is modelled here alone. -/
  | serve (request : AdminRequest)

open AdminState in
def adminStep (mac : Mac) (bcrypt : Bcrypt) (state : AdminState) : AdminEvent → Option AdminState
  | .ensureAdmin password reset generated salt secret =>
      let restarted := { state with fails := Association.empty, handlers := [] }
      some (restarted.ensureAdmin bcrypt password reset generated salt secret)
  | .loginPost ip password now =>
      let looked := loginBlocked state.fails ip now
      let pruned := { state with fails := looked.1 }
      some (if looked.2 then pruned else pruned.proceed (.checkPassword ip password))
  | .checkPassword ip password =>
      (state.resume (.checkPassword ip password)).map fun resumed =>
        resumed.proceed (.recordLogin ip (state.checkPassword bcrypt password))
  | .recordLogin ip ok now opened =>
      (state.resume (.recordLogin ip ok)).map fun resumed =>
        let recorded := { resumed with fails := recordLogin state.fails ip ok now opened }
        if ok then recorded.proceed .issueCookie else recorded
  | .issueCookie now token =>
      (state.resume .issueCookie).map fun resumed => resumed.issueCookie now token
  | .protect request now =>
      -- Otherwise the answer is a redirection to the login.
      some (if state.validSession mac now request.cookie then
          state.proceed (if isUnsafe request.method then .checkToken request else .serve request)
        else state)
  | .checkToken request now =>
      -- Otherwise the answer is a 403.
      (state.resume (.checkToken request)).map fun resumed =>
        if state.validCSRF mac now request.cookie (csrfFromRequest request) then
          resumed.proceed (.serve request)
        else resumed
  | .password request salt secret =>
      (state.resume (.serve request)).map fun resumed =>
        if (bytesOf request.formPassword).length < 8 then resumed
        else
          match resumed.setAdminPassword bcrypt request.formPassword salt secret with
          | none => resumed
          | some changed => changed.proceed .issueCookie
  | .serve request => state.resume (.serve request)

/-- A signature that the present secret gives was made by the service. -/
def Genuine (mac : Mac) (state : AdminState) (cookie : Option Bytes) : Prop :=
  ∀ row ∈ state.admin, ∀ payload,
    cookie.bind openCookie = some (payload, mac row.sessionSecret payload) →
      ∃ entry ∈ state.issued, entry.secret = row.sessionSecret ∧ entry.session.marshal = payload

/-- New secrets and tokens are new, and the signatures of cookies are genuine. -/
def Honest (mac : Mac) (state : AdminState) : AdminEvent → Prop
  | .ensureAdmin _ _ _ _ secret | .password _ _ secret =>
      bytesOf (hexString secret.val) ∉ state.secrets
  | .issueCookie _ token => ∀ entry ∈ state.issued, entry.session.csrf ≠ hexString token.val
  | .protect request _ | .checkToken request _ => Genuine mac state request.cookie
  | _ => True

end MikroLLM.Auth
