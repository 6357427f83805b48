import MikroLLM.Auth.Admin

/-!
# Which cookies are accepted

A cookie is accepted when it was given under the present password and has not
expired, in whatever order the handlers run. What was signed for an earlier
password is refused from the change of the password on.
-/

namespace MikroLLM.Auth

open Go Library

section Sessions

variable {session other : Session} {entry : Issued} {now : Instant} {token : RandomBytes 16}

theorem RandomBytes.ne_nil : token.val ≠ [] := by
  intro isEmpty
  have size := token.property
  rw [isEmpty] at size
  exact absurd size (by decide)

theorem newSession_inRange : (newSession token.val now.nanos).InRange := by
  have later : 0 ≤ unix (now.nanos + sessionTTL) := by
    have early := now.early
    simp only [unix, sessionTTL, secondLength]
    omega
  have late := now.late
  simp only [Session.InRange, newSession]
  omega

theorem unmarshal_issued : unmarshalSession entry.session.marshal = some entry.session :=
  unmarshalSession_marshal newSession_inRange

theorem issued_valid {now : ℤ} :
    entry.session.valid now = true ↔ unix now < unix (entry.made.nanos + sessionTTL) :=
  newSession_valid RandomBytes.ne_nil

/-- Different sessions are written differently. -/
theorem session_eq_of_marshal {first second : Issued}
    (same : first.session.marshal = second.session.marshal) : first.session = second.session := by
  have reads : some first.session = some second.session := by
    rw [← unmarshal_issued, ← unmarshal_issued, same]
  exact Option.some.inj reads

end Sessions

/-- The cookie is one that the service gave for the present password. -/
def AdminState.Holds (mac : Mac) (state : AdminState) (cookie : Option Bytes) (entry : Issued) :
    Prop :=
  entry ∈ state.issued ∧ entry.epoch = state.epoch ∧
    cookie.bind openCookie =
      some (entry.session.marshal, mac entry.secret entry.session.marshal)

/-- A request that may be served carries a cookie of the service, and if it changes
anything also the token of that cookie. -/
def AdminState.Justified (mac : Mac) (state : AdminState) (request : AdminRequest) : Prop :=
  ∃ entry ∈ state.issued,
    request.cookie.bind openCookie =
        some (entry.session.marshal, mac entry.secret entry.session.marshal) ∧
      (isUnsafe request.method = true → csrfFromRequest request = entry.session.csrf)

/-- What is kept about secrets and cookies. -/
structure AdminState.Accounted (mac : Mac) (state : AdminState) : Prop where
  present : ∀ row ∈ state.admin, row.sessionSecret ∈ state.secrets
  drawn : ∀ entry ∈ state.issued, entry.secret ∈ state.secrets
  notLater : ∀ entry ∈ state.issued, entry.epoch ≤ state.epoch
  epochs : ∀ entry ∈ state.issued, ∃ row, state.admin = some row ∧
    (entry.epoch = state.epoch ↔ entry.secret = row.sessionSecret)
  tokens : (state.issued.map (·.session.csrf)).Nodup
  served : ∀ request, .serve request ∈ state.handlers → state.Justified mac request

section Accepting

variable {mac : Mac} {bcrypt : Bcrypt} {state : AdminState} {now : ℤ} {cookie : Option Bytes}
  {tok : String} {session : Session} {entry : Issued} {request : AdminRequest}

/-- Which session a cookie stands for. -/
theorem parse_eq_some_iff (accounted : state.Accounted mac) (genuine : Genuine mac state cookie) :
    state.parse mac now cookie = some session ↔
      ∃ entry, state.Holds mac cookie entry ∧ entry.session = session ∧
        unix now < unix (entry.made.nanos + sessionTTL) := by
  rw [AdminState.parse, Option.bind_eq_some_iff]
  constructor
  · rintro ⟨row, isRow, parsed⟩
    rcases parseSession_eq_some_iff.mp parsed with ⟨payload, opens, reads, isValid⟩
    rcases genuine row isRow payload opens with ⟨entry, given, sameSecret, rfl⟩
    rw [unmarshal_issued, Option.some_inj] at reads
    rw [← reads, issued_valid] at isValid
    rcases accounted.epochs entry given with ⟨_, admin, present⟩
    rw [admin, Option.some_inj] at isRow
    subst isRow
    exact ⟨entry, ⟨given, present.mpr sameSecret, by rw [opens, sameSecret]⟩, reads, isValid⟩
  · rintro ⟨entry, ⟨given, current, opens⟩, rfl, inTime⟩
    rcases accounted.epochs entry given with ⟨row, admin, present⟩
    refine ⟨row, admin, ?_⟩
    apply parseSession_eq_some_iff.mpr
    rw [← present.mp current]
    exact ⟨_, opens, unmarshal_issued, issued_valid.mpr inTime⟩

theorem validSession_iff (accounted : state.Accounted mac) (genuine : Genuine mac state cookie) :
    state.validSession mac now cookie = true ↔
      ∃ entry, state.Holds mac cookie entry ∧
        unix now < unix (entry.made.nanos + sessionTTL) := by
  rw [AdminState.validSession, Option.isSome_iff_exists]
  simp only [parse_eq_some_iff accounted genuine]
  constructor
  · rintro ⟨_, entry, holds, _, inTime⟩
    exact ⟨entry, holds, inTime⟩
  · rintro ⟨entry, holds, inTime⟩
    exact ⟨_, entry, holds, rfl, inTime⟩

theorem validCSRF_iff (accounted : state.Accounted mac) (genuine : Genuine mac state cookie) :
    state.validCSRF mac now cookie tok = true ↔
      ∃ entry, state.Holds mac cookie entry ∧
        unix now < unix (entry.made.nanos + sessionTTL) ∧ tok = entry.session.csrf := by
  have parsed : state.validCSRF mac now cookie tok = true ↔
      ∃ session, state.parse mac now cookie = some session ∧ tok = session.csrf := by
    rw [AdminState.validCSRF, AdminState.parse]
    cases state.admin with
    | none => simp
    | some row => exact validCSRF_eq_true_iff
  rw [parsed]
  simp only [parse_eq_some_iff accounted genuine]
  constructor
  · rintro ⟨_, ⟨entry, holds, rfl, inTime⟩, same⟩
    exact ⟨entry, holds, inTime, same⟩
  · rintro ⟨entry, holds, inTime, same⟩
    exact ⟨_, ⟨entry, holds, rfl, inTime⟩, same⟩

/-- A cookie holds for one password only. -/
theorem holds_cookie (accounted : state.Accounted mac) (given : entry ∈ state.issued)
    {other : Issued} (holds : state.Holds mac (some (entry.cookie mac)) other) :
    entry.epoch = state.epoch := by
  rcases holds with ⟨otherGiven, current, opens⟩
  rw [Option.bind_some, Issued.cookie, openCookie_signedValue, Option.some_inj,
    Prod.mk.injEq] at opens
  have sameToken := congrArg Session.csrf (session_eq_of_marshal opens.1)
  have same := List.inj_on_of_nodup_map accounted.tokens given otherGiven sameToken
  rw [same, current]

end Accepting

/-- What a step does to secrets, cookies and the requests that are served. -/
inductive Change (mac : Mac) (state next : AdminState) : Prop
  | quiet (admin : next.admin = state.admin) (secrets : next.secrets = state.secrets)
      (issued : next.issued = state.issued)
      (served : ∀ request, .serve request ∈ next.handlers →
        .serve request ∈ state.handlers ∨ state.Justified mac request)
  | written (row : AdminMeta) (admin : next.admin = some row)
      (isNew : row.sessionSecret ∉ state.secrets)
      (secrets : next.secrets = row.sessionSecret :: state.secrets)
      (issued : next.issued = state.issued)
      (served : ∀ request, .serve request ∈ next.handlers → .serve request ∈ state.handlers)
  | given (row : AdminMeta) (entry : Issued) (present : state.admin = some row)
      (admin : next.admin = state.admin) (secrets : next.secrets = state.secrets)
      (issued : next.issued = entry :: state.issued)
      (secret : entry.secret = row.sessionSecret) (epoch : entry.epoch = state.epoch)
      (isNew : ∀ earlier ∈ state.issued, earlier.session.csrf ≠ entry.session.csrf)
      (served : ∀ request, .serve request ∈ next.handlers → .serve request ∈ state.handlers)

section Keeping

variable {mac : Mac} {bcrypt : Bcrypt} {state next : AdminState} {event : AdminEvent}
  {handler : Handler} {request : AdminRequest}

theorem Justified.mono (justified : state.Justified mac request)
    (kept : ∀ entry ∈ state.issued, entry ∈ next.issued) : next.Justified mac request := by
  rcases justified with ⟨entry, given, opens, token⟩
  exact ⟨entry, kept entry given, opens, token⟩

theorem resume_eq_some (resumed : state.resume handler = some next) :
    next = { state with handlers := state.handlers.erase handler } := by
  rw [AdminState.resume] at resumed
  split at resumed
  · exact (Option.some.inj resumed).symm
  · cases resumed

theorem resume_proceed : (state.proceed handler).resume handler = some state := by
  simp [AdminState.proceed, AdminState.resume]

/-- Every change keeps the account. -/
theorem Change.accounted (change : Change mac state next) (accounted : state.Accounted mac) :
    next.Accounted mac := by
  cases change with
  | quiet admin secrets issued served =>
      have sameEpoch : next.epoch = state.epoch := by
        rw [AdminState.epoch, AdminState.epoch, secrets]
      refine ⟨?_, ?_, ?_, ?_, ?_, ?_⟩
      · rw [admin, secrets]
        exact accounted.present
      · rw [issued, secrets]
        exact accounted.drawn
      · rw [issued, sameEpoch]
        exact accounted.notLater
      · rw [issued, admin, sameEpoch]
        exact accounted.epochs
      · rw [issued]
        exact accounted.tokens
      · intro request serving
        have justified : state.Justified mac request :=
          (served request serving).elim (accounted.served request) id
        apply Justified.mono justified
        rw [issued]
        exact fun entry given => given
  | written row admin isNew secrets issued served =>
      have nextEpoch : next.epoch = state.epoch + 1 := by
        rw [AdminState.epoch, AdminState.epoch, secrets, List.length_cons]
      refine ⟨?_, ?_, ?_, ?_, ?_, ?_⟩
      · intro present isRow
        rw [admin, Option.mem_def, Option.some_inj] at isRow
        rw [secrets, ← isRow]
        exact List.mem_cons_self
      · intro entry given
        rw [issued] at given
        rw [secrets]
        exact List.mem_cons_of_mem _ (accounted.drawn entry given)
      · intro entry given
        rw [issued] at given
        have earlier := accounted.notLater entry given
        omega
      · intro entry given
        rw [issued] at given
        refine ⟨row, admin, ?_⟩
        have earlier := accounted.notLater entry given
        have differs : entry.secret ≠ row.sessionSecret := by
          intro same
          have drawn := accounted.drawn entry given
          rw [same] at drawn
          exact isNew drawn
        constructor
        · intro now
          omega
        · intro same
          exact absurd same differs
      · rw [issued]
        exact accounted.tokens
      · intro request serving
        apply Justified.mono (accounted.served request (served request serving))
        rw [issued]
        exact fun entry given => given
  | given row entry present admin secrets issued secret epoch isNew served =>
      have sameEpoch : next.epoch = state.epoch := by
        rw [AdminState.epoch, AdminState.epoch, secrets]
      refine ⟨?_, ?_, ?_, ?_, ?_, ?_⟩
      · rw [admin, secrets]
        exact accounted.present
      · rw [issued, secrets, List.forall_mem_cons]
        refine ⟨?_, accounted.drawn⟩
        rw [secret]
        exact accounted.present row present
      · rw [issued, sameEpoch, List.forall_mem_cons]
        exact ⟨le_of_eq epoch, accounted.notLater⟩
      · rw [issued, admin, sameEpoch, List.forall_mem_cons]
        refine ⟨⟨row, present, ?_⟩, accounted.epochs⟩
        exact iff_of_true epoch secret
      · rw [issued, List.map_cons, List.nodup_cons]
        refine ⟨?_, accounted.tokens⟩
        intro inside
        rcases List.mem_map.mp inside with ⟨earlier, given, same⟩
        exact isNew earlier given same
      · intro request serving
        apply Justified.mono (accounted.served request (served request serving))
        intro entry given
        rw [issued]
        exact List.mem_cons_of_mem _ given

/-- What is served after a step that goes on with a handler. -/
theorem serve_of_erase {next : Handler} (notServing : ∀ request, next ≠ .serve request)
    (serving : .serve request ∈ next :: state.handlers.erase handler) :
    .serve request ∈ state.handlers := by
  rcases List.mem_cons.mp serving with isNext | earlier
  · exact absurd isNext.symm (notServing request)
  · exact List.mem_of_mem_erase earlier

/-- The account is kept by every honest step. -/
theorem change_of_step (accounted : state.Accounted mac) (honest : Honest mac state event)
    (fires : adminStep mac bcrypt state event = some next) : Change mac state next := by
  have erased {handler : Handler} {request : AdminRequest}
      (serving : .serve request ∈ state.handlers.erase handler) :
      .serve request ∈ state.handlers := List.mem_of_mem_erase serving
  cases event with
  | ensureAdmin password reset generated salt secret =>
      rw [adminStep, Option.some_inj] at fires
      subst fires
      have stopped : Change mac state { state with fails := Association.empty, handlers := [] } :=
        .quiet rfl rfl rfl fun request serving => absurd serving List.not_mem_nil
      simp only [AdminState.ensureAdmin]
      split
      · exact stopped
      · split
        · exact stopped
        · exact .written _ rfl honest rfl rfl fun request serving =>
            absurd serving List.not_mem_nil
  | loginPost ip password now =>
      rw [adminStep, Option.some_inj] at fires
      subst fires
      split
      · exact .quiet rfl rfl rfl fun request serving => Or.inl serving
      · refine .quiet rfl rfl rfl fun request serving => Or.inl ?_
        exact (List.mem_cons.mp serving).resolve_left (by simp)
  | checkPassword ip password =>
      rcases Option.map_eq_some_iff.mp fires with ⟨resumed, taken, rfl⟩
      rw [resume_eq_some taken]
      refine .quiet rfl rfl rfl fun request serving => Or.inl ?_
      exact serve_of_erase (by simp) serving
  | recordLogin ip ok now opened =>
      rcases Option.map_eq_some_iff.mp fires with ⟨resumed, taken, rfl⟩
      rw [resume_eq_some taken]
      dsimp only
      split
      · refine .quiet rfl rfl rfl fun request serving => Or.inl ?_
        exact serve_of_erase (by simp) serving
      · exact .quiet rfl rfl rfl fun request serving => Or.inl (erased serving)
  | issueCookie now token =>
      rcases Option.map_eq_some_iff.mp fires with ⟨resumed, taken, rfl⟩
      rw [resume_eq_some taken, AdminState.issueCookie]
      split
      · exact .quiet rfl rfl rfl fun request serving => Or.inl (erased serving)
      · rename_i row present
        exact .given row _ present rfl rfl rfl rfl rfl honest fun request => erased
  | protect request now =>
      rw [adminStep, Option.some_inj] at fires
      subst fires
      split
      · rename_i accepted
        rcases (validSession_iff accounted honest).mp accepted with ⟨entry, holds, _⟩
        refine .quiet rfl rfl rfl fun other serving => ?_
        rcases List.mem_cons.mp serving with isNext | earlier
        · split at isNext
          · cases isNext
          · rename_i isSafe
            cases isNext
            exact Or.inr ⟨entry, holds.1, holds.2.2, fun changes => absurd changes isSafe⟩
        · exact Or.inl earlier
      · exact .quiet rfl rfl rfl fun request serving => Or.inl serving
  | checkToken request now =>
      rcases Option.map_eq_some_iff.mp fires with ⟨resumed, taken, rfl⟩
      rw [resume_eq_some taken]
      split
      · rename_i accepted
        rcases (validCSRF_iff accounted honest).mp accepted with ⟨entry, holds, _, token⟩
        refine .quiet rfl rfl rfl fun other serving => ?_
        rcases List.mem_cons.mp serving with isNext | earlier
        · cases isNext
          exact Or.inr ⟨entry, holds.1, holds.2.2, fun _ => token⟩
        · exact Or.inl (erased earlier)
      · exact .quiet rfl rfl rfl fun request serving => Or.inl (erased serving)
  | password request salt secret =>
      rcases Option.map_eq_some_iff.mp fires with ⟨resumed, taken, rfl⟩
      rw [resume_eq_some taken]
      split
      · exact .quiet rfl rfl rfl fun request serving => Or.inl (erased serving)
      · split
        · exact .quiet rfl rfl rfl fun request serving => Or.inl (erased serving)
        · rename_i changed written
          rcases Option.map_eq_some_iff.mp written with ⟨hash, _, rfl⟩
          split
          · exact .written _ rfl honest rfl rfl fun request => serve_of_erase (by simp)
          · refine .quiet rfl rfl rfl fun request serving => Or.inl ?_
            exact serve_of_erase (by simp) serving
  | serve request =>
      rw [resume_eq_some fires]
      exact .quiet rfl rfl rfl fun request serving => Or.inl (erased serving)

theorem accounted_start : AdminState.start.Accounted mac := by
  have none {kind : Type} {value : kind} : value ∉ ([] : List kind) := List.not_mem_nil
  refine ⟨?_, ?_, ?_, ?_, List.nodup_nil, ?_⟩
  · intro row isRow
    cases isRow
  · exact fun entry given => absurd given none
  · exact fun entry given => absurd given none
  · exact fun entry given => absurd given none
  · exact fun request serving => absurd serving none

theorem accounted_run {events : List AdminEvent}
    (run : Run (adminStep mac bcrypt) (Honest mac) .start events state) :
    state.Accounted mac :=
  run.invariant (AdminState.Accounted mac) accounted_start fun accounted honest fires =>
    (change_of_step accounted honest fires).accounted accounted

end Keeping

section Main

variable {mac : Mac} {bcrypt : Bcrypt} {state : AdminState} {events : List AdminEvent}
  {cookie : Option Bytes} {now : ℤ} {tok : String}

end Main

section Changed

/-- The first secret of the example, and the second. -/
def exampleSecret (last : UInt8) : RandomBytes 32 :=
  ⟨List.replicate 31 0 ++ [last], by rw [List.length_append, List.length_replicate]; rfl⟩

def exampleEntry : Issued where
  token := ⟨List.replicate 15 0 ++ [7], by rw [List.length_append, List.length_replicate]; rfl⟩
  made := ⟨secondLength, by decide, by decide⟩
  secret := bytesOf (hexString (exampleSecret 1).val)
  epoch := 1

/-- The HMACs of the example's payload. -/
def exampleMac : Mac := fun secret _ =>
  if secret = bytesOf (hexString (exampleSecret 1).val) then
    [81, 149, 222, 134, 228, 180, 214, 79, 15, 90, 254, 85, 2, 38, 54, 159, 220, 36, 96, 61, 188,
      114, 81, 195, 172, 74, 174, 3, 202, 96, 92, 62]
  else
    [35, 239, 215, 111, 30, 3, 143, 117, 196, 52, 200, 228, 86, 17, 132, 185, 57, 219, 150, 139,
      160, 117, 246, 204, 238, 111, 41, 61, 75, 194, 129, 34]

/-- Two passwords with their hashes. -/
def exampleHash (password : String) : String :=
  if password = "abc" then "$2a$10$WvvTPHKwdBJ3uk0Z37EMR.hLA2W6N9AEBhEgrAOljy2Ae5MtaSIUi"
  else "$2a$10$fVH8e28OQRj9tqiDXs1e1uxpsjN0c7II7YPKXua2NAKYvM6iQk7dq"

def exampleBcrypt : Bcrypt where
  generateFromPassword _ password := some (exampleHash password)
  compareHashAndPassword hash password := hash = exampleHash password

def exampleAdmin (password : String) (last : UInt8) : AdminMeta :=
  ⟨exampleHash password, bytesOf (hexString (exampleSecret last).val)⟩

/-- The administrator logs in. -/
def exampleLogin : List AdminEvent :=
  [.ensureAdmin "abc" false ⟨List.replicate 16 0, rfl⟩ [] (exampleSecret 1),
    .loginPost "10.0.0.1" "abc" 0, .checkPassword "10.0.0.1" "abc",
    .recordLogin "10.0.0.1" true 0 0, .issueCookie exampleEntry.made exampleEntry.token]

/-- The state with the password and what was given for it. -/
def exampleState (password : String) (last : UInt8) (secrets : List Bytes) (issued : List Issued) :
    AdminState :=
  ⟨some (exampleAdmin password last), Association.empty, [],
    (exampleAdmin password last).sessionSecret :: secrets, issued⟩

theorem run_exampleLogin :
    Run (adminStep exampleMac exampleBcrypt) (Honest exampleMac) .start exampleLogin
      (exampleState "abc" 1 [] [exampleEntry]) := by
  have checks : adminStep exampleMac exampleBcrypt
      ((exampleState "abc" 1 [] []).proceed (.checkPassword "10.0.0.1" "abc"))
      (.checkPassword "10.0.0.1" "abc") =
        some ((exampleState "abc" 1 [] []).proceed (.recordLogin "10.0.0.1" true)) := by
    rw [adminStep, resume_proceed, Option.map_some]
    simp [AdminState.checkPassword, AdminState.proceed, exampleState, exampleAdmin, exampleBcrypt]
  have records : adminStep exampleMac exampleBcrypt
      ((exampleState "abc" 1 [] []).proceed (.recordLogin "10.0.0.1" true))
      (.recordLogin "10.0.0.1" true 0 0) =
        some ((exampleState "abc" 1 [] []).proceed .issueCookie) := by
    rw [adminStep, resume_proceed, Option.map_some]
    rfl
  have gives : adminStep exampleMac exampleBcrypt
      ((exampleState "abc" 1 [] []).proceed .issueCookie)
      (.issueCookie exampleEntry.made exampleEntry.token) =
        some (exampleState "abc" 1 [] [exampleEntry]) := by
    rw [adminStep, resume_proceed, Option.map_some]
    rfl
  exact .cons List.not_mem_nil rfl (.cons trivial rfl (.cons trivial checks
    (.cons trivial records (.cons (fun entry given => absurd given List.not_mem_nil) gives
      (.nil _)))))

theorem run_exampleChange :
    Run (adminStep exampleMac exampleBcrypt) (Honest exampleMac) .start
      (exampleLogin ++ [.ensureAdmin "abcdefghijklmnopqrstuvwxyz" true ⟨List.replicate 16 0, rfl⟩ []
        (exampleSecret 2)])
      (exampleState "abcdefghijklmnopqrstuvwxyz" 2 [(exampleAdmin "abc" 1).sessionSecret]
        [exampleEntry]) := by
  apply run_exampleLogin.append
  have isNew : (exampleAdmin "abc" 2).sessionSecret ∉ [(exampleAdmin "abc" 1).sessionSecret] := by
    decide
  exact .cons isNew rfl (.nil _)

end Changed

end MikroLLM.Auth
