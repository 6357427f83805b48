import MikroLLM.Go.Base64
import MikroLLM.Go.Members
import MikroLLM.Library.Delimited

/-!
# Session cookies

A session is written as JSON, signed, and put into a cookie. `mac` is the
HMAC of a payload under a secret; nothing is assumed about it here. An instant
is in nanoseconds since the beginning of 1970.
-/

namespace MikroLLM.Auth

open Go Library

/-- The HMAC of a payload under a secret. -/
abbrev Mac := Bytes → Bytes → Bytes

def secondLength : ℤ := 1000000000

/-- `sessionTTL`. -/
def sessionTTL : ℤ := 12 * 3600 * secondLength

/-- `t.Unix()`. -/
def unix (t : ℤ) : ℤ :=
  t / secondLength

structure Session where
  exp : ℤ
  v : ℤ
  csrf : String
  deriving DecidableEq

def Session.fields (session : Session) : List (String × Doc) :=
  [intField "exp" session.exp, intField "v" session.v, textField "csrf" session.csrf]

/-- `Marshal`. -/
def Session.marshal (session : Session) : Bytes :=
  (Doc.object (membersOf session.fields)).print

def storeSession : Store Session :=
  storeStruct fun members held => do
    let exp ← storeField storeInt members "exp" held.exp
    let v ← storeField storeInt members "v" held.v
    let csrf ← storeField storeString members "csrf" held.csrf
    some { exp, v, csrf }

/-- `Unmarshal`. -/
def unmarshalSession (payload : Bytes) : Option Session :=
  (parseDoc maxNestingDepth payload).bind fun doc => storeSession doc ⟨0, 0, ""⟩

/-- `hex.EncodeToString`. -/
def hexString (bytes : Bytes) : String :=
  String.ofList (bytes.flatMap fun byte =>
    [(byte.toNat / 16).digitChar, (byte.toNat % 16).digitChar])

/-- The session that `IssueCookie` makes; the random bytes are those of its CSRF token. -/
def newSession (random : Bytes) (now : ℤ) : Session where
  exp := unix (now + sessionTTL)
  v := 2
  csrf := hexString random

/-- The value of the cookie. -/
def signedValue (mac : Mac) (secret payload : Bytes) : Bytes :=
  rawURLEncode payload ++ 0x2e :: rawURLEncode (mac secret payload)

/-- `IssueCookie`. -/
def issueCookie (mac : Mac) (secret random : Bytes) (now : ℤ) : Bytes :=
  signedValue mac secret (newSession random now).marshal

/-- The payload and the signature of a cookie. -/
def openCookie (cookie : Bytes) : Option (Bytes × Bytes) :=
  match cookie.splitOn 0x2e with
  | [first, second] =>
      (rawURLDecode first).bind fun payload =>
        (rawURLDecode second).map fun signature => (payload, signature)
  | _ => none

/-- A session that has not expired. -/
def Session.valid (session : Session) (now : ℤ) : Bool :=
  !(session.v ≠ 2 || session.csrf = "" || unix now ≥ session.exp)

/-- `parseSession`. -/
def parseSession (mac : Mac) (secret : Bytes) (now : ℤ) (cookie : Option Bytes) : Option Session :=
  (cookie.bind openCookie).bind fun opened =>
    if mac secret opened.1 ≠ opened.2 then none
    else (unmarshalSession opened.1).filter (·.valid now)

/-- `ValidSession`. -/
def validSession (mac : Mac) (secret : Bytes) (now : ℤ) (cookie : Option Bytes) : Bool :=
  (parseSession mac secret now cookie).isSome

/-- `ValidCSRF`. -/
def validCSRF (mac : Mac) (secret : Bytes) (now : ℤ) (cookie : Option Bytes) (tok : String) : Bool :=
  let want := ((parseSession mac secret now cookie).map (·.csrf)).getD ""
  if want = "" ∨ tok = "" then false
  else if (bytesOf want).length ≠ (bytesOf tok).length then false
  else bytesOf want = bytesOf tok

section Reading

variable {session : Session} {mac : Mac} {secret random payload : Bytes} {now : ℤ}

/-- The numbers of a session fit in 64 bits. -/
def Session.InRange (session : Session) : Prop :=
  (-2 ^ 63 ≤ session.exp ∧ session.exp < 2 ^ 63) ∧ -2 ^ 63 ≤ session.v ∧ session.v < 2 ^ 63

theorem Session.smallNames : SmallNames session.fields := by
  have names : ∀ name ∈ ["exp", "v", "csrf"], SmallName name := by decide
  intro field inside
  exact names field.1 (List.mem_map_of_mem (f := Prod.fst) inside)

/-- A session is read as it was written. -/
theorem unmarshalSession_marshal (inRange : session.InRange) :
    unmarshalSession session.marshal = some session := by
  have readable : Readable maxNestingDepth (.object (membersOf session.fields)) := by
    apply @readable_membersOf session.fields 9999 Session.smallNames
    intro field inside
    simp only [Session.fields, List.mem_cons, List.not_mem_nil, or_false] at inside
    rcases inside with rfl | rfl | rfl
    · exact readable_intField _ _
    · exact readable_intField _ _
    · exact readable_textField _ _
  have exp := valuesOf_membersOf "exp" (by decide) session.smallNames
  have v := valuesOf_membersOf "v" (by decide) session.smallNames
  have csrf := valuesOf_membersOf "csrf" (by decide) session.smallNames
  rw [unmarshalSession, Session.marshal, parseDoc_print readable, Option.bind_some, storeSession,
    storeStruct, storeField_intField inRange.1.1 inRange.1.2 exp,
    storeField_intField inRange.2.1 inRange.2.2 v, storeField_textField csrf]
  rfl

theorem openCookie_signedValue :
    openCookie (signedValue mac secret payload) = some (payload, mac secret payload) := by
  have one {text : Bytes} (noDot : 0x2e ∉ text) : text.splitOn 0x2e = [text] := by
    rw [← List.append_nil text, splitOn_append_left noDot]
    simp
  have parts : (signedValue mac secret payload).splitOn 0x2e =
      [rawURLEncode payload, rawURLEncode (mac secret payload)] := by
    rw [signedValue, List.splitOn_append_cons_self, one (dot_not_mem_rawURLEncode _),
      one (dot_not_mem_rawURLEncode _)]
    rfl
  rw [openCookie, parts]
  simp only [rawURLDecode_encode, Option.bind_some, Option.map_some]

theorem parseSession_eq_some_iff {cookie : Option Bytes} :
    parseSession mac secret now cookie = some session ↔
      ∃ payload, cookie.bind openCookie = some (payload, mac secret payload) ∧
        unmarshalSession payload = some session ∧ session.valid now = true := by
  rw [parseSession, Option.bind_eq_some_iff]
  constructor
  · rintro ⟨⟨payload, signature⟩, opens, accepted⟩
    split at accepted
    · cases accepted
    · rename_i same
      rw [ne_eq, not_not] at same
      rw [Option.filter_eq_some_iff] at accepted
      exact ⟨payload, by rw [opens, same], accepted⟩
  · rintro ⟨payload, opens, reads, isValid⟩
    refine ⟨_, opens, ?_⟩
    rw [if_neg (by simp), Option.filter_eq_some_iff]
    exact ⟨reads, isValid⟩

/-- The token of the session, and no other text, is its CSRF token. -/
theorem validCSRF_eq_true_iff {cookie : Option Bytes} {tok : String} :
    validCSRF mac secret now cookie tok = true ↔
      ∃ session, parseSession mac secret now cookie = some session ∧ tok = session.csrf := by
  have notEmpty {session : Session}
      (parsed : parseSession mac secret now cookie = some session) : session.csrf ≠ "" := by
    rcases parseSession_eq_some_iff.mp parsed with ⟨payload, _, _, isValid⟩
    simp only [Session.valid, Bool.not_eq_true', Bool.or_eq_false_iff, decide_eq_false_iff_not]
      at isValid
    exact isValid.1.2
  rw [validCSRF]
  cases parsed : parseSession mac secret now cookie with
  | none => simp
  | some session =>
      have csrf := notEmpty parsed
      simp only [Option.map_some, Option.getD_some, Option.some_inj, exists_eq_left']
      by_cases same : tok = session.csrf
      · simp [same, csrf]
      · have differ : bytesOf session.csrf ≠ bytesOf tok := fun bytes =>
          same (bytesOf_injective bytes).symm
        simp [same, differ]

theorem hexString_ne_empty (some : random ≠ []) : hexString random ≠ "" := by
  cases random with
  | nil => exact absurd rfl some
  | cons byte rest =>
      intro isEmpty
      have chars := congrArg String.toList isEmpty
      simp [hexString] at chars

/-- A new session is valid until it expires. -/
theorem newSession_valid {made : ℤ} (some : random ≠ []) :
    (newSession random made).valid now = true ↔ unix now < unix (made + sessionTTL) := by
  simp [Session.valid, newSession, hexString_ne_empty some]

end Reading

end MikroLLM.Auth
