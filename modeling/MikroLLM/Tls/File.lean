import Mathlib.Data.Int.Notation
import Mathlib.Logic.Function.Basic
import MikroLLM.Go.Text
import MikroLLM.Library.Runs

/-!
# Certificates from files

Every handshake looks at the times of the two files, and reads them again when a
time is not the one of the certificate in memory. Handshakes run side by side and
the files change meanwhile, so that each look at a file is a step of its own. A file
is replaced as a whole.
-/

namespace MikroLLM.Tls

open Library

universe u

/-- The bytes of a file. -/
abbrev Content := List UInt8

structure File where
  content : Content
  modTime : ℤ
  deriving DecidableEq

/-- Where a call of `GetCertificate` is. The call with number 0 is the one that `FileTLS`
makes of `reload`. -/
inductive Call (Certificate : Type u)
  | begin
  | statKey (modC : ℤ)
  | lock (modC modK : ℤ)
  | readCert (modC modK : ℤ)
  | readKey (modC modK : ℤ) (cert : Content)
  | reloaded
  | failed
  | served (cert : Certificate)
  | refused

/-- `fileCerts`, with the number of the call that holds `mu`. -/
structure FileCerts (Certificate : Type u) where
  mu : Option ℕ
  cert : Option Certificate
  mtC : ℤ
  mtK : ℤ

/-- The files, the shared certificate and all calls. The versions that the files have had
are kept for the account only. -/
structure State (Certificate : Type u) where
  certFile : Option File
  keyFile : Option File
  certs : FileCerts Certificate
  calls : ℕ → Call Certificate
  certVersions : List File
  keyVersions : List File

inductive Event
  | writeCert (file : Option File)
  | writeKey (file : Option File)
  | goOn (call : ℕ)

variable {Certificate : Type u}

def Call.ready : Call Certificate → Bool
  | .reloaded | .served _ => true
  | _ => false

namespace State

def start (certFile keyFile : Option File) : State Certificate where
  certFile
  keyFile
  certs := ⟨none, none, 0, 0⟩
  calls := fun _ => .begin
  certVersions := certFile.toList
  keyVersions := keyFile.toList

def put (state : State Certificate) (call : ℕ) (next : Call Certificate) : State Certificate :=
  { state with calls := Function.update state.calls call next }

def hold (state : State Certificate) (mu : Option ℕ) : State Certificate :=
  { state with certs := { state.certs with mu } }

/-- The last lines of `GetCertificate`. Without a certificate the handshake fails. -/
def answer (state : State Certificate) (call : ℕ) : Option (State Certificate) :=
  if state.certs.mu.isSome then none
  else
    match state.certs.cert with
    | some cert => some (state.put call (.served cert))
    | none => some (state.put call .refused)

/-- A call goes on. There is a configuration to shake hands with when `FileTLS` has read the
files once. -/
def goOn (x509KeyPair : Content → Content → Option Certificate) (state : State Certificate)
    (call : ℕ) : Option (State Certificate) :=
  match state.calls call with
  | .begin =>
      if call ≠ 0 && !(state.calls 0).ready then none
      else
        match state.certFile with
        | none => some (state.put call .failed)
        | some file => some (state.put call (.statKey file.modTime))
  | .statKey modC =>
      match state.keyFile with
      | none => some (state.put call .failed)
      | some file => some (state.put call (.lock modC file.modTime))
  | .lock modC modK =>
      if state.certs.mu.isSome then none
      else if state.certs.cert.isSome && modC = state.certs.mtC && modK = state.certs.mtK then
        some (state.put call .reloaded)
      else some ((state.hold (some call)).put call (.readCert modC modK))
  | .readCert modC modK =>
      match state.certFile with
      | none => some ((state.hold none).put call .failed)
      | some file => some (state.put call (.readKey modC modK file.content))
  | .readKey modC modK content =>
      match state.keyFile.bind fun file => x509KeyPair content file.content with
      | none => some ((state.hold none).put call .failed)
      | some cert =>
          some ({ state with certs := ⟨none, some cert, modC, modK⟩ }.put call .reloaded)
  | .reloaded | .failed => state.answer call
  | .served _ | .refused => none

end State

def step (x509KeyPair : Content → Content → Option Certificate) (state : State Certificate) :
    Event → Option (State Certificate)
  | .writeCert file =>
      some { state with certFile := file, certVersions := file.toList ++ state.certVersions }
  | .writeKey file =>
      some { state with keyFile := file, keyVersions := file.toList ++ state.keyVersions }
  | .goOn call => state.goOn x509KeyPair call

/-- What is written has a time that the file never had. -/
def Stamped (state : State Certificate) : Event → Prop
  | .writeCert file => ∀ new ∈ file, ∀ old ∈ state.certVersions, old.modTime ≠ new.modTime
  | .writeKey file => ∀ new ∈ file, ∀ old ∈ state.keyVersions, old.modTime ≠ new.modTime
  | .goOn _ => True

end MikroLLM.Tls
