import Mathlib.Order.Basic
import MikroLLM.Tls.File

/-!
# Reloading

The time that is remembered with a certificate was read before the certificate
itself. If it is still the time of the file, then the file is still the one that
was read: a handshake may skip the reading and serves what is in the files
nonetheless.
-/

namespace MikroLLM.Tls

open Library

universe u

variable {Certificate : Type u} {x509KeyPair : Content → Content → Option Certificate}

/-- The call is between taking `mu` and giving it back. -/
def Call.inside : Call Certificate → Bool
  | .readCert _ _ | .readKey _ _ _ => true
  | _ => false

/-- A version had this time. -/
def Seen (versions : List File) (modTime : ℤ) : Prop :=
  ∃ file ∈ versions, file.modTime = modTime

/-- What a call has read is from a version of the file, and from the present one if the time
it saw is the present one. -/
def Call.Known (state : State Certificate) : Call Certificate → Prop
  | .statKey modC => Seen state.certVersions modC
  | .lock modC modK | .readCert modC modK =>
      Seen state.certVersions modC ∧ Seen state.keyVersions modK
  | .readKey modC modK content =>
      (Seen state.certVersions modC ∧ Seen state.keyVersions modK) ∧
        (∃ file ∈ state.certVersions, file.content = content) ∧
          ∀ file ∈ state.certFile, file.modTime = modC → file.content = content
  | _ => True

/-- The versions of a file differ in their times, and the last of them is the file. -/
structure Versions (file : Option File) (versions : List File) : Prop where
  present : ∀ now ∈ file, now ∈ versions
  apart : ∀ first ∈ versions, ∀ second ∈ versions,
    first.modTime = second.modTime → first = second

/-- The certificate is that of two versions of the files. -/
def Origin (x509KeyPair : Content → Content → Option Certificate) (state : State Certificate)
    (cert : Certificate) : Prop :=
  ∃ certFile ∈ state.certVersions, ∃ keyFile ∈ state.keyVersions,
    x509KeyPair certFile.content keyFile.content = some cert

/-- A certificate in memory is one of two versions, and of the present ones if the times that are
remembered are the present ones. -/
structure Loaded (x509KeyPair : Content → Content → Option Certificate)
    (state : State Certificate) (cert : Certificate) : Prop where
  mtC : Seen state.certVersions state.certs.mtC
  mtK : Seen state.keyVersions state.certs.mtK
  origin : Origin x509KeyPair state cert
  current : ∀ certFile ∈ state.certFile, ∀ keyFile ∈ state.keyFile,
    certFile.modTime = state.certs.mtC → keyFile.modTime = state.certs.mtK →
      x509KeyPair certFile.content keyFile.content = some cert

/-- What holds between any two steps. -/
structure Sound (x509KeyPair : Content → Content → Option Certificate)
    (state : State Certificate) : Prop where
  certVersions : Versions state.certFile state.certVersions
  keyVersions : Versions state.keyFile state.keyVersions
  known : ∀ call, (state.calls call).Known state
  loaded : ∀ cert, state.certs.cert = some cert → Loaded x509KeyPair state cert
  mutex : ∀ call, (state.calls call).inside = true ↔ state.certs.mu = some call
  configured : (state.calls 0).ready = true → state.certs.cert.isSome = true
  begun : ∀ call, call ≠ 0 → state.calls call = .begin ∨ (state.calls 0).ready = true
  accepted : ∀ call, call ≠ 0 → state.calls call ≠ .refused
  served : ∀ call cert, state.calls call = .served cert → Origin x509KeyPair state cert

/-- What a call can do: it goes on with `mu` as it was, takes `mu`, reads the first file, gives `mu`
back without a certificate, or stores a certificate. -/
inductive Goes (x509KeyPair : Content → Content → Option Certificate)
    (state : State Certificate) (call : ℕ) : State Certificate → Prop
  | pass (next : Call Certificate) (outside : (state.calls call).inside = false)
      (outsideNext : next.inside = false) (known : next.Known state)
      (begun : state.calls call = .begin → call = 0 ∨ (state.calls 0).ready = true)
      (ready : next.ready = true → state.certs.cert.isSome = true)
      (stays : (state.calls call).ready = true → next.ready = true)
      (refused : next = .refused → state.calls call ≠ .begin ∧ state.certs.cert = none)
      (served : ∀ cert, next = .served cert → state.certs.cert = some cert) :
      Goes x509KeyPair state call (state.put call next)
  | take (modC modK : ℤ) (stage : state.calls call = .lock modC modK)
      (free : state.certs.mu = none) :
      Goes x509KeyPair state call ((state.hold (some call)).put call (.readCert modC modK))
  | read (modC modK : ℤ) (file : File) (stage : state.calls call = .readCert modC modK)
      (present : state.certFile = some file) :
      Goes x509KeyPair state call (state.put call (.readKey modC modK file.content))
  | fail (stage : (state.calls call).inside = true) :
      Goes x509KeyPair state call ((state.hold none).put call .failed)
  | store (modC modK : ℤ) (content : Content) (keyFile : File) (cert : Certificate)
      (stage : state.calls call = .readKey modC modK content)
      (present : state.keyFile = some keyFile)
      (pair : x509KeyPair content keyFile.content = some cert) :
      Goes x509KeyPair state call
        ({ state with certs := ⟨none, some cert, modC, modK⟩ }.put call .reloaded)

section Stepping

variable {state next : State Certificate} {call other : ℕ} {file : Option File}

@[simp] theorem calls_put_self {stage : Call Certificate} :
    (state.put call stage).calls call = stage :=
  Function.update_self ..

theorem calls_put_other {stage : Call Certificate} (differs : other ≠ call) :
    (state.put call stage).calls other = state.calls other :=
  Function.update_of_ne differs ..

theorem goes_of_answer (outside : (state.calls call).inside = false)
    (notBegun : state.calls call ≠ .begin)
    (stays : (state.calls call).ready = true → state.certs.cert.isSome = true)
    (answers : state.answer call = some next) : Goes x509KeyPair state call next := by
  rw [State.answer] at answers
  split at answers
  · cases answers
  · split at answers
    · rename_i cert stored
      cases answers
      exact .pass _ outside rfl trivial (fun begins => absurd begins notBegun)
        (fun _ => by rw [stored]; rfl) (fun _ => rfl) (fun isRefused => by cases isRefused)
        (fun other isServed => by cases isServed; exact stored)
    · rename_i empty
      cases answers
      refine .pass _ outside rfl trivial (fun begins => absurd begins notBegun)
        (fun isReady => by cases isReady) (fun wasReady => ?_) (fun _ => ⟨notBegun, empty⟩)
        (fun other isServed => by cases isServed)
      have stored := stays wasReady
      rw [empty] at stored
      cases stored

theorem Sound.stored (sound : Sound x509KeyPair state)
    (isReady : (state.calls call).ready = true) : state.certs.cert.isSome = true := by
  by_cases first : call = 0
  · rw [first] at isReady
    exact sound.configured isReady
  · rcases sound.begun call first with begins | configured
    · rw [begins] at isReady
      cases isReady
    · exact sound.configured configured

/-- A step before `mu`. -/
theorem goes_of_early {stage : Call Certificate} (outside : (state.calls call).inside = false)
    (early : (state.calls call).ready = false) (known : stage.Known state)
    (begun : state.calls call = .begin → call = 0 ∨ (state.calls 0).ready = true)
    (outsideNext : stage.inside = false) (earlyNext : stage.ready = false)
    (notRefused : stage ≠ .refused) : Goes x509KeyPair state call (state.put call stage) := by
  refine .pass stage outside outsideNext known begun ?_ ?_ (fun isRefused => ?_) ?_
  · intro isReady
    rw [earlyNext] at isReady
    cases isReady
  · intro wasReady
    rw [early] at wasReady
    cases wasReady
  · exact absurd isRefused notRefused
  · intro cert isServed
    rw [isServed] at earlyNext
    cases earlyNext

/-- Every way in which a call goes on. -/
theorem goes_of_goOn (sound : Sound x509KeyPair state)
    (fires : state.goOn x509KeyPair call = some next) : Goes x509KeyPair state call next := by
  have known := sound.known call
  rw [State.goOn] at fires
  split at fires
  · rename_i stage
    have outside : (state.calls call).inside = false := by rw [stage]; rfl
    have early : (state.calls call).ready = false := by rw [stage]; rfl
    split at fires
    · cases fires
    · rename_i allowed
      have begun : call = 0 ∨ (state.calls 0).ready = true := by
        by_cases first : call = 0
        · exact Or.inl first
        · simpa [first] using allowed
      split at fires
      · cases fires
        exact goes_of_early outside early trivial (fun _ => begun) rfl rfl (by simp)
      · rename_i file present
        cases fires
        exact goes_of_early outside early ⟨file, sound.certVersions.present file present, rfl⟩
          (fun _ => begun) rfl rfl (by simp)
  · rename_i modC stage
    have outside : (state.calls call).inside = false := by rw [stage]; rfl
    have early : (state.calls call).ready = false := by rw [stage]; rfl
    have begun : state.calls call = .begin → call = 0 ∨ (state.calls 0).ready = true := by
      simp [stage]
    split at fires
    · cases fires
      exact goes_of_early outside early trivial begun rfl rfl (by simp)
    · rename_i file present
      cases fires
      rw [stage] at known
      exact goes_of_early outside early
        ⟨known, file, sound.keyVersions.present file present, rfl⟩ begun rfl rfl (by simp)
  · rename_i modC modK stage
    have outside : (state.calls call).inside = false := by rw [stage]; rfl
    have notBegun : state.calls call ≠ .begin := by rw [stage]; simp
    split at fires
    · cases fires
    · rename_i free
      split at fires
      · rename_i same
        simp only [Bool.and_eq_true] at same
        cases fires
        exact .pass _ outside rfl trivial (fun begins => absurd begins notBegun)
          (fun _ => same.1.1) (fun _ => rfl) (fun isRefused => by cases isRefused)
          (fun cert isServed => by cases isServed)
      · cases fires
        exact .take modC modK stage (Option.not_isSome_iff_eq_none.mp free)
  · rename_i modC modK stage
    split at fires
    · cases fires
      apply Goes.fail
      rw [stage]
      rfl
    · rename_i file present
      cases fires
      exact .read modC modK file stage present
  · rename_i modC modK content stage
    split at fires
    · cases fires
      apply Goes.fail
      rw [stage]
      rfl
    · rename_i cert pair
      cases fires
      rcases Option.bind_eq_some_iff.mp pair with ⟨keyFile, present, loads⟩
      exact .store modC modK content keyFile cert stage present loads
  · rename_i stage
    apply goes_of_answer ?_ ?_ sound.stored fires
    · rw [stage]
      rfl
    · rw [stage]
      simp
  · rename_i stage
    apply goes_of_answer ?_ ?_ sound.stored fires
    · rw [stage]
      rfl
    · rw [stage]
      simp
  · cases fires
  · cases fires

theorem Call.Known.frame {stage : Call Certificate} (known : stage.Known state)
    (certFile : next.certFile = state.certFile) (certVersions : next.certVersions = state.certVersions)
    (keyVersions : next.keyVersions = state.keyVersions) : stage.Known next := by
  have same : stage.Known next = stage.Known state := by
    cases stage <;> simp only [Call.Known, certFile, certVersions, keyVersions]
  rwa [same]

theorem files_of_goes (goes : Goes x509KeyPair state call next) :
    next.certFile = state.certFile ∧ next.keyFile = state.keyFile ∧
      next.certVersions = state.certVersions ∧ next.keyVersions = state.keyVersions := by
  cases goes <;> exact ⟨rfl, rfl, rfl, rfl⟩

/-- The other calls stay where they are. -/
theorem calls_of_goes (goes : Goes x509KeyPair state call next) (differs : other ≠ call) :
    next.calls other = state.calls other := by
  cases goes <;> exact calls_put_other differs

/-- What the call itself has read is known after its step. -/
theorem known_of_goes (sound : Sound x509KeyPair state)
    (goes : Goes x509KeyPair state call next) : (next.calls call).Known next := by
  have known := sound.known call
  rcases files_of_goes goes with ⟨certFile, _, certVersions, keyVersions⟩
  suffices atState : (next.calls call).Known state from
    atState.frame certFile certVersions keyVersions
  cases goes with
  | pass stage _ _ knownNext => rwa [calls_put_self]
  | take modC modK stage =>
      rw [stage] at known
      rw [calls_put_self]
      exact known
  | read modC modK file stage present =>
      rw [stage] at known
      rw [calls_put_self]
      refine ⟨known, ⟨file, sound.certVersions.present file present, rfl⟩, ?_⟩
      intro now isNow _
      rw [present, Option.mem_some] at isNow
      rw [isNow]
  | fail => rw [calls_put_self]; trivial
  | store => rw [calls_put_self]; trivial

/-- The certificate in memory stays, or what is stored has been loaded. -/
theorem loaded_of_goes (sound : Sound x509KeyPair state)
    (goes : Goes x509KeyPair state call next) {cert : Certificate}
    (stored : next.certs.cert = some cert) : Loaded x509KeyPair next cert := by
  cases goes with
  | pass | take | read | fail =>
      have loaded := sound.loaded cert stored
      exact ⟨loaded.mtC, loaded.mtK, loaded.origin, loaded.current⟩
  | store modC modK content keyFile stored' stage present pair =>
      have known := sound.known call
      rw [stage] at known
      rcases known with ⟨⟨seenC, seenK⟩, ⟨certFile, isVersion, same⟩, current⟩
      cases stored
      refine ⟨seenC, seenK, ?_, ?_⟩
      · rw [← same] at pair
        exact ⟨certFile, isVersion, keyFile, sound.keyVersions.present keyFile present, pair⟩
      · intro nowC isNowC nowK isNowK sameC _
        have isKey : nowK = keyFile := Option.some.inj (isNowK.symm.trans present)
        rw [current nowC isNowC sameC, isKey]
        exact pair

theorem mutex_of_goes (sound : Sound x509KeyPair state)
    (goes : Goes x509KeyPair state call next) :
    ∀ other, (next.calls other).inside = true ↔ next.certs.mu = some other := by
  have mutex := sound.mutex
  intro other
  by_cases same : other = call
  · subst same
    have here := mutex other
    cases goes with
    | pass stage outside outsideNext =>
        rw [calls_put_self, outsideNext, ← outside]
        exact here
    | take => simp [Call.inside, State.hold, State.put]
    | read modC modK file stage =>
        rw [stage] at here
        rw [calls_put_self]
        exact here
    | fail => simp [Call.inside, State.hold, State.put]
    | store => simp [Call.inside, State.put]
  · have there := mutex other
    rw [calls_of_goes goes same, there]
    have inside (held : (state.calls call).inside = true) : state.certs.mu ≠ some other := by
      rw [(mutex call).mp held]
      simpa using Ne.symm same
    cases goes with
    | pass | read => exact Iff.rfl
    | take modC modK stage free => simp [State.hold, State.put, free, Ne.symm same]
    | fail stage => simp [State.hold, State.put, inside stage]
    | store modC modK content keyFile cert stage =>
        have held := inside (by rw [stage]; rfl)
        simp [State.put, held]

theorem ready_of_inside {stage : Call Certificate} (inside : stage.inside = true) :
    stage.ready = false := by
  cases stage with
  | readCert | readKey => rfl
  | begin | statKey | lock | reloaded | failed | served | refused => cases inside

/-- What is ready stays ready, and then there is a certificate. -/
theorem ready_of_goes (sound : Sound x509KeyPair state)
    (goes : Goes x509KeyPair state call next) :
    ((state.calls 0).ready = true → (next.calls 0).ready = true) ∧
      ((next.calls 0).ready = true → next.certs.cert.isSome = true) := by
  have configured := sound.configured
  by_cases first : 0 = call
  · subst first
    cases goes with
    | pass stage outside outsideNext known begun ready stays =>
        rw [calls_put_self]
        exact ⟨stays, ready⟩
    | take modC modK stage =>
        rw [stage, calls_put_self]
        exact ⟨id, fun isReady => by cases isReady⟩
    | read modC modK file stage =>
        rw [stage, calls_put_self]
        exact ⟨id, fun isReady => by cases isReady⟩
    | fail stage =>
        rw [calls_put_self]
        refine ⟨fun wasReady => ?_, fun isReady => by cases isReady⟩
        rw [ready_of_inside stage] at wasReady
        cases wasReady
    | store => exact ⟨fun _ => rfl, fun _ => rfl⟩
  · rw [calls_of_goes goes first]
    refine ⟨id, fun isReady => ?_⟩
    have stored := configured isReady
    cases goes with
    | pass | take | read | fail => exact stored
    | store => rfl

theorem begun_of_goes (sound : Sound x509KeyPair state)
    (goes : Goes x509KeyPair state call next) :
    ∀ other, other ≠ 0 → next.calls other = .begin ∨ (next.calls 0).ready = true := by
  intro other notFirst
  have stays := (ready_of_goes sound goes).1
  by_cases same : other = call
  · subst same
    right
    apply stays
    have begun (reached : state.calls other ≠ .begin) : (state.calls 0).ready = true :=
      (sound.begun other notFirst).resolve_left reached
    cases goes with
    | pass stage outside outsideNext known allowed =>
        by_cases reached : state.calls other = .begin
        · exact (allowed reached).resolve_left notFirst
        · exact begun reached
    | take modC modK stage => exact begun (by rw [stage]; simp)
    | read modC modK file stage => exact begun (by rw [stage]; simp)
    | fail stage =>
        apply begun
        intro begins
        rw [begins] at stage
        cases stage
    | store modC modK content keyFile cert stage => exact begun (by rw [stage]; simp)
  · rw [calls_of_goes goes same]
    exact (sound.begun other notFirst).imp_right stays

theorem accepted_of_goes (sound : Sound x509KeyPair state)
    (goes : Goes x509KeyPair state call next) :
    ∀ other, other ≠ 0 → next.calls other ≠ .refused := by
  intro other notFirst
  by_cases same : other = call
  · subst same
    cases goes with
    | pass stage outside outsideNext known allowed ready stays refused =>
        rw [calls_put_self]
        intro isRefused
        rcases refused isRefused with ⟨notBegun, empty⟩
        have configured := (sound.begun other notFirst).resolve_left notBegun
        have stored := sound.configured configured
        rw [empty] at stored
        cases stored
    | take | read | fail | store => rw [calls_put_self]; simp
  · rw [calls_of_goes goes same]
    exact sound.accepted other notFirst

theorem Origin.mono {cert : Certificate} (origin : Origin x509KeyPair state cert)
    (certVersions : ∀ file ∈ state.certVersions, file ∈ next.certVersions)
    (keyVersions : ∀ file ∈ state.keyVersions, file ∈ next.keyVersions) :
    Origin x509KeyPair next cert := by
  rcases origin with ⟨certFile, isCert, keyFile, isKey, pair⟩
  exact ⟨certFile, certVersions certFile isCert, keyFile, keyVersions keyFile isKey, pair⟩

theorem served_of_goes (sound : Sound x509KeyPair state)
    (goes : Goes x509KeyPair state call next) :
    ∀ other cert, next.calls other = .served cert → Origin x509KeyPair next cert := by
  intro other cert isServed
  rcases files_of_goes goes with ⟨_, _, certVersions, keyVersions⟩
  suffices atState : Origin x509KeyPair state cert by
    rwa [Origin, certVersions, keyVersions]
  by_cases same : other = call
  · subst same
    cases goes with
    | pass stage outside outsideNext known allowed ready stays refused served =>
        rw [calls_put_self] at isServed
        exact (sound.loaded cert (served cert isServed)).origin
    | take | read | fail | store =>
        rw [calls_put_self] at isServed
        cases isServed
  · rw [calls_of_goes goes same] at isServed
    exact sound.served other cert isServed

theorem sound_of_goes (sound : Sound x509KeyPair state)
    (goes : Goes x509KeyPair state call next) : Sound x509KeyPair next := by
  rcases files_of_goes goes with ⟨certFile, keyFile, certVersions, keyVersions⟩
  refine ⟨?_, ?_, ?_, fun cert => loaded_of_goes sound goes, mutex_of_goes sound goes,
    (ready_of_goes sound goes).2, begun_of_goes sound goes, accepted_of_goes sound goes,
    served_of_goes sound goes⟩
  · rw [certFile, certVersions]
    exact sound.certVersions
  · rw [keyFile, keyVersions]
    exact sound.keyVersions
  · intro other
    by_cases same : other = call
    · rw [same]
      exact known_of_goes sound goes
    · rw [calls_of_goes goes same]
      exact (sound.known other).frame certFile certVersions keyVersions

end Stepping

section Writing

variable {state next : State Certificate} {file : Option File} {versions : List File}
  {event : Event} {modTime : ℤ}

theorem Versions.write {before : Option File} (known : Versions before versions)
    (stamped : ∀ new ∈ file, ∀ old ∈ versions, old.modTime ≠ new.modTime) :
    Versions file (file.toList ++ versions) := by
  cases file with
  | none =>
      refine ⟨?_, known.apart⟩
      intro now isNow
      cases isNow
  | some new =>
      have isNew := stamped new rfl
      refine ⟨?_, ?_⟩
      · intro now isNow
        rw [Option.mem_some] at isNow
        simp [isNow]
      · intro first isFirst second isSecond same
        rcases List.mem_cons.mp isFirst with rfl | old
        · rcases List.mem_cons.mp isSecond with rfl | older
          · rfl
          · exact absurd same.symm (isNew second older)
        · rcases List.mem_cons.mp isSecond with rfl | older
          · exact absurd same (isNew first old)
          · exact known.apart first old second older same

theorem Seen.write (seen : Seen versions modTime) : Seen (file.toList ++ versions) modTime := by
  rcases seen with ⟨old, isVersion, same⟩
  exact ⟨old, List.mem_append_right _ isVersion, same⟩

/-- A new version does not have a time that was seen before. -/
theorem Seen.not_new (seen : Seen versions modTime)
    (stamped : ∀ new ∈ file, ∀ old ∈ versions, old.modTime ≠ new.modTime) :
    ∀ new ∈ file, new.modTime ≠ modTime := by
  rcases seen with ⟨old, isVersion, rfl⟩
  exact fun new isNew same => stamped new isNew old isVersion same.symm

theorem sound_of_step (sound : Sound x509KeyPair state) (stamped : Stamped state event)
    (fires : step x509KeyPair state event = some next) : Sound x509KeyPair next := by
  have appended {file : Option File} {versions : List File} :
      ∀ old ∈ versions, old ∈ file.toList ++ versions :=
    fun old isVersion => List.mem_append_right _ isVersion
  cases event with
  | writeCert file =>
      cases fires
      refine ⟨sound.certVersions.write stamped, sound.keyVersions, ?_, ?_, sound.mutex,
        sound.configured, sound.begun, sound.accepted, ?_⟩
      · intro call
        have known := sound.known call
        change (state.calls call).Known _
        cases reached : state.calls call with
        | statKey modC =>
            rw [reached] at known
            exact Seen.write known
        | lock modC modK =>
            rw [reached] at known
            exact ⟨known.1.write, known.2⟩
        | readCert modC modK =>
            rw [reached] at known
            exact ⟨known.1.write, known.2⟩
        | readKey modC modK content =>
            rw [reached] at known
            rcases known with ⟨⟨seenC, seenK⟩, ⟨old, isVersion, same⟩, _⟩
            refine ⟨⟨seenC.write, seenK⟩, ⟨old, List.mem_append_right _ isVersion, same⟩, ?_⟩
            exact fun new isNew sameTime => absurd sameTime (seenC.not_new stamped new isNew)
        | begin | reloaded | failed | served | refused => trivial
      · intro cert stored
        have loaded := sound.loaded cert stored
        refine ⟨loaded.mtC.write, loaded.mtK, loaded.origin.mono appended fun _ => id, ?_⟩
        intro new isNew _ _ sameTime
        exact absurd sameTime (loaded.mtC.not_new stamped new isNew)
      · intro call cert isServed
        exact (sound.served call cert isServed).mono appended fun _ => id
  | writeKey file =>
      cases fires
      refine ⟨sound.certVersions, sound.keyVersions.write stamped, ?_, ?_, sound.mutex,
        sound.configured, sound.begun, sound.accepted, ?_⟩
      · intro call
        have known := sound.known call
        change (state.calls call).Known _
        cases reached : state.calls call with
        | statKey modC =>
            rw [reached] at known
            exact known
        | lock modC modK =>
            rw [reached] at known
            exact ⟨known.1, known.2.write⟩
        | readCert modC modK =>
            rw [reached] at known
            exact ⟨known.1, known.2.write⟩
        | readKey modC modK content =>
            rw [reached] at known
            exact ⟨⟨known.1.1, known.1.2.write⟩, known.2⟩
        | begin | reloaded | failed | served | refused => trivial
      · intro cert stored
        have loaded := sound.loaded cert stored
        refine ⟨loaded.mtC, loaded.mtK.write, loaded.origin.mono (fun _ => id) appended, ?_⟩
        intro _ _ new isNew _ sameTime
        exact absurd sameTime (loaded.mtK.not_new stamped new isNew)
      · intro call cert isServed
        exact (sound.served call cert isServed).mono (fun _ => id) appended
  | goOn call => exact sound_of_goes sound (goes_of_goOn sound fires)

theorem versions_toList : Versions file file.toList := by
  cases file with
  | none =>
      refine ⟨?_, fun first isFirst => absurd isFirst List.not_mem_nil⟩
      intro now isNow
      cases isNow
  | some only =>
      refine ⟨fun now isNow => by rw [Option.mem_some] at isNow; simp [isNow], ?_⟩
      intro first isFirst second isSecond _
      rw [Option.toList_some, List.mem_singleton] at isFirst isSecond
      rw [isFirst, isSecond]

theorem sound_start {certFile keyFile : Option File} :
    Sound x509KeyPair (State.start certFile keyFile) := by
  refine ⟨versions_toList, versions_toList, fun _ => trivial, ?_, ?_, ?_, ?_, ?_, ?_⟩
  · intro cert stored
    cases stored
  · intro call
    simp [State.start, Call.inside]
  · intro isReady
    cases isReady
  · exact fun _ _ => Or.inl rfl
  · intro call _ isRefused
    cases isRefused
  · intro call cert isServed
    cases isServed

theorem sound_run {certFile keyFile : Option File} {events : List Event}
    (run : Run (step x509KeyPair) Stamped (.start certFile keyFile) events state) :
    Sound x509KeyPair state :=
  run.invariant (Sound x509KeyPair) sound_start sound_of_step

end Writing

end MikroLLM.Tls
