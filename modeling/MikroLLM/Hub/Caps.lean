import Mathlib.Tactic.Common
import MikroLLM.Domain.Hub
import MikroLLM.Library.Counting
import MikroLLM.Library.Runs

/-!
# Job slots

`runJob`, `runMCP` and `runA2A` run each job between an `acquire` and a `release`
of its kind. A goroutine that finds no free slot is parked on the condition
variable, and each `release` wakes all that are. A client made by `New` always
has the condition variable.
-/

namespace MikroLLM.Hub.Caps

open Domain Library

/-- `HubCaps.For`. -/
def capFor (caps : HubCaps) (kind : String) : ℤ :=
  let caps := caps.norm
  if kind = "images" then caps.images
  else if kind = "videos" then caps.videos
  else if kind = "videos_status" ∨ kind = "videos_content" ∨ kind = "images_status" then
    if caps.chat < 8 then 8 else caps.chat
  else caps.chat

/-- The cap that `acquire` takes from what it reads, nothing when that fails. -/
def acquireCap (read : Option HubSettings) (kind : String) : ℤ :=
  match read with
  | some settings => capFor settings.caps kind
  | none => 4

/-- Where a goroutine stands in `acquire` or in `release`. -/
inductive Pc
  | absent
  | settings
  | lock
  | test
  | parked
  | woken
  | take
  | unlock
  | running
  | relock
  | drop
  | clamp
  | wake
  | leave
  | ended
  deriving DecidableEq

/-- A goroutine, with the kind of its job and the cap that it has read. -/
structure Runner where
  kind : String
  capn : ℤ
  pc : Pc

/-- The goroutines, how many there are, and what they share. -/
structure State where
  runners : ℕ → Runner
  next : ℕ
  lock : Option ℕ
  runN : String → ℤ

/-- A step of a goroutine. -/
inductive Action
  | start (kind : String)
  | read (g : ℕ) (settings : Option HubSettings)
  | lock (g : ℕ)
  | move (g : ℕ)

namespace State

variable (state : State) (g : ℕ)

/-- Go on to another place. -/
def go (pc : Pc) : State :=
  { state with runners := Function.update state.runners g { state.runners g with pc := pc } }

/-- `runCV.Broadcast`. -/
def broadcast : State :=
  { state with
    runners := fun h =>
      let runner := state.runners h
      if runner.pc = .parked then { runner with pc := .woken } else runner }

/-- One step of a goroutine that does not wait for the lock or for the store. -/
def advance : Option State :=
  let runner := state.runners g
  let count := state.runN runner.kind
  match runner.pc with
  | .test =>
      if runner.capn ≤ count then some { state.go g .parked with lock := none }
      else some (state.go g .take)
  | .take =>
      some { state.go g .unlock with runN := Function.update state.runN runner.kind (count + 1) }
  | .unlock => some { state.go g .running with lock := none }
  | .running => some (state.go g .relock)
  | .drop =>
      some { state.go g .clamp with runN := Function.update state.runN runner.kind (count - 1) }
  | .clamp =>
      some { state.go g .wake with
        runN := Function.update state.runN runner.kind (if count < 0 then 0 else count) }
  | .wake => some (state.broadcast.go g .leave)
  | .leave => some { state.go g .ended with lock := none }
  | _ => none

def step : Action → Option State
  | .start kind =>
      some { state with
        runners := Function.update state.runners state.next ⟨kind, 0, .settings⟩
        next := state.next + 1 }
  | .read g settings =>
      let runner := state.runners g
      if runner.pc = .settings then
        some { state with
          runners := Function.update state.runners g
            { runner with capn := acquireCap settings runner.kind, pc := .lock } }
      else none
  | .lock g =>
      if state.lock = none then
        match (state.runners g).pc with
        | .lock | .woken => some { state.go g .test with lock := some g }
        | .relock => some { state.go g .drop with lock := some g }
        | _ => none
      else none
  | .move g => state.advance g

/-- No goroutine has been started. -/
def initial : State where
  runners := fun _ => ⟨"", 0, .absent⟩
  next := 0
  lock := none
  runN := fun _ => 0

end State

/-- Between the increment and the decrement of a kind. -/
def Runner.holds (kind : String) (runner : Runner) : Bool :=
  runner.kind = kind &&
    match runner.pc with
    | .unlock | .running | .relock | .drop => true
    | _ => false

/-- Within `acquire` and not parked, or within `release`. -/
def Pc.pending : Pc → Bool
  | .absent | .parked | .running | .ended => false
  | _ => true

/-- A goroutine has taken back its slot and will wake the others. -/
def State.Releasing (state : State) : Prop :=
  ∃ h, state.lock = some h ∧ ((state.runners h).pc = .clamp ∨ (state.runners h).pc = .wake)

/-- What a goroutine can rely on, by where it stands. -/
def Facts (caps : String → ℤ) (lock : Option ℕ) (runN : String → ℤ) (releasing : Prop) (g : ℕ)
    (runner : Runner) : Prop :=
  match runner.pc with
  | .absent | .settings | .running | .relock | .ended => True
  | .lock | .woken => runner.capn = caps runner.kind
  | .test => runner.capn = caps runner.kind ∧ lock = some g
  | .take => lock = some g ∧ runN runner.kind < caps runner.kind
  | .parked =>
      runner.capn = caps runner.kind ∧ (caps runner.kind ≤ runN runner.kind ∨ releasing)
  | .unlock | .drop | .clamp | .wake | .leave => lock = some g

/-- The slots are counted, and who is parked finds none free or will be woken. -/
structure Inv (caps : String → ℤ) (state : State) : Prop where
  counted : ∀ kind, state.runN kind = countOf (Runner.holds kind) state.runners state.next
  capped : ∀ kind, state.runN kind ≤ caps kind
  facts : ∀ g, Facts caps state.lock state.runN state.Releasing g (state.runners g)
  started : ∀ g, (state.runners g).pc ≠ .absent → g < state.next

section Steps

variable {caps : String → ℤ} {state next : State} {g h : ℕ} {runner : Runner}
  {lock : Option ℕ} {runN : String → ℤ}

/-- A goroutine that does not step. -/
theorem Facts.frame {before after : Prop} (facts : Facts caps state.lock state.runN before h runner)
    (holder : state.lock = some h → lock = some h ∧ runN = state.runN)
    (parked : runner.pc = .parked → (caps runner.kind ≤ state.runN runner.kind ∨ before) →
      caps runner.kind ≤ runN runner.kind ∨ after) : Facts caps lock runN after h runner := by
  unfold Facts at facts ⊢
  cases place : runner.pc <;> simp only [place] at facts ⊢
  case lock => exact facts
  case test => exact ⟨facts.1, (holder facts.2).1⟩
  case parked => exact ⟨facts.1, parked place facts.2⟩
  case woken => exact facts
  case take =>
    rcases holder facts.1 with ⟨locked, same⟩
    exact ⟨locked, same ▸ facts.2⟩
  case unlock => exact (holder facts).1
  case drop => exact (holder facts).1
  case clamp => exact (holder facts).1
  case wake => exact (holder facts).1
  case leave => exact (holder facts).1

/-- The state after a goroutine has gone on. -/
def State.put (state : State) (g : ℕ) (runner : Runner) (lock : Option ℕ) (runN : String → ℤ) :
    State :=
  { state with runners := Function.update state.runners g runner, lock := lock, runN := runN }

@[simp]
theorem put_self : (state.put g runner lock runN).runners g = runner :=
  Function.update_self _ _ _

theorem put_other (differs : h ≠ g) :
    (state.put g runner lock runN).runners h = state.runners h :=
  Function.update_of_ne differs _ _

/-- What a step has to keep. -/
theorem Inv.put (inv : Inv caps state) (present : (state.runners g).pc ≠ .absent)
    (counted : ∀ kind, runN kind + (if (state.runners g).holds kind then 1 else 0) =
      state.runN kind + if runner.holds kind then 1 else 0)
    (capped : ∀ kind, runN kind ≤ caps kind)
    (own : Facts caps lock runN (state.put g runner lock runN).Releasing g runner)
    (others : ∀ h, h ≠ g → state.lock = some h → lock = some h ∧ runN = state.runN)
    (parked : ∀ h, (state.runners h).pc = .parked →
      (caps (state.runners h).kind ≤ state.runN (state.runners h).kind ∨ state.Releasing) →
        caps (state.runners h).kind ≤ runN (state.runners h).kind ∨
          (state.put g runner lock runN).Releasing) :
    Inv caps (state.put g runner lock runN) := by
  have below := inv.started g present
  constructor
  · intro kind
    have change := countOf_update (Runner.holds kind) state.runners runner below
    have before := inv.counted kind
    have step := counted kind
    change runN kind = countOf (Runner.holds kind) (Function.update state.runners g runner) state.next
    split_ifs at change step <;> omega
  · exact capped
  · intro h
    by_cases same : h = g
    · rw [same, put_self]
      exact own
    · rw [put_other same]
      exact (inv.facts h).frame (others h same) (parked h)
  · intro h somewhere
    by_cases same : h = g
    · rw [same]
      exact below
    · rw [put_other same] at somewhere
      exact inv.started h somewhere

/-- Who releases goes on to do so while others step. -/
theorem State.Releasing.put (releasing : state.Releasing)
    (other : (state.runners g).pc ≠ .clamp ∧ (state.runners g).pc ≠ .wake) :
    (state.put g runner state.lock runN).Releasing := by
  rcases releasing with ⟨h, locked, place⟩
  have differs : h ≠ g := by
    rintro rfl
    exact place.elim other.1 other.2
  refine ⟨h, locked, ?_⟩
  rwa [put_other differs]

theorem not_releasing (locked : state.lock = some g)
    (other : (state.runners g).pc ≠ .clamp ∧ (state.runners g).pc ≠ .wake) : ¬state.Releasing := by
  rintro ⟨h, alsoLocked, place⟩
  rw [locked, Option.some.injEq] at alsoLocked
  rw [← alsoLocked] at place
  exact place.elim other.1 other.2

theorem State.Releasing.of_put (place : runner.pc = .clamp ∨ runner.pc = .wake) :
    (state.put g runner (some g) runN).Releasing := by
  exact ⟨g, rfl, by rwa [put_self]⟩

theorem Inv.initial (positive : ∀ kind, 0 ≤ caps kind) : Inv caps State.initial := by
  constructor
  · intro kind
    rfl
  · exact positive
  · intro g
    trivial
  · intro g somewhere
    exact absurd rfl somewhere

/-- A new goroutine. -/
theorem Inv.start (inv : Inv caps state) (kind : String) :
    Inv caps { state with
      runners := Function.update state.runners state.next ⟨kind, 0, .settings⟩
      next := state.next + 1 } := by
  have isNew : (state.runners state.next).pc = .absent := by
    by_contra somewhere
    exact absurd (inv.started _ somewhere) (Nat.lt_irrefl _)
  constructor
  · intro other
    rw [inv.counted other, countOf_succ, countOf_update_of_le (le_refl _)]
    simp [Runner.holds]
  · exact inv.capped
  · intro h
    by_cases same : h = state.next
    · rw [same]
      simp only [Function.update_self]
      trivial
    · simp only [Function.update_of_ne same]
      apply (inv.facts h).frame fun locked => ⟨locked, rfl⟩
      rintro _ (enough | ⟨holder, locked, place⟩)
      · exact Or.inl enough
      · refine Or.inr ⟨holder, locked, ?_⟩
        have differs : holder ≠ state.next := by
          rintro rfl
          rw [isNew] at place
          rcases place with place | place <;> cases place
        simpa only [Function.update_of_ne differs] using place
  · intro h somewhere
    by_cases same : h = state.next
    · rw [same]
      exact Nat.lt_succ_self _
    · simp only [Function.update_of_ne same] at somewhere
      exact Nat.lt_succ_of_lt (inv.started h somewhere)

theorem Inv.broadcast (inv : Inv caps state) : Inv caps state.broadcast := by
  have same : ∀ h, (state.broadcast.runners h).kind = (state.runners h).kind ∧
      ∀ kind, (state.broadcast.runners h).holds kind = (state.runners h).holds kind := by
    intro h
    simp only [State.broadcast]
    split
    · rename_i parked
      exact ⟨rfl, fun kind => by simp [Runner.holds, parked]⟩
    · exact ⟨rfl, fun _ => rfl⟩
  constructor
  · intro kind
    have counts : countOf (Runner.holds kind) state.broadcast.runners state.next =
        countOf (Runner.holds kind) state.runners state.next := by
      apply count_congr
      intro k _
      rw [(same k).2]
    exact (inv.counted kind).trans (congrArg Nat.cast counts.symm)
  · exact inv.capped
  · intro h
    have facts := inv.facts h
    simp only [State.broadcast]
    split
    · rename_i parked
      rw [Facts, parked] at facts
      exact facts.1
    · apply facts.frame fun locked => ⟨locked, rfl⟩
      rename_i notParked
      exact fun parked => absurd parked notParked
  · intro h somewhere
    apply inv.started h
    intro isAbsent
    apply somewhere
    have notParked : (state.runners h).pc ≠ .parked := by simp [isAbsent]
    simpa only [State.broadcast, if_neg notParked] using isAbsent

theorem not_parked_broadcast : (state.broadcast.runners h).pc ≠ .parked := by
  simp only [State.broadcast]
  split
  · intro parked
    cases parked
  · rename_i notParked
    exact notParked

/-- A step in which no slot changes hands and nobody lets the lock go. -/
theorem Inv.stay (inv : Inv caps state) (runner : Runner) (present : (state.runners g).pc ≠ .absent)
    (holds : ∀ kind, runner.holds kind = (state.runners g).holds kind)
    (own : ∀ releasing, Facts caps lock state.runN releasing g runner)
    (free : state.lock = none ∧ lock = some g ∨ state.lock = lock)
    (other : (state.runners g).pc ≠ .clamp ∧ (state.runners g).pc ≠ .wake) :
    Inv caps (state.put g runner lock state.runN) := by
  apply inv.put present
  · intro kind
    rw [holds]
  · exact inv.capped
  · exact own _
  · intro h differs locked
    rcases free with ⟨isFree, _⟩ | same
    · rw [isFree] at locked
      cases locked
    · exact ⟨same ▸ locked, rfl⟩
  · rintro h _ (enough | releasing)
    · exact Or.inl enough
    · rcases free with ⟨isFree, _⟩ | same
      · rcases releasing with ⟨holder, locked, _⟩
        rw [isFree] at locked
        cases locked
      · rw [← same]
        exact Or.inr (releasing.put other)

/-- A step of the holder of the lock that does not wake others. -/
theorem Inv.hold (inv : Inv caps state) (runner : Runner) (runN : String → ℤ) (locked : state.lock = some g)
    (present : (state.runners g).pc ≠ .absent)
    (counted : ∀ kind, runN kind + (if (state.runners g).holds kind then 1 else 0) =
      state.runN kind + if runner.holds kind then 1 else 0)
    (capped : ∀ kind, runN kind ≤ caps kind)
    (own : ∀ releasing, Facts caps lock runN releasing g runner)
    (parked : (∀ kind, caps kind ≤ state.runN kind → caps kind ≤ runN kind) ∧
        (state.runners g).pc ≠ .clamp ∧ (state.runners g).pc ≠ .wake ∨
      lock = some g ∧ (runner.pc = .clamp ∨ runner.pc = .wake)) :
    Inv caps (state.put g runner lock runN) := by
  apply inv.put present counted capped (own _)
  · intro h differs alsoLocked
    rw [locked, Option.some.injEq] at alsoLocked
    exact absurd alsoLocked.symm differs
  · intro h _ enough
    rcases parked with ⟨more, other⟩ | ⟨stillLocked, place⟩
    · exact Or.inl (more _ (enough.resolve_right (not_releasing locked other)))
    · rw [stillLocked]
      exact Or.inr (State.Releasing.of_put place)

variable {reads : Option HubSettings}

theorem Inv.step_read (inv : Inv (acquireCap reads) state)
    (fires : state.step (.read g reads) = some next) : Inv (acquireCap reads) next := by
  simp only [State.step] at fires
  split at fires
  · rename_i place
    rw [← Option.some.inj fires]
    apply inv.stay
      { state.runners g with capn := acquireCap reads (state.runners g).kind, pc := .lock }
    · simp [place]
    · intro kind
      simp [Runner.holds, place]
    · intro releasing
      exact rfl
    · exact Or.inr rfl
    · simp [place]
  · cases fires

theorem Inv.step_lock (inv : Inv caps state) (fires : state.step (.lock g) = some next) :
    Inv caps next := by
  simp only [State.step] at fires
  split at fires
  · rename_i isFree
    have facts := inv.facts g
    have goesOn : ∀ pc, (state.runners g).pc ≠ .absent →
        (∀ kind, ({ state.runners g with pc := pc } : Runner).holds kind =
          (state.runners g).holds kind) →
        (∀ releasing, Facts caps (some g) state.runN releasing g { state.runners g with pc := pc }) →
        (state.runners g).pc ≠ .clamp ∧ (state.runners g).pc ≠ .wake →
        Inv caps { state.go g pc with lock := some g } := by
      intro pc present holds own other
      exact inv.stay { state.runners g with pc := pc } present holds own
        (Or.inl ⟨isFree, rfl⟩) other
    split at fires
    · rename_i place
      rw [← Option.some.inj fires]
      rw [Facts, place] at facts
      apply goesOn
      · simp [place]
      · simp [Runner.holds, place]
      · exact fun _ => ⟨facts, rfl⟩
      · simp [place]
    · rename_i place
      rw [← Option.some.inj fires]
      rw [Facts, place] at facts
      apply goesOn
      · simp [place]
      · simp [Runner.holds, place]
      · exact fun _ => ⟨facts, rfl⟩
      · simp [place]
    · rename_i place
      rw [← Option.some.inj fires]
      apply goesOn
      · simp [place]
      · simp [Runner.holds, place]
      · exact fun _ => rfl
      · simp [place]
    · cases fires
  · cases fires

/-- The holder of the lock goes on with it, or lets it go. -/
theorem Inv.step_move (inv : Inv caps state) (fires : state.advance g = some next) :
    Inv caps next := by
  have facts := inv.facts g
  cases place : (state.runners g).pc with
  | absent => simp [State.advance, place] at fires
  | settings => simp [State.advance, place] at fires
  | lock => simp [State.advance, place] at fires
  | parked => simp [State.advance, place] at fires
  | woken => simp [State.advance, place] at fires
  | relock => simp [State.advance, place] at fires
  | ended => simp [State.advance, place] at fires
  | test =>
      rw [Facts, place] at facts
      simp only [State.advance, place] at fires
      split at fires
      · rename_i full
        rw [← Option.some.inj fires]
        apply inv.hold { state.runners g with pc := .parked } state.runN facts.2
        · simp [place]
        · simp [Runner.holds, place]
        · exact inv.capped
        · exact fun _ => ⟨facts.1, Or.inl (facts.1 ▸ full)⟩
        · exact Or.inl ⟨fun _ more => more, by simp [place]⟩
      · rename_i room
        rw [← Option.some.inj fires]
        apply inv.hold { state.runners g with pc := .take } state.runN facts.2
        · simp [place]
        · simp [Runner.holds, place]
        · exact inv.capped
        · exact fun _ => ⟨facts.2, facts.1 ▸ not_le.mp room⟩
        · exact Or.inl ⟨fun _ more => more, by simp [place]⟩
  | take =>
      rw [Facts, place] at facts
      simp only [State.advance, place] at fires
      rw [← Option.some.inj fires]
      apply inv.hold { state.runners g with pc := .unlock } (Function.update state.runN (state.runners g).kind
        (state.runN (state.runners g).kind + 1)) facts.1
      · simp [place]
      · intro kind
        by_cases same : kind = (state.runners g).kind
        · simp [Runner.holds, place, same]
        · simp [Runner.holds, place, same, Ne.symm same]
      · intro kind
        by_cases same : kind = (state.runners g).kind
        · rw [same, Function.update_self]
          exact facts.2
        · rw [Function.update_of_ne same]
          exact inv.capped kind
      · exact fun _ => facts.1
      · refine Or.inl ⟨?_, by simp [place]⟩
        intro kind more
        by_cases same : kind = (state.runners g).kind
        · rw [same] at more ⊢
          rw [Function.update_self]
          omega
        · rwa [Function.update_of_ne same]
  | unlock =>
      rw [Facts, place] at facts
      simp only [State.advance, place] at fires
      rw [← Option.some.inj fires]
      apply inv.hold { state.runners g with pc := .running } state.runN facts
      · simp [place]
      · simp [Runner.holds, place]
      · exact inv.capped
      · exact fun _ => trivial
      · exact Or.inl ⟨fun _ more => more, by simp [place]⟩
  | running =>
      simp only [State.advance, place] at fires
      rw [← Option.some.inj fires]
      apply inv.stay { state.runners g with pc := .relock }
      · simp [place]
      · simp [Runner.holds, place]
      · exact fun _ => trivial
      · exact Or.inr rfl
      · simp [place]
  | drop =>
      rw [Facts, place] at facts
      simp only [State.advance, place] at fires
      rw [← Option.some.inj fires]
      apply inv.hold { state.runners g with pc := .clamp } (Function.update state.runN (state.runners g).kind
        (state.runN (state.runners g).kind - 1)) facts
      · simp [place]
      · intro kind
        by_cases same : kind = (state.runners g).kind
        · simp [Runner.holds, place, same]
        · simp [Runner.holds, place, same, Ne.symm same]
      · intro kind
        have small := inv.capped kind
        by_cases same : kind = (state.runners g).kind
        · rw [same, Function.update_self]
          rw [same] at small
          omega
        · rwa [Function.update_of_ne same]
      · exact fun _ => facts
      · exact Or.inr ⟨facts, Or.inl rfl⟩
  | clamp =>
      rw [Facts, place] at facts
      simp only [State.advance, place] at fires
      -- The counter is not negative, and the clamp changes nothing.
      have positive : ¬state.runN (state.runners g).kind < 0 := by
        rw [inv.counted]
        omega
      rw [if_neg positive, Function.update_eq_self] at fires
      rw [← Option.some.inj fires]
      apply inv.hold { state.runners g with pc := .wake } state.runN facts
      · simp [place]
      · simp [Runner.holds, place]
      · exact inv.capped
      · exact fun _ => facts
      · exact Or.inr ⟨facts, Or.inr rfl⟩
  | wake =>
      rw [Facts, place] at facts
      simp only [State.advance, place] at fires
      rw [← Option.some.inj fires]
      have same : state.broadcast.runners g = state.runners g := by
        simp [State.broadcast, place]
      apply inv.broadcast.put
      · simp [same, place]
      · intro kind
        rw [same]
        simp [Runner.holds, place]
      · exact inv.capped
      · exact facts
      · intro h differs alsoLocked
        exact ⟨alsoLocked, rfl⟩
      · exact fun h parked => absurd parked not_parked_broadcast
  | leave =>
      rw [Facts, place] at facts
      simp only [State.advance, place] at fires
      rw [← Option.some.inj fires]
      apply inv.hold { state.runners g with pc := .ended } state.runN facts
      · simp [place]
      · simp [Runner.holds, place]
      · exact inv.capped
      · exact fun _ => trivial
      · exact Or.inl ⟨fun _ more => more, by simp [place]⟩

end Steps

theorem capFor_pos (caps : HubCaps) (kind : String) : 0 < capFor caps kind := by
  simp only [capFor, HubCaps.norm, normCap]
  split_ifs <;> omega

theorem acquireCap_pos (reads : Option HubSettings) (kind : String) : 0 < acquireCap reads kind := by
  cases reads with
  | none => exact (by decide : (0 : ℤ) < 4)
  | some settings => exact capFor_pos settings.caps kind

/-- What is read of the settings is always the same. -/
def Action.Reads (reads : Option HubSettings) : Action → Prop
  | .read _ settings => settings = reads
  | _ => True

instance (reads : Option HubSettings) : (action : Action) → Decidable (action.Reads reads)
  | .read _ settings => inferInstanceAs (Decidable (settings = reads))
  | .start _ | .lock _ | .move _ => isTrue trivial

theorem Inv.step {reads : Option HubSettings} {state next : State} {action : Action}
    (inv : Inv (acquireCap reads) state) (same : action.Reads reads)
    (fires : state.step action = some next) : Inv (acquireCap reads) next := by
  cases action with
  | start kind =>
      rw [← Option.some.inj fires]
      exact inv.start kind
  | read g settings =>
      rw [Action.Reads] at same
      rw [same] at fires
      exact inv.step_read fires
  | lock g => exact inv.step_lock fires
  | move g => exact inv.step_move fires

/-- The settings do not change, and so in every state: the counter of a kind is the number of
goroutines that hold a slot of it, and it is at most the cap; when there is a slot and no goroutine
is about to go on in `acquire` or `release`, none is parked. -/
theorem slots_kept {reads : Option HubSettings} {actions : List Action} {state : State}
    (run : Run State.step (fun _ action => action.Reads reads) State.initial actions state)
    (kind : String) :
    state.runN kind = countOf (Runner.holds kind) state.runners state.next ∧
      0 ≤ state.runN kind ∧
      state.runN kind ≤ acquireCap reads kind ∧
      ((∀ g, (state.runners g).pc.pending = false) → state.runN kind < acquireCap reads kind →
        ∀ g, (state.runners g).kind = kind → (state.runners g).pc ≠ .parked) := by
  have inv : Inv (acquireCap reads) state :=
    run.invariant _ (Inv.initial fun kind => (acquireCap_pos reads kind).le) Inv.step
  refine ⟨inv.counted kind, ?_, inv.capped kind, ?_⟩
  · rw [inv.counted kind]
    exact Int.natCast_nonneg _
  · intro quiet room g isKind parked
    have facts := inv.facts g
    rw [Facts, parked] at facts
    rcases facts.2 with full | ⟨h, _, place⟩
    · rw [isKind] at full
      exact absurd room (not_lt.mpr full)
    · have calm := quiet h
      rcases place with place | place <;> simp [place, Pc.pending] at calm

/-- Settings with the default caps. -/
def defaults : HubSettings where
  enabled := true
  nodeID := "node-1"
  token := ""
  name := "mac-82"
  schedule := ⟨false, [], "", "", ""⟩
  caps := ⟨0, 0, 0⟩
  shareMCP := false
  shareA2A := false

/-- Two videos, of which the second is parked. -/
def twoVideos : List Action :=
  [.start "videos", .start "videos", .read 0 defaults, .read 1 defaults, .lock 0, .move 0, .move 0,
    .move 0, .lock 1, .move 1]

def afterTwoVideos : State :=
  (execWhen State.step (fun _ action => action.Reads defaults) State.initial twoVideos).getD
    State.initial

theorem slots_kept_twoVideos :
    (afterTwoVideos.runners 1).pc = .parked ∧ afterTwoVideos.runN "videos" ≤ 1 := by
  have executed : execWhen State.step (fun _ action => action.Reads defaults) State.initial
      twoVideos = some afterTwoVideos := rfl
  have run := (run_of_execWhen executed).mono fun _ _ same => of_decide_eq_true same
  exact ⟨rfl, (slots_kept run "videos").2.2.1⟩

end MikroLLM.Hub.Caps
