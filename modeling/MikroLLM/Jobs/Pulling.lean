import MikroLLM.Jobs.Tracker
import MikroLLM.Library.Lines

/-!
# Downloads

A download writes the progress lines of its host to the writer of its job, in
chunks, and its caller ends the job. Between any two of these calls the tracker
may be called for other jobs.
-/

namespace MikroLLM.Jobs

open Go Library

/-- A call of the tracker by someone else. -/
inductive Action
  | begin (kind : String) (backendID : ℕ) (backend model : String)
  | applyLine (id : JobID) (line : Bytes)
  | setMessage (id : JobID) (message : Bytes)
  | fail (id : JobID) (message : Bytes)
  | done (id : JobID)

/-- The job that a call is about. -/
def Action.target : Action → Option JobID
  | .begin _ _ _ _ => none
  | .applyLine id _ => some id
  | .setMessage id _ => some id
  | .fail id _ => some id
  | .done id => some id

/-- The calls that are not about a job. -/
abbrev Foreign (id : JobID) :=
  { action : Action // action.target ≠ some id }

/-- How the caller ends the job. -/
inductive Finish
  | done
  | fail (message : Bytes)
  deriving DecidableEq

/-- The end of the job after what `Pull` returned. -/
def Finish.ofError : Option Bytes → Finish
  | some message => .fail message
  | none => .done

section Calls

variable (conversions : Conversions)

/-- The tracker after a call. -/
def Tracker.act (tracker : Tracker) : Action → Tracker
  | .begin kind backendID backend model => (tracker.begin kind backendID backend model).1
  | .applyLine id line => tracker.applyLine conversions id line
  | .setMessage id message => tracker.setMessage id message
  | .fail id message => tracker.fail id message
  | .done id => tracker.done id

/-- The tracker after calls that are not about the job. -/
def Tracker.others {id : JobID} (tracker : Tracker) (actions : List (Foreign id)) : Tracker :=
  actions.foldl (fun tracker action => tracker.act conversions action.1) tracker

/-- The tracker after the job was ended. -/
def Tracker.finish (tracker : Tracker) (id : JobID) : Finish → Tracker
  | .done => tracker.done id
  | .fail message => tracker.fail id message

/-- A line of the writer, unless it is blank. -/
def Tracker.applyTrimmed (id : JobID) (tracker : Tracker) (line : Bytes) : Tracker :=
  if trimBytes line = [] then tracker else tracker.applyLine conversions id (trimBytes line)

/-- `Writer.flush`, on the tracker and the buffer. -/
def flush (id : JobID) (tracker : Tracker) (buffer : Bytes) (all : Bool) : Tracker × Bytes :=
  let cut := cutLines (· = 0x0a) buffer
  let applied := cut.1.foldl (Tracker.applyTrimmed conversions id) tracker
  if all ∧ cut.2 ≠ [] then (applied.applyTrimmed conversions id cut.2, []) else (applied, cut.2)

end Calls

/-- A download: what it writes, what others call before each write, before `Close` and before the
end, and the end. -/
structure Download (id : JobID) where
  writes : List (List (Foreign id) × Bytes)
  beforeClose : List (Foreign id)
  beforeFinish : List (Foreign id)
  finish : Finish

namespace Download

variable {id : JobID} (conversions : Conversions) (tracker : Tracker) (download : Download id)

/-- The stream that was written. -/
def stream : Bytes :=
  (download.writes.map (·.2)).flatten

/-- The tracker and the buffer after the writes. -/
def written : Tracker × Bytes :=
  download.writes.foldl (fun state write =>
    flush conversions id (state.1.others conversions write.1) (state.2 ++ write.2) false)
    (tracker, [])

/-- The tracker after `Close`. -/
def closed : Tracker :=
  let state := download.written conversions tracker
  (flush conversions id (state.1.others conversions download.beforeClose) state.2 true).1

/-- The tracker before the end of the job. -/
def unfinished : Tracker :=
  (download.closed conversions tracker).others conversions download.beforeFinish

/-- The tracker after the end of the job. -/
def last : Tracker :=
  (download.unfinished conversions tracker).finish id download.finish

end Download

/-- A progress line, or the last one without a line feed, is an object with an error. -/
def Announces (stream : Bytes) : Prop :=
  ∃ line ∈ (cutLines (· = 0x0a) stream).1 ++ [(cutLines (· = 0x0a) stream).2],
    Tracker.errorOf (trimBytes line) ≠ ""

instance (stream : Bytes) : Decidable (Announces stream) :=
  inferInstanceAs (Decidable (∃ line ∈ _, _))

section Keeping

variable {conversions : Conversions} {tracker : Tracker} {id : JobID}

theorem failed_act {action : Foreign id} (given : id < tracker.nextID)
    (failed : tracker.Failed id) : (tracker.act conversions action.1).Failed id := by
  rcases action with ⟨action, foreign⟩
  cases action with
  | begin kind backendID backend model => exact Tracker.failed_begin given failed
  | applyLine other line =>
      rw [Tracker.act, Tracker.applyLine]
      exact Tracker.failed_update_other (fun same => foreign (congrArg some same)) failed
  | setMessage other message =>
      rw [Tracker.act, Tracker.setMessage]
      exact Tracker.failed_update_other (fun same => foreign (congrArg some same)) failed
  | fail other message =>
      rw [Tracker.act, Tracker.fail]
      exact Tracker.failed_update_other (fun same => foreign (congrArg some same)) failed
  | done other =>
      rw [Tracker.act, Tracker.done]
      exact Tracker.failed_update_other (fun same => foreign (congrArg some same)) failed

theorem nextID_act (action : Action) :
    tracker.nextID ≤ (tracker.act conversions action).nextID := by
  cases action with
  | begin kind backendID backend model => exact Tracker.nextID_begin
  | applyLine other line => exact le_rfl
  | setMessage other message => exact le_rfl
  | fail other message => exact le_rfl
  | done other => exact le_rfl

/-- Others give out no id again. -/
theorem nextID_others (actions : List (Foreign id)) (tracker : Tracker) :
    tracker.nextID ≤ (tracker.others conversions actions).nextID := by
  induction actions generalizing tracker with
  | nil => exact le_rfl
  | cons action rest ih => exact (nextID_act action.1).trans (ih _)

/-- Others leave the job failed. -/
theorem failed_others {actions : List (Foreign id)} (given : id < tracker.nextID)
    (failed : tracker.Failed id) : (tracker.others conversions actions).Failed id := by
  induction actions generalizing tracker with
  | nil => exact failed
  | cons action rest ih =>
      exact ih (lt_of_lt_of_le given (nextID_act action.1)) (failed_act given failed)

/-- A line of the writer fails the job when it has an error, and leaves it failed. -/
theorem failed_applyTrimmed {line : Bytes}
    (fails : tracker.Failed id ∨ Tracker.errorOf (trimBytes line) ≠ "") :
    (tracker.applyTrimmed conversions id line).Failed id := by
  rw [Tracker.applyTrimmed]
  split
  · rename_i blank
    have noError : Tracker.errorOf [] = "" := by decide
    rw [blank] at fails
    exact fails.resolve_right fun differs => differs noError
  · exact Tracker.failed_applyLine fails

theorem nextID_applyTrimmed (line : Bytes) :
    (tracker.applyTrimmed conversions id line).nextID = tracker.nextID := by
  rw [Tracker.applyTrimmed]
  split
  · rfl
  · rfl

/-- The lines fail the job when one of them has an error. -/
theorem failed_applyLines {lines : List Bytes}
    (fails : tracker.Failed id ∨ ∃ line ∈ lines, Tracker.errorOf (trimBytes line) ≠ "") :
    (lines.foldl (Tracker.applyTrimmed conversions id) tracker).Failed id := by
  induction lines generalizing tracker with
  | nil => exact fails.resolve_right fun ⟨_, inside, _⟩ => nomatch inside
  | cons line rest ih =>
      apply ih
      rcases fails with failed | ⟨announcing, inside, announces⟩
      · exact Or.inl (failed_applyTrimmed (Or.inl failed))
      · rcases List.mem_cons.mp inside with rfl | later
        · exact Or.inl (failed_applyTrimmed (Or.inr announces))
        · exact Or.inr ⟨announcing, later, announces⟩

theorem nextID_applyLines (lines : List Bytes) (tracker : Tracker) :
    (lines.foldl (Tracker.applyTrimmed conversions id) tracker).nextID = tracker.nextID := by
  induction lines generalizing tracker with
  | nil => rfl
  | cons line rest ih => exact (ih _).trans (nextID_applyTrimmed line)

end Keeping

section Writing

variable {conversions : Conversions} {id : JobID}

/-- After part of a stream the buffer holds what is behind its last line feed, and the job has
failed when one of its lines has an error. -/
structure Follows (id : JobID) (stream : Bytes) (state : Tracker × Bytes) : Prop where
  given : id < state.1.nextID
  buffer : state.2 = (cutLines (· = 0x0a) stream).2
  fails : (∃ line ∈ (cutLines (· = 0x0a) stream).1, Tracker.errorOf (trimBytes line) ≠ "") →
    state.1.Failed id

/-- One write, after calls of others. -/
theorem Follows.write {stream chunk : Bytes} {state : Tracker × Bytes}
    (follows : Follows id stream state) (actions : List (Foreign id)) :
    Follows id (stream ++ chunk) (flush conversions id (state.1.others conversions actions)
      (state.2 ++ chunk) false) := by
  have given : id < (state.1.others conversions actions).nextID :=
    lt_of_lt_of_le follows.given (nextID_others actions state.1)
  rw [flush, follows.buffer]
  refine ⟨?_, ?_, ?_⟩
  · simp only [Bool.false_eq_true, false_and, if_false]
    rw [nextID_applyLines]
    exact given
  · simp only [Bool.false_eq_true, false_and, if_false]
    rw [cutLines_append stream chunk]
  · simp only [Bool.false_eq_true, false_and, if_false]
    rw [cutLines_append]
    rintro ⟨line, inside, announces⟩
    apply failed_applyLines
    rcases List.mem_append.mp inside with before | now
    · exact Or.inl (failed_others follows.given (follows.fails ⟨line, before, announces⟩))
    · exact Or.inr ⟨line, now, announces⟩

/-- All writes, whatever the chunks. -/
theorem follows_writes (writes : List (List (Foreign id) × Bytes)) {stream : Bytes}
    {state : Tracker × Bytes} (follows : Follows id stream state) :
    Follows id (stream ++ (writes.map (·.2)).flatten)
      (writes.foldl (fun state write =>
        flush conversions id (state.1.others conversions write.1) (state.2 ++ write.2) false)
        state) := by
  induction writes generalizing stream state with
  | nil =>
      rw [List.map_nil, List.flatten_nil, List.append_nil]
      exact follows
  | cons write rest ih =>
      rw [List.map_cons, List.flatten_cons, ← List.append_assoc]
      exact ih (follows.write write.1)

variable {tracker : Tracker} {download : Download id}

theorem Download.follows (given : id < tracker.nextID) :
    Follows id download.stream (download.written conversions tracker) := by
  have start : Follows id [] (tracker, []) := by
    refine ⟨given, rfl, ?_⟩
    rintro ⟨line, inside, _⟩
    exact nomatch inside
  exact follows_writes download.writes start

/-- After `Close` the job has failed when its stream announces an error. -/
theorem Download.failed_closed (given : id < tracker.nextID)
    (announces : Announces download.stream) :
    (download.closed conversions tracker).Failed id := by
  have follows : Follows id download.stream (download.written conversions tracker) :=
    Download.follows given
  rcases announces with ⟨line, inside, hasError⟩
  simp only [closed, flush]
  rw [follows.buffer, cutLines_rest]
  rcases List.mem_append.mp inside with complete | unterminated
  · have failed : ((download.written conversions tracker).1.others conversions
        download.beforeClose).Failed id :=
      failed_others follows.given (follows.fails ⟨line, complete, hasError⟩)
    split
    · exact failed_applyTrimmed (Or.inl failed)
    · exact failed
  · rw [List.mem_singleton] at unterminated
    rw [← unterminated]
    have notEmpty : line ≠ [] := by
      rintro rfl
      exact hasError (by decide)
    simp only [ne_eq, notEmpty, not_false_eq_true, and_self, if_true]
    exact failed_applyTrimmed (Or.inr hasError)

theorem Download.failed_last_iff :
    (download.last conversions tracker).Failed id ↔
      (∃ message, download.finish = .fail message ∧ message ≠ []) ∨
        ¬(download.unfinished conversions tracker).Listed id := by
  rw [last]
  cases download.finish with
  | done => simp [Tracker.finish, Tracker.failed_done_iff]
  | fail message => simp [Tracker.finish, Tracker.failed_fail_iff]

end Writing

section Callers

/-- What comes of the request of `Client.Pull`: an error, or a response whose body arrives in
pieces and may break off with an error. -/
inductive Exchange
  | failed (error : Bytes)
  | answered (code : ℕ) (status : Bytes) (pieces : List Bytes) (broken : Option Bytes)

/-- `Client.Pull`: what is written, and the error. -/
def pull : Exchange → List Bytes × Option Bytes
  | .failed error => ([], some error)
  | .answered code status pieces broken =>
      if 400 ≤ code then
        ([], some (bytesOf "ollama pull " ++ status ++ bytesOf ": " ++
          trimBytes (pieces.flatten.take 4096)))
      else (pieces, broken)

/-- The goroutine of `toolHostAction`: it pulls, closes the writer and ends the job. -/
structure HostAction (id : JobID) (exchange : Exchange) where
  download : Download id
  writes : download.writes.map (·.2) = (pull exchange).1
  finish : download.finish = Finish.ofError (pull exchange).2

/-- The body of the response breaks off, with a reason. -/
def Exchange.Breaks : Exchange → Prop
  | .failed _ => False
  | .answered _ _ _ broken => ∃ reason, broken = some reason ∧ reason ≠ []

/-- A pull that announces an error stays failed exactly when its response breaks off as well, or
when the job was dropped from the list. -/
theorem HostAction.failed_last_iff {conversions : Conversions} {tracker : Tracker} {id : JobID}
    {exchange : Exchange} (action : HostAction id exchange)
    (announces : Announces action.download.stream) :
    (action.download.last conversions tracker).Failed id ↔
      exchange.Breaks ∨ ¬(action.download.unfinished conversions tracker).Listed id := by
  rcases action with ⟨download, writes, finish⟩
  rw [Download.failed_last_iff, finish]
  apply or_congr_left
  have silent : ∀ error, pull exchange ≠ ([], some error) := by
    intro error same
    have noStream : download.stream = [] := by
      rw [Download.stream, writes, same]
      rfl
    rw [noStream] at announces
    exact absurd announces (by decide)
  cases exchange with
  | failed error => exact absurd rfl (silent error)
  | answered code status pieces broken =>
      by_cases large : 400 ≤ code
      · exact absurd (if_pos large) (silent _)
      · rw [pull, if_neg large]
        cases broken with
        | none => simp [Finish.ofError, Exchange.Breaks]
        | some reason => simp [Finish.ofError, Exchange.Breaks]

/-- A tracker with one running download. -/
def pulling : Tracker where
  jobs := [⟨0, "pull", 1, "mac-82", "qwen:latest", .running, 0, starting "pull", [], []⟩]
  nextID := 1
  ids_nodup := by decide
  ids_lt := by decide

/-- The host answers 200 and says in the stream that there is no such model. -/
def missingModel : HostAction 0
    (.answered 200 (bytesOf "200 OK") [bytesOf "\x7b\"error\":\"file does not exist\"\x7d\n"] none) where
  download :=
    { writes := [([], bytesOf "\x7b\"error\":\"file does not exist\"\x7d\n")]
      beforeClose := []
      beforeFinish := []
      finish := .done }
  writes := rfl
  finish := rfl

end Callers

end MikroLLM.Jobs
