import MikroLLM.Go.Trim
import MikroLLM.Jobs.Pulling

/-!
# Progress lines

What a writer makes of a stream does not depend on how the stream is split into
writes. Each line that is not blank is applied once and in order, and the last
one also when no line feed ends it.
-/

namespace MikroLLM.Jobs

open Go Library

/-- Some lines, trimmed, but for the blank ones. -/
def trimLines (lines : List Bytes) : List Bytes :=
  (lines.map trimBytes).filter (· ≠ [])

/-- The lines of a stream, the last one also without a line feed. -/
def progressLines (stream : Bytes) : List Bytes :=
  trimLines (stream.splitOn 0x0a)

/-- The log of some lines: the last four of them. -/
def lastLines (lines : List Bytes) : Bytes :=
  [0x0a].intercalate (lines.drop (lines.length - 4))

/-- What `applyLine` takes: a line that is trimmed and has no line feed. -/
structure IsLine (line : Bytes) : Prop where
  trimmed : Trimmed line
  single : 0x0a ∉ line

section Calls

variable (conversions : Conversions)

/-- The lines change the job one by one. -/
def Job.readLines (job : Job) (lines : List Bytes) : Job :=
  lines.foldl (Job.readLine conversions) job

/-- The job, after the lines when it has the id. -/
def Job.readFor (id : JobID) (lines : List Bytes) (job : Job) : Job :=
  if job.id = id then job.readLines conversions lines else job

/-- `Writer.Write`, on the tracker and the buffer. -/
def write (id : JobID) (state : Tracker × Bytes) (chunk : Bytes) : Tracker × Bytes :=
  flush conversions id state.1 (state.2 ++ chunk) false

/-- `Writer.Close`. -/
def close (id : JobID) (state : Tracker × Bytes) : Tracker :=
  (flush conversions id state.1 state.2 true).1

/-- The tracker after a new writer wrote the chunks and was closed. -/
def Tracker.stream (tracker : Tracker) (id : JobID) (chunks : List Bytes) : Tracker :=
  close conversions id (chunks.foldl (write conversions id) (tracker, []))

end Calls

section Reading

variable {conversions : Conversions} {job : Job} {line : Bytes} {lines : List Bytes}

/-- A percentage within its bounds. -/
def Job.Within (job : Job) : Prop :=
  0 ≤ job.percent ∧ job.percent ≤ 100

theorem readStatus_same (job : Job) (fields : Fields) :
    (job.readStatus fields).id = job.id ∧ (job.readStatus fields).log = job.log := by
  simp only [Job.readStatus]
  by_cases noStatus : stringAt fields "status" = ""
  · simp only [if_pos noStatus, and_self]
  · simp only [if_neg noStatus, and_self]

theorem readError_same (job : Job) (fields : Fields) :
    (job.readError fields).id = job.id ∧ (job.readError fields).log = job.log := by
  simp only [Job.readError]
  by_cases noError : stringAt fields "error" = ""
  · simp only [if_pos noError, and_self]
  · simp only [if_neg noError, and_self]

theorem readTotal_same (job : Job) (fields : Fields) :
    (job.readTotal conversions fields).id = job.id ∧
      (job.readTotal conversions fields).log = job.log := by
  simp only [Job.readTotal]
  split
  · exact ⟨rfl, rfl⟩
  · exact ⟨rfl, rfl⟩

/-- A line changes no id, and it is added to the log. -/
theorem readLine_same (job : Job) (line : Bytes) :
    (job.readLine conversions line).id = job.id ∧
      (job.readLine conversions line).log = appendLog job.log line := by
  simp only [Job.readLine]
  cases parsed : unmarshalMap line with
  | none => simp only [and_self]
  | some fields =>
      simp only [readTotal_same, readError_same, readStatus_same, and_self]

theorem within_readStatus (fields : Fields) (within : job.Within) :
    (job.readStatus fields).Within := by
  simp only [Job.readStatus]
  by_cases noStatus : stringAt fields "status" = ""
  · rw [if_pos noStatus]
    exact within
  · rw [if_neg noStatus, Job.Within]
    by_cases success : stringAt fields "status" = "success"
    · simp [success]
    · simp only [if_neg success]
      exact within

theorem within_readError (fields : Fields) (within : job.Within) :
    (job.readError fields).Within := by
  simp only [Job.readError]
  by_cases noError : stringAt fields "error" = ""
  · rw [if_pos noError]
    exact within
  · rw [if_neg noError]
    exact within

theorem percentOf_within (part whole : Double) :
    0 ≤ percentOf conversions part whole ∧ percentOf conversions part whole ≤ 100 := by
  rw [percentOf]
  exact ⟨le_min (le_max_right _ _) (by decide), min_le_right _ _⟩

theorem within_readTotal (fields : Fields) (within : job.Within) :
    (job.readTotal conversions fields).Within := by
  simp only [Job.readTotal]
  split
  · exact percentOf_within _ _
  · exact within

theorem within_readLine (within : job.Within) : (job.readLine conversions line).Within := by
  have logged : ({ job with log := appendLog job.log line } : Job).Within := ⟨within.1, within.2⟩
  simp only [Job.readLine]
  cases parsed : unmarshalMap line with
  | none => exact ⟨within.1, within.2⟩
  | some fields =>
      apply within_readTotal
      apply within_readError
      exact within_readStatus fields logged

theorem id_readLines (job : Job) (lines : List Bytes) :
    (job.readLines conversions lines).id = job.id := by
  induction lines generalizing job with
  | nil => rfl
  | cons line rest ih => exact (ih _).trans (readLine_same job line).1

/-- The lines keep the percentage within its bounds. -/
theorem within_readLines (within : job.Within) : (job.readLines conversions lines).Within := by
  induction lines generalizing job with
  | nil => exact within
  | cons line rest ih => exact ih (within_readLine within)

end Reading

section Logging

variable {conversions : Conversions} {job : Job} {line : Bytes} {lines : List Bytes}

theorem ne_nil_of_trimmed {text : Bytes} (trimmed : Trimmed text) : text ≠ [] := by
  rintro rfl
  rcases trimmed.front with ⟨first, rest, begins, _⟩
  exact nomatch begins

/-- Lines that are trimmed stay so when they are joined. -/
theorem trimmed_intercalate (areLines : ∀ line ∈ lines, IsLine line) (notEmpty : lines ≠ []) :
    Trimmed ([0x0a].intercalate lines) := by
  induction lines with
  | nil => exact absurd rfl notEmpty
  | cons first rest ih =>
      rw [List.forall_mem_cons] at areLines
      cases rest with
      | nil =>
          rw [List.intercalate_singleton]
          exact areLines.1.trimmed
      | cons second rest =>
          rw [List.intercalate_cons_cons, List.append_assoc, List.singleton_append]
          exact areLines.1.trimmed.join (ih areLines.2 (List.cons_ne_nil _ _))

/-- The tail of a log of lines. -/
theorem tailLog_intercalate (areLines : ∀ line ∈ lines, IsLine line) (notEmpty : lines ≠ []) :
    tailLog ([0x0a].intercalate lines) 4 = lastLines lines := by
  have trimmed := trimmed_intercalate areLines notEmpty
  have parts : ([0x0a].intercalate lines).splitOn 0x0a = lines :=
    List.splitOn_intercalate 0x0a (fun line inside => (areLines line inside).single) notEmpty
  rw [tailLog, trimBytes_of_trimmed trimmed, if_neg (ne_nil_of_trimmed trimmed), parts, lastLines]

theorem intercalate_concat {separator : Bytes} (notEmpty : lines ≠ []) (line : Bytes) :
    separator.intercalate (lines ++ [line]) =
      separator.intercalate lines ++ (separator ++ line) := by
  induction lines with
  | nil => exact absurd rfl notEmpty
  | cons first rest ih =>
      cases rest with
      | nil => simp [List.intercalate_cons_cons]
      | cons second rest =>
          have rests := ih (List.cons_ne_nil second rest)
          simp only [List.cons_append, List.intercalate_cons_cons] at rests ⊢
          rw [rests]
          simp only [List.append_assoc]

theorem trimBytes_feed (line : Bytes) : trimBytes (0x0a :: line) = trimBytes line := by
  have feed : runes (0x0a :: line) = .valid '\n' :: runes line := runes_ascii (by decide) line
  rw [trimBytes, trimBytes, feed, List.dropWhile_cons_of_pos (by decide)]

/-- A line is added behind the last four. -/
theorem appendLog_lastLines (areLines : ∀ line ∈ lines, IsLine line) (isLine : IsLine line) :
    appendLog (lastLines lines) line = lastLines (lines ++ [line]) := by
  have keptLines : ∀ kept ∈ lines.drop (lines.length - 4) ++ [line], IsLine kept := by
    rw [List.forall_mem_append, List.forall_mem_singleton]
    exact ⟨fun kept inside => areLines kept (List.mem_of_mem_drop inside), isLine⟩
  have notEmpty : lines.drop (lines.length - 4) ++ [line] ≠ [] := by
    simp
  have added : trimBytes (lastLines lines ++ 0x0a :: line) =
      [0x0a].intercalate (lines.drop (lines.length - 4) ++ [line]) := by
    cases kept : lines.drop (lines.length - 4) with
    | nil =>
        rw [lastLines, kept, List.nil_append, List.intercalate_singleton]
        exact (trimBytes_feed line).trans (trimBytes_of_trimmed isLine.trimmed)
    | cons first rest =>
        rw [kept] at keptLines notEmpty
        have joined : [0x0a].intercalate (first :: rest ++ [line]) =
            [0x0a].intercalate (first :: rest) ++ 0x0a :: line :=
          intercalate_concat (List.cons_ne_nil first rest) line
        rw [lastLines, kept, ← joined]
        exact trimBytes_of_trimmed (trimmed_intercalate keptLines notEmpty)
  rw [appendLog, added, tailLog_intercalate keptLines notEmpty, lastLines, lastLines,
    ← List.drop_append_of_le_length (Nat.sub_le _ _), List.drop_drop]
  congr 2
  simp only [List.length_append, List.length_drop, List.length_singleton]
  omega

/-- The log holds the last four of the lines before and those that were read. -/
theorem log_readLines {before : List Bytes} (areBefore : ∀ line ∈ before, IsLine line)
    (areLines : ∀ line ∈ lines, IsLine line) (logged : job.log = lastLines before) :
    (job.readLines conversions lines).log = lastLines (before ++ lines) := by
  induction lines generalizing job before with
  | nil =>
      rw [List.append_nil]
      exact logged
  | cons line rest ih =>
      rw [List.forall_mem_cons] at areLines
      have areBoth : ∀ other ∈ before ++ [line], IsLine other := by
        rw [List.forall_mem_append, List.forall_mem_singleton]
        exact ⟨areBefore, areLines.1⟩
      have loggedBoth : (job.readLine conversions line).log = lastLines (before ++ [line]) := by
        rw [(readLine_same job line).2, logged, appendLog_lastLines areBefore areLines.1]
      have rests := ih areBoth areLines.2 loggedBoth
      rwa [List.append_assoc, List.singleton_append] at rests

theorem isLine_of_mem {stream : Bytes} (inside : line ∈ progressLines stream) : IsLine line := by
  rw [progressLines, trimLines, List.mem_filter, List.mem_map] at inside
  rcases inside with ⟨⟨part, isPart, rfl⟩, notBlank⟩
  refine ⟨trimmed_trimBytes (of_decide_eq_true notBlank), ?_⟩
  intro feed
  rw [List.splitOn_eq_splitOnP] at isPart
  have noEnd := ends_of_mem_splitOnP isPart 0x0a ((isInfix_trimBytes part).subset feed)
  exact absurd noEnd (by decide)

end Logging

section Writing

variable {conversions : Conversions} {id : JobID} {tracker : Tracker}

theorem trimLines_append (before after : List Bytes) :
    trimLines (before ++ after) = trimLines before ++ trimLines after := by
  rw [trimLines, List.map_append, List.filter_append]
  rfl

/-- The lines of a stream, cut at its last line feed. -/
theorem progressLines_eq (stream : Bytes) :
    progressLines stream = trimLines (cutLines (· = 0x0a) stream).1 ++
      trimLines [(cutLines (· = 0x0a) stream).2] := by
  have cut : (cutLines (· = 0x0a) stream).1 ++ [(cutLines (· = 0x0a) stream).2] =
      stream.splitOn 0x0a := cutLines_eq_splitOnP stream
  rw [progressLines, ← cut, trimLines_append]

theorem readFor_readFor (before after : List Bytes) (job : Job) :
    (job.readFor conversions id before).readFor conversions id after =
      job.readFor conversions id (before ++ after) := by
  by_cases isJob : job.id = id
  · simp only [Job.readFor, if_pos isJob, id_readLines]
    exact List.foldl_append.symm
  · simp only [Job.readFor, if_neg isJob]

theorem jobs_applyTrimmed (line : Bytes) :
    (tracker.applyTrimmed conversions id line).jobs =
      tracker.jobs.map (Job.readFor conversions id (trimLines [line])) := by
  rw [Tracker.applyTrimmed]
  by_cases blank : trimBytes line = []
  · have noLine : trimLines [line] = [] := by
      simp [trimLines, blank]
    have same : Job.readFor conversions id [] = (fun job => job) := by
      funext job
      exact ite_self job
    rw [if_pos blank, noLine, same, List.map_id']
  · have oneLine : trimLines [line] = [trimBytes line] := by
      simp [trimLines, blank]
    rw [if_neg blank, oneLine]
    rfl

/-- Lines change the job with the id one by one, and no other. -/
theorem jobs_applyLines (lines : List Bytes) (tracker : Tracker) :
    (lines.foldl (Tracker.applyTrimmed conversions id) tracker).jobs =
      tracker.jobs.map (Job.readFor conversions id (trimLines lines)) := by
  induction lines generalizing tracker with
  | nil =>
      have same : Job.readFor conversions id (trimLines []) = (fun job => job) := by
        funext job
        exact ite_self job
      rw [same, List.map_id', List.foldl_nil]
  | cons line rest ih =>
      have splits : trimLines (line :: rest) = trimLines [line] ++ trimLines rest :=
        trimLines_append [line] rest
      rw [List.foldl_cons, ih, jobs_applyTrimmed, List.map_map, splits]
      apply List.map_congr_left
      intro job _
      exact readFor_readFor (trimLines [line]) (trimLines rest) job

/-- After part of a stream the buffer holds what is behind its last line feed, and the lines before
it were read. -/
structure Reads (conversions : Conversions) (id : JobID) (start : Tracker) (stream : Bytes)
    (state : Tracker × Bytes) : Prop where
  buffer : state.2 = (cutLines (· = 0x0a) stream).2
  jobs : state.1.jobs =
    start.jobs.map (Job.readFor conversions id (trimLines (cutLines (· = 0x0a) stream).1))

/-- One write. -/
theorem Reads.write {stream chunk : Bytes} {state : Tracker × Bytes}
    (reads : Reads conversions id tracker stream state) :
    Reads conversions id tracker (stream ++ chunk) (write conversions id state chunk) := by
  rw [Jobs.write, flush, reads.buffer]
  simp only [Bool.false_eq_true, false_and, if_false]
  constructor
  · rw [cutLines_append stream chunk]
  · rw [jobs_applyLines, reads.jobs, List.map_map, cutLines_append stream chunk, trimLines_append]
    apply List.map_congr_left
    intro job _
    exact readFor_readFor _ _ job

/-- All writes. -/
theorem Reads.writes {stream : Bytes} {state : Tracker × Bytes} (chunks : List Bytes)
    (reads : Reads conversions id tracker stream state) :
    Reads conversions id tracker (stream ++ chunks.flatten)
      (chunks.foldl (Jobs.write conversions id) state) := by
  induction chunks generalizing stream state with
  | nil =>
      rw [List.flatten_nil, List.append_nil]
      exact reads
  | cons chunk rest ih =>
      rw [List.flatten_cons, ← List.append_assoc]
      exact ih reads.write

/-- After `Close` what is behind the last line feed was read as well. -/
theorem Reads.close {stream : Bytes} {state : Tracker × Bytes}
    (reads : Reads conversions id tracker stream state) :
    (close conversions id state).jobs =
      tracker.jobs.map (Job.readFor conversions id (progressLines stream)) := by
  have rest : cutLines (· = 0x0a) state.2 = ([], state.2) := by
    rw [reads.buffer, cutLines_rest]
  have whole : trimLines (cutLines (· = 0x0a) stream).1 ++ trimLines [state.2] =
      progressLines stream := by
    rw [reads.buffer, progressLines_eq]
  rw [Jobs.close, flush, rest, List.foldl_nil]
  by_cases empty : state.2 = []
  · have noLine : trimLines [state.2] = [] := by
      rw [empty]
      decide
    rw [noLine, List.append_nil] at whole
    rw [if_neg fun both => both.2 empty, reads.jobs, whole]
  · rw [if_pos ⟨rfl, empty⟩, jobs_applyTrimmed, reads.jobs, List.map_map, ← whole]
    apply List.map_congr_left
    intro job _
    exact readFor_readFor _ _ job

end Writing

/-- Whatever the chunks of a stream, the job reads its lines once and in order, its percentage stays
within its bounds, and its log holds the last four lines. -/
theorem stream_reads (conversions : Conversions) (tracker : Tracker) (id : JobID)
    (chunks : List Bytes) :
    (tracker.stream conversions id chunks).jobs =
        tracker.jobs.map (Job.readFor conversions id (progressLines chunks.flatten)) ∧
      ∀ job ∈ tracker.jobs,
        (job.Within → ∀ read, read <+: progressLines chunks.flatten →
          (job.readLines conversions read).Within) ∧
        ∀ before, (∀ line ∈ before, IsLine line) → job.log = lastLines before →
          (job.readLines conversions (progressLines chunks.flatten)).log =
            lastLines (before ++ progressLines chunks.flatten) := by
  refine ⟨?_, ?_⟩
  · have start : Reads conversions id tracker [] (tracker, []) := by
      constructor
      · rfl
      · exact jobs_applyLines [] tracker
    have reads := start.writes chunks
    rw [List.nil_append] at reads
    exact reads.close
  · intro job _
    refine ⟨fun within read _ => within_readLines within, ?_⟩
    intro before areLines logged
    exact log_readLines areLines (fun line inside => isLine_of_mem inside) logged

/-- A status line in two chunks, a blank line, and a text without a line feed. -/
def pullingChunks : List Bytes :=
  [bytesOf "\x7b\"status\":\"pull", bytesOf "ing\"\x7d\n \n", bytesOf "retry"]

/-- The running download logs two lines. -/
theorem stream_reads_pulling :
    (pulling.stream x86 0 pullingChunks).jobs.map (·.log) =
      [bytesOf "\x7b\"status\":\"pulling\"\x7d\nretry"] := by
  have reads := stream_reads x86 pulling 0 pullingChunks
  rw [reads.1]
  have logs := (reads.2 _ List.mem_cons_self).2 [] (by simp) rfl
  have isLog : lastLines ([] ++ progressLines pullingChunks.flatten) =
      bytesOf "\x7b\"status\":\"pulling\"\x7d\nretry" := by
    decide
  rw [isLog] at logs
  exact congrArg (fun log => [log]) logs

section Sharing

variable {conversions : Conversions} {id : JobID} {tracker : Tracker}

/-- A change of another job leaves the job. -/
theorem mem_of_update {other : JobID} {change : Job → Job}
    {sameID : ∀ job, (change job).id = job.id} (differs : other ≠ id) {job : Job}
    (inside : job ∈ (tracker.update other change sameID).jobs) (isJob : job.id = id) :
    job ∈ tracker.jobs := by
  rcases Tracker.mem_update.mp inside with ⟨old, listed, rfl⟩
  by_cases isOther : old.id = other
  · rw [if_pos isOther, sameID] at isJob
    exact absurd (isOther.symm.trans isJob) differs
  · rw [if_neg isOther]
    exact listed

theorem mem_of_begin {kind backend model : String} {backendID : ℕ} (given : id < tracker.nextID)
    {job : Job} (inside : job ∈ (tracker.begin kind backendID backend model).1.jobs)
    (isJob : job.id = id) : job ∈ tracker.jobs := by
  rw [Tracker.begin] at inside
  split at inside
  · exact inside
  · have listed : job ∈ tracker.newJob kind backendID backend model :: tracker.jobs := by
      simp only at inside
      split at inside
      · exact (keep_sublist _).subset inside
      · exact inside
    rcases List.mem_cons.mp listed with rfl | old
    · exact absurd isJob.symm (Nat.ne_of_lt given)
    · exact old

/-- Others add no job with the id and leave the one that there is. -/
theorem mem_of_act {action : Foreign id} (given : id < tracker.nextID) {job : Job}
    (inside : job ∈ (tracker.act conversions action.1).jobs) (isJob : job.id = id) :
    job ∈ tracker.jobs := by
  rcases action with ⟨action, foreign⟩
  cases action with
  | begin kind backendID backend model => exact mem_of_begin given inside isJob
  | applyLine other line =>
      rw [Tracker.act, Tracker.applyLine] at inside
      exact mem_of_update (fun same => foreign (congrArg some same)) inside isJob
  | setMessage other message =>
      rw [Tracker.act, Tracker.setMessage] at inside
      exact mem_of_update (fun same => foreign (congrArg some same)) inside isJob
  | fail other message =>
      rw [Tracker.act, Tracker.fail] at inside
      exact mem_of_update (fun same => foreign (congrArg some same)) inside isJob
  | done other =>
      rw [Tracker.act, Tracker.done] at inside
      exact mem_of_update (fun same => foreign (congrArg some same)) inside isJob

theorem mem_of_others {actions : List (Foreign id)} (given : id < tracker.nextID) {job : Job}
    (inside : job ∈ (tracker.others conversions actions).jobs) (isJob : job.id = id) :
    job ∈ tracker.jobs := by
  induction actions generalizing tracker with
  | nil => exact inside
  | cons action rest ih =>
      have earlier := ih (lt_of_lt_of_le given (nextID_act action.1)) inside
      exact mem_of_act given earlier isJob

/-- As `Reads`, of the jobs with the id, when others call the tracker as well. -/
structure Shares (conversions : Conversions) (id : JobID) (start : Tracker) (stream : Bytes)
    (state : Tracker × Bytes) : Prop where
  given : id < state.1.nextID
  buffer : state.2 = (cutLines (· = 0x0a) stream).2
  reads : ∀ job ∈ state.1.jobs, job.id = id → ∃ old ∈ start.jobs, old.id = id ∧
    job = old.readLines conversions (trimLines (cutLines (· = 0x0a) stream).1)

/-- Lines of the writer, after calls of others. -/
theorem Shares.lines {stream : Bytes} {state : Tracker × Bytes}
    (shares : Shares conversions id tracker stream state) (actions : List (Foreign id))
    (lines : List Bytes) :
    ∀ job ∈ (lines.foldl (Tracker.applyTrimmed conversions id)
        (state.1.others conversions actions)).jobs, job.id = id →
      ∃ old ∈ tracker.jobs, old.id = id ∧ job = old.readLines conversions
        (trimLines ((cutLines (· = 0x0a) stream).1 ++ lines)) := by
  intro job inside isJob
  rw [jobs_applyLines, List.mem_map] at inside
  rcases inside with ⟨between, listed, rfl⟩
  have isBetween : between.id = id := by
    by_contra differs
    rw [Job.readFor, if_neg differs] at isJob
    exact differs isJob
  rcases shares.reads between (mem_of_others shares.given listed isBetween) isBetween with
    ⟨old, started, isOld, rfl⟩
  refine ⟨old, started, isOld, ?_⟩
  rw [Job.readFor, if_pos isBetween, trimLines_append]
  exact List.foldl_append.symm

/-- One write, after calls of others. -/
theorem Shares.write {stream chunk : Bytes} {state : Tracker × Bytes}
    (shares : Shares conversions id tracker stream state) (actions : List (Foreign id)) :
    Shares conversions id tracker (stream ++ chunk)
      (Jobs.write conversions id (state.1.others conversions actions, state.2) chunk) := by
  rw [Jobs.write, flush, shares.buffer]
  simp only [Bool.false_eq_true, false_and, if_false]
  refine ⟨?_, ?_, ?_⟩
  · rw [nextID_applyLines]
    exact lt_of_lt_of_le shares.given (nextID_others actions state.1)
  · rw [cutLines_append stream chunk]
  · rw [cutLines_append stream chunk]
    exact shares.lines actions _

theorem Shares.writes {stream : Bytes} {state : Tracker × Bytes}
    (writes : List (List (Foreign id) × Bytes))
    (shares : Shares conversions id tracker stream state) :
    Shares conversions id tracker (stream ++ (writes.map (·.2)).flatten)
      (writes.foldl (fun state write =>
        flush conversions id (state.1.others conversions write.1) (state.2 ++ write.2) false)
        state) := by
  induction writes generalizing stream state with
  | nil =>
      rw [List.map_nil, List.flatten_nil, List.append_nil]
      exact shares
  | cons write rest ih =>
      rw [List.map_cons, List.flatten_cons, ← List.append_assoc]
      exact ih (shares.write write.1)

/-- The job reads the lines of its download once and in order, whatever others call in between. -/
theorem Download.closed_reads (download : Download id) (given : id < tracker.nextID) :
    ∀ job ∈ (download.closed conversions tracker).jobs, job.id = id →
      ∃ old ∈ tracker.jobs, old.id = id ∧
        job = old.readLines conversions (progressLines download.stream) := by
  have start : Shares conversions id tracker [] (tracker, []) :=
    ⟨given, rfl, fun job inside isJob => ⟨job, inside, isJob, rfl⟩⟩
  have shares : Shares conversions id tracker download.stream
      (download.written conversions tracker) := start.writes download.writes
  intro job inside isJob
  rw [closed, flush, shares.buffer, cutLines_rest] at inside
  rw [progressLines_eq]
  by_cases empty : (cutLines (· = 0x0a) download.stream).2 = []
  · rw [if_neg fun both => both.2 empty] at inside
    have noLine : trimLines [(cutLines (· = 0x0a) download.stream).2] = [] := by
      rw [empty]
      decide
    have reads := shares.lines download.beforeClose [] job inside isJob
    rw [List.append_nil] at reads
    rwa [noLine, List.append_nil]
  · rw [if_pos ⟨rfl, empty⟩] at inside
    rw [← trimLines_append]
    exact shares.lines download.beforeClose [_] job inside isJob

end Sharing

end MikroLLM.Jobs
