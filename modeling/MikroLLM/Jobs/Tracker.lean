import MikroLLM.Go.Convert
import MikroLLM.Go.Unmarshal

/-!
# The tracker of jobs

Package `jobs`: the downloads and loads of models that are running or were the
last to run. The random ids of the source are numbers that are given out once.
What the tracker saves it reads only at the next start, and that is left out.
-/

namespace MikroLLM.Jobs

open Go

abbrev JobID := ℕ

/-- The values of `Job.Status`. -/
inductive Status
  | running
  | done
  | error
  deriving DecidableEq, Repr

/-- `domain.Job`. -/
structure Job where
  id : JobID
  kind : String
  backendID : ℕ
  backend : String
  model : String
  status : Status
  percent : ℤ
  message : Bytes
  error : Bytes
  log : Bytes
  deriving DecidableEq, Repr

/-- What the conversion of a `float64` to an integer gives where the number is out of range or
infinite, which is up to the processor. -/
structure Conversions where
  outside : Double → ℤ
  infinite : Bool → ℤ

/-- The conversions of an x86 processor. -/
def x86 : Conversions where
  outside := leastInt64
  infinite _ := -2 ^ 63

/-- `starting`. -/
def starting (kind : String) : Bytes :=
  if kind = "load" then bytesOf "загрузка в RAM…"
  else if kind = "pull" then bytesOf "скачивание…"
  else bytesOf "выполняется…"

/-- `tailLog`. -/
def tailLog (text : Bytes) (count : ℕ) : Bytes :=
  let trimmed := trimBytes text
  let parts := trimmed.splitOn 0x0a
  if trimmed = [] then [] else [0x0a].intercalate (parts.drop (parts.length - count))

/-- `appendLog`. -/
def appendLog (log line : Bytes) : Bytes :=
  tailLog (trimBytes (log ++ 0x0a :: line)) 4

/-- `json.Unmarshal` into a `map[string]any`. -/
def unmarshalMap (line : Bytes) : Option Fields :=
  (parseDoc maxNestingDepth line).bind mapOf

/-- A field as a `float64`, zero where it is none. -/
def floatAt (fields : Fields) (key : String) : Double :=
  match field fields key with
  | .number literal => (parseFloat literal).getD ⟨false, 0, 0⟩
  | _ => ⟨false, 0, 0⟩

section Lines

variable (conversions : Conversions)

/-- The percentage of a progress line. -/
def percentOf (part whole : Double) : ℤ :=
  let percent :=
    match part.percent whole with
    | some quotient => quotient.toInt64 conversions.outside
    | none => conversions.infinite part.negative
  min (max percent 0) 100

/-- `status` of a progress line. -/
def Job.readStatus (job : Job) (fields : Fields) : Job :=
  let status := stringAt fields "status"
  if status = "" then job
  else { job with
    message := bytesOf status
    percent := if status = "success" then 100 else job.percent }

/-- `error` of a progress line. -/
def Job.readError (job : Job) (fields : Fields) : Job :=
  let error := stringAt fields "error"
  if error = "" then job
  else { job with status := .error, error := bytesOf error, message := bytesOf error }

/-- `total` and `completed` of a progress line. -/
def Job.readTotal (job : Job) (fields : Fields) : Job :=
  let total := floatAt fields "total"
  if !total.negative && total.mantissa ≠ 0 then
    { job with percent := percentOf conversions (floatAt fields "completed") total }
  else job

/-- What a line of the stream changes. -/
def Job.readLine (job : Job) (line : Bytes) : Job :=
  let logged := { job with log := appendLog job.log line }
  match unmarshalMap line with
  | none => { logged with message := line }
  | some fields => ((logged.readStatus fields).readError fields).readTotal conversions fields

end Lines

/-- What `Fail` changes. -/
def Job.failWith (job : Job) (message : Bytes) : Job :=
  { job with
    status := .error, error := message, message := message, log := appendLog job.log message }

/-- What `Done` changes. -/
def Job.finished (job : Job) : Job :=
  { job with
    status := .done
    percent := 100
    message :=
      if job.message = [] ∨ job.message = starting job.kind then bytesOf "готово"
      else job.message }

/-- The jobs, the last one first; an id is given out once. -/
structure Tracker where
  jobs : List Job
  nextID : JobID
  ids_nodup : (jobs.map (·.id)).Nodup
  ids_lt : ∀ job ∈ jobs, job.id < nextID

namespace Tracker

variable (tracker : Tracker)

/-- The job with the id, changed. -/
def update (id : JobID) (change : Job → Job) (sameID : ∀ job, (change job).id = job.id) :
    Tracker :=
  have sameIDs : ∀ job : Job, (if job.id = id then change job else job).id = job.id := by
    intro job
    split
    · exact sameID job
    · rfl
  { jobs := tracker.jobs.map fun job => if job.id = id then change job else job
    nextID := tracker.nextID
    ids_nodup := by
      simpa only [List.map_map, Function.comp_def, sameIDs] using tracker.ids_nodup
    ids_lt := by
      intro job inside
      rcases List.mem_map.mp inside with ⟨old, oldInside, rfl⟩
      rw [sameIDs]
      exact tracker.ids_lt old oldInside }

/-- The jobs that `Begin` keeps: those that run, and others up to twelve. -/
def keep (jobs : List Job) : List Job :=
  jobs.foldl (fun kept job =>
    if job.status = .running ∨ kept.length < 12 then kept ++ [job] else kept) []

end Tracker

section Keeping

variable {jobs kept : List Job}

theorem keepFrom_sublist (jobs kept : List Job) :
    (jobs.foldl (fun kept job =>
      if job.status = .running ∨ kept.length < 12 then kept ++ [job] else kept) kept).Sublist
        (kept ++ jobs) := by
  induction jobs generalizing kept with
  | nil => simp
  | cons job rest ih =>
      rw [List.foldl_cons]
      refine (ih _).trans ?_
      split
      · simp
      · exact List.Sublist.append_left (List.sublist_cons_self job rest) kept

theorem keep_sublist (jobs : List Job) : (Tracker.keep jobs).Sublist jobs :=
  keepFrom_sublist jobs []

end Keeping

namespace Tracker

variable (tracker : Tracker)

/-- The job that `Begin` starts. -/
def newJob (kind : String) (backendID : ℕ) (backend model : String) : Job where
  id := tracker.nextID
  kind := kind
  backendID := backendID
  backend := backend
  model := model
  status := .running
  percent := 0
  message := starting kind
  error := []
  log := []

/-- `Tracker.Begin`: the new job, or the one that keeps its backend busy. -/
def begin (kind : String) (backendID : ℕ) (backend model : String) : Tracker × Except Job Job :=
  match tracker.jobs.find? fun job => job.status = .running && job.backendID = backendID with
  | some busy => (tracker, .error busy)
  | none =>
      let job := tracker.newJob kind backendID backend model
      let jobs := job :: tracker.jobs
      let kept := if jobs.length > 12 then keep jobs else jobs
      have isSublist : kept.Sublist jobs := by
        unfold kept
        split
        · exact keep_sublist jobs
        · exact List.Sublist.refl jobs
      have distinct : (jobs.map (·.id)).Nodup := by
        rw [List.map_cons, List.nodup_cons]
        refine ⟨?_, tracker.ids_nodup⟩
        intro inside
        rcases List.mem_map.mp inside with ⟨old, oldInside, isNext⟩
        exact absurd isNext (Nat.ne_of_lt (tracker.ids_lt old oldInside))
      ({ jobs := kept
         nextID := tracker.nextID + 1
         ids_nodup := distinct.sublist (isSublist.map _)
         ids_lt := by
           intro old inside
           rcases List.mem_cons.mp (isSublist.subset inside) with rfl | listed
           · exact Nat.lt_succ_self _
           · exact Nat.lt_succ_of_lt (tracker.ids_lt old listed) }, .ok job)

/-- `Tracker.applyLine`. -/
def applyLine (conversions : Conversions) (id : JobID) (line : Bytes) : Tracker :=
  tracker.update id (·.readLine conversions line) (by
    intro job
    simp only [Job.readLine, Job.readTotal, Job.readError, Job.readStatus]
    split
    · rfl
    · split_ifs <;> rfl)

/-- `Tracker.Fail`. -/
def fail (id : JobID) (message : Bytes) : Tracker :=
  tracker.update id (·.failWith message) fun _ => rfl

/-- `Tracker.Done`. -/
def done (id : JobID) : Tracker :=
  tracker.update id Job.finished fun _ => rfl

/-- `Tracker.SetMessage`. -/
def setMessage (id : JobID) (message : Bytes) : Tracker :=
  tracker.update id (fun job => { job with message := message }) fun _ => rfl

/-- The job with the id is one of those that `List` gives. -/
def Listed (id : JobID) : Prop :=
  ∃ job ∈ tracker.jobs, job.id = id

/-- The job is not given as anything but failed, with a reason. -/
def Failed (id : JobID) : Prop :=
  ∀ job ∈ tracker.jobs, job.id = id → job.status = .error ∧ job.error ≠ []

variable {tracker} {id other : JobID} {change : Job → Job} {message line : Bytes}

theorem mem_update {sameID : ∀ job, (change job).id = job.id} {job : Job} :
    job ∈ (tracker.update id change sameID).jobs ↔
      ∃ old ∈ tracker.jobs, (if old.id = id then change old else old) = job :=
  List.mem_map

/-- A change of another job. -/
theorem failed_update_other {sameID : ∀ job, (change job).id = job.id} (differs : other ≠ id)
    (failed : tracker.Failed id) : (tracker.update other change sameID).Failed id := by
  intro job inside isJob
  rcases mem_update.mp inside with ⟨old, oldInside, rfl⟩
  split at isJob
  · rename_i isOther
    rw [sameID, isOther] at isJob
    exact absurd isJob differs
  · rename_i notOther
    rw [if_neg notOther]
    exact failed old oldInside isJob

/-- A change of the job that leaves it failed, or makes it fail. -/
theorem failed_update_self {sameID : ∀ job, (change job).id = job.id}
    (fails : ∀ job ∈ tracker.jobs, job.id = id →
      (change job).status = .error ∧ (change job).error ≠ []) :
    (tracker.update id change sameID).Failed id := by
  intro job inside isJob
  rcases mem_update.mp inside with ⟨old, oldInside, rfl⟩
  split at isJob
  · rename_i isOld
    rw [if_pos isOld]
    exact fails old oldInside isOld
  · rename_i notOld
    exact absurd isJob notOld

theorem failed_begin {kind backend model : String} {backendID : ℕ} (given : id < tracker.nextID)
    (failed : tracker.Failed id) : (tracker.begin kind backendID backend model).1.Failed id := by
  rw [begin]
  split
  · exact failed
  · intro job inside isJob
    have listed : job ∈ tracker.newJob kind backendID backend model :: tracker.jobs := by
      simp only at inside
      split at inside
      · exact (keep_sublist _).subset inside
      · exact inside
    rcases List.mem_cons.mp listed with rfl | old
    · exact absurd isJob.symm (Nat.ne_of_lt given)
    · exact failed job old isJob

theorem nextID_begin {kind backend model : String} {backendID : ℕ} :
    tracker.nextID ≤ (tracker.begin kind backendID backend model).1.nextID := by
  rw [begin]
  split
  · exact le_rfl
  · exact Nat.le_succ _

/-- The text of a line's error. -/
def errorOf (line : Bytes) : String :=
  match unmarshalMap line with
  | none => ""
  | some fields => stringAt fields "error"

theorem bytesOf_ne_nil {text : String} (notEmpty : text ≠ "") : bytesOf text ≠ [] := by
  intro empty
  exact notEmpty (bytesOf_injective empty)

/-- A line with an error fails the job, and a failed job stays so with any line. -/
theorem failed_applyLine {conversions : Conversions}
    (fails : tracker.Failed id ∨ errorOf line ≠ "") :
    (tracker.applyLine conversions id line).Failed id := by
  apply failed_update_self
  intro job inside isJob
  simp only [Job.readLine]
  rw [errorOf] at fails
  cases parsed : unmarshalMap line with
  | none =>
      rw [parsed] at fails
      exact (fails.resolve_right fun differs => differs rfl) job inside isJob
  | some fields =>
      rw [parsed] at fails
      simp only [Job.readTotal, Job.readError, Job.readStatus]
      by_cases noError : stringAt fields "error" = ""
      · have failed := (fails.resolve_right fun differs => differs noError) job inside isJob
        split_ifs <;> exact failed
      · rw [if_neg noError]
        split_ifs <;> exact ⟨rfl, bytesOf_ne_nil noError⟩

/-- `Fail` leaves the job failed exactly when it gives a reason. -/
theorem failed_fail_iff : (tracker.fail id message).Failed id ↔
    message ≠ [] ∨ ¬tracker.Listed id := by
  constructor
  · intro failed
    by_cases listed : tracker.Listed id
    · rcases listed with ⟨job, inside, isJob⟩
      have isFailed := failed (job.failWith message)
        (mem_update.mpr ⟨job, inside, if_pos isJob⟩) isJob
      exact Or.inl isFailed.2
    · exact Or.inr listed
  · rintro (reason | unlisted)
    · exact failed_update_self fun _ _ _ => ⟨rfl, reason⟩
    · exact failed_update_self fun job inside isJob => absurd ⟨job, inside, isJob⟩ unlisted

/-- `Done` leaves no job failed. -/
theorem failed_done_iff : (tracker.done id).Failed id ↔ ¬tracker.Listed id := by
  constructor
  · rintro failed ⟨job, inside, isJob⟩
    have isFailed := failed job.finished (mem_update.mpr ⟨job, inside, if_pos isJob⟩) isJob
    exact nomatch isFailed.1
  · intro unlisted
    exact failed_update_self fun job inside isJob => absurd ⟨job, inside, isJob⟩ unlisted

end Tracker

end MikroLLM.Jobs
