import Mathlib.Data.List.Nodup
import MikroLLM.Jobs.Pulling

/-!
# One job for each backend

The tracker is called for any jobs in any order. Two jobs of one backend never run
at once, and the list holds all that run and the last few that ended.
-/

namespace MikroLLM.Jobs

open Go Library

/-- A call of the tracker or of one of its writers. Others may be called between two lines that a
writer hands over, and before the rest that `Close` hands over. -/
inductive Call
  | act (action : Action)
  | writer (id : JobID)
  | write (writer : ℕ) (chunk : Bytes)
  | line (writer : ℕ)
  | rest (writer : ℕ)

/-- The tracker, and the job and the buffer of each writer. -/
structure Calls where
  tracker : Tracker
  writers : List (JobID × Bytes)

/-- A tracker without a repository. -/
def Tracker.new : Tracker :=
  ⟨[], 0, List.nodup_nil, fun _ inside => absurd inside List.not_mem_nil⟩

namespace Tracker

/-- The jobs that run. -/
def running (jobs : List Job) : List Job :=
  jobs.filter (·.status = .running)

/-- The jobs that have ended. -/
def finished (jobs : List Job) : List Job :=
  jobs.filter (·.status ≠ .running)

end Tracker

section Calls

variable (conversions : Conversions)

/-- One call. -/
def Calls.step (calls : Calls) : Call → Calls
  | .act action => { calls with tracker := calls.tracker.act conversions action }
  | .writer id => { calls with writers := calls.writers ++ [(id, [])] }
  | .write n chunk =>
      { calls with writers := calls.writers.modify n fun writer => (writer.1, writer.2 ++ chunk) }
  | .line n =>
      match calls.writers[n]? with
      | none => calls
      | some writer =>
          match (cutLines (· = 0x0a) writer.2).1 with
          | [] => calls
          | line :: _ =>
              { tracker := calls.tracker.applyTrimmed conversions writer.1 line
                writers := calls.writers.set n (writer.1, writer.2.drop (line.length + 1)) }
  | .rest n =>
      match calls.writers[n]? with
      | none => calls
      | some writer =>
          if 0x0a ∈ writer.2 then calls
          else
            { tracker := calls.tracker.applyTrimmed conversions writer.1 writer.2
              writers := calls.writers.set n (writer.1, []) }

/-- The calls, one after the other, from a tracker without jobs. -/
def Calls.run (calls : List Call) : Calls :=
  calls.foldl (Calls.step conversions) ⟨Tracker.new, []⟩

end Calls

section Keeping

variable {job : Job} {jobs rest : List Job}

theorem running_cons (runs : job.status = .running) (rest : List Job) :
    Tracker.running (job :: rest) = job :: Tracker.running rest := by
  simp [Tracker.running, runs]

theorem running_cons_ended (ended : job.status ≠ .running) (rest : List Job) :
    Tracker.running (job :: rest) = Tracker.running rest := by
  simp [Tracker.running, ended]

theorem finished_cons (ended : job.status ≠ .running) (rest : List Job) :
    Tracker.finished (job :: rest) = job :: Tracker.finished rest := by
  simp [Tracker.finished, ended]

theorem finished_cons_running (runs : job.status = .running) (rest : List Job) :
    Tracker.finished (job :: rest) = Tracker.finished rest := by
  simp [Tracker.finished, runs]

/-- The jobs that `keep` adds when it has kept some. -/
def keptFrom (kept : ℕ) : List Job → List Job
  | [] => []
  | job :: rest =>
      if job.status = .running ∨ kept < 12 then job :: keptFrom (kept + 1) rest
      else keptFrom kept rest

theorem foldl_keptFrom (jobs kept : List Job) :
    (jobs.foldl (fun kept job =>
      if job.status = .running ∨ kept.length < 12 then kept ++ [job] else kept) kept) =
        kept ++ keptFrom kept.length jobs := by
  induction jobs generalizing kept with
  | nil => simp [keptFrom]
  | cons job rest ih =>
      rw [List.foldl_cons, ih, keptFrom]
      split
      · simp
      · rfl

theorem keep_eq (jobs : List Job) : Tracker.keep jobs = keptFrom 0 jobs :=
  foldl_keptFrom jobs []

/-- Every job that runs is kept. -/
theorem running_keptFrom (kept : ℕ) (jobs : List Job) :
    Tracker.running (keptFrom kept jobs) = Tracker.running jobs := by
  induction jobs generalizing kept with
  | nil => rfl
  | cons job rest ih =>
      rw [keptFrom]
      by_cases runs : job.status = .running
      · rw [if_pos (Or.inl runs), running_cons runs, running_cons runs, ih]
      · rw [running_cons_ended runs]
        split
        · rw [running_cons_ended runs, ih]
        · exact ih kept

/-- Of the jobs that have ended the first are kept, and all unless there are twelve already. -/
theorem finished_keptFrom (kept : ℕ) (jobs : List Job) :
    ∃ count ≤ 12 - kept,
      Tracker.finished (keptFrom kept jobs) = (Tracker.finished jobs).take count ∧
        (count < (Tracker.finished jobs).length → 12 ≤ kept + (keptFrom kept jobs).length) := by
  induction jobs generalizing kept with
  | nil => exact ⟨0, Nat.zero_le _, rfl, by simp [Tracker.finished]⟩
  | cons job rest ih =>
      rw [keptFrom]
      by_cases runs : job.status = .running
      · rcases ih (kept + 1) with ⟨count, small, same, full⟩
        rw [if_pos (Or.inl runs), finished_cons_running runs, finished_cons_running runs,
          List.length_cons]
        refine ⟨count, by omega, same, ?_⟩
        intro more
        have enough := full more
        omega
      · by_cases room : kept < 12
        · rcases ih (kept + 1) with ⟨count, small, same, full⟩
          rw [if_pos (Or.inr room), finished_cons runs, finished_cons runs, List.length_cons,
            List.length_cons]
          refine ⟨count + 1, by omega, by rw [same, List.take_succ_cons], ?_⟩
          intro more
          have enough := full (by omega)
          omega
        · rcases ih kept with ⟨count, small, same, _⟩
          have none : count = 0 := by omega
          rw [if_neg (not_or.mpr ⟨runs, room⟩), same, none, List.take_zero]
          refine ⟨0, Nat.zero_le _, List.take_zero.symm, ?_⟩
          intro _
          omega

end Keeping

namespace Tracker

variable {tracker : Tracker} {kind backend model : String} {backendID : ℕ}

theorem begin_busy {busy : Job}
    (found : tracker.jobs.find? (fun job => job.status = .running && job.backendID = backendID) =
      some busy) :
    tracker.begin kind backendID backend model = (tracker, .error busy) := by
  rw [begin]
  split
  · rename_i other same
    rw [found, Option.some.injEq] at same
    rw [same]
  · rename_i none
    rw [found] at none
    cases none

theorem begin_free (kind backend model : String)
    (free : tracker.jobs.find? (fun job => job.status = .running && job.backendID = backendID) =
      none) :
    (tracker.begin kind backendID backend model).2 =
        .ok (tracker.newJob kind backendID backend model) ∧
      (tracker.begin kind backendID backend model).1.jobs =
        if (tracker.newJob kind backendID backend model :: tracker.jobs).length > 12 then
          keptFrom 0 (tracker.newJob kind backendID backend model :: tracker.jobs)
        else tracker.newJob kind backendID backend model :: tracker.jobs := by
  rw [begin, ← keep_eq]
  split
  · rename_i busy found
    rw [free] at found
    cases found
  · exact ⟨rfl, rfl⟩

/-- `Begin` fails exactly when its backend has a job that runs. -/
theorem begin_busy_iff :
    (∃ busy, (tracker.begin kind backendID backend model).2 = .error busy) ↔
      ∃ job ∈ tracker.jobs, job.status = .running ∧ job.backendID = backendID := by
  cases found : tracker.jobs.find? fun job => job.status = .running && job.backendID = backendID with
  | none =>
      rw [(begin_free kind backend model found).1]
      rw [List.find?_eq_none] at found
      constructor
      · rintro ⟨busy, failed⟩
        cases failed
      · rintro ⟨job, inside, runs, same⟩
        exact absurd (found job inside) (by simp [runs, same])
  | some busy =>
      rw [begin_busy found]
      have runs := List.find?_some found
      simp only [Bool.and_eq_true, decide_eq_true_eq] at runs
      exact ⟨fun _ => ⟨busy, List.mem_of_find?_eq_some found, runs⟩, fun _ => ⟨busy, rfl⟩⟩

/-- `Begin` drops no job that runs, and of the others only those that twelve later ones follow. -/
theorem begin_keeps {job : Job} (begun : (tracker.begin kind backendID backend model).2 = .ok job) :
    running (tracker.begin kind backendID backend model).1.jobs = job :: running tracker.jobs ∧
      ∃ count ≤ 12,
        finished (tracker.begin kind backendID backend model).1.jobs =
            (finished tracker.jobs).take count ∧
          (count < (finished tracker.jobs).length →
            12 ≤ (tracker.begin kind backendID backend model).1.jobs.length) := by
  cases found : tracker.jobs.find? fun job => job.status = .running && job.backendID = backendID with
  | some busy =>
      rw [begin_busy found] at begun
      cases begun
  | none =>
      rcases begin_free kind backend model found with ⟨isNew, after⟩
      rw [isNew, Except.ok.injEq] at begun
      have runs : job.status = .running := by
        rw [← begun]
        rfl
      rw [after, begun]
      split
      · rcases finished_keptFrom 0 (job :: tracker.jobs) with ⟨count, small, same, full⟩
        rw [running_keptFrom, running_cons runs]
        rw [finished_cons_running runs] at same full
        exact ⟨rfl, count, small, same, fun more => by simpa using full more⟩
      · rename_i short
        rw [running_cons runs, finished_cons_running runs]
        refine ⟨rfl, (finished tracker.jobs).length, ?_, List.take_length.symm, ?_⟩
        · have fewer : (finished tracker.jobs).length ≤ tracker.jobs.length :=
            List.length_filter_le _ _
          rw [List.length_cons] at short
          omega
        · exact fun more => absurd more (lt_irrefl _)

/-- The jobs in the order in which they began, the last one first, of which no two run on one
backend. -/
structure Alone (tracker : Tracker) : Prop where
  ordered : tracker.jobs.Pairwise fun newer older => older.id < newer.id
  apart : tracker.jobs.Pairwise fun job other =>
    job.status = .running → other.status = .running → job.backendID ≠ other.backendID

theorem Alone.begin (alone : tracker.Alone) :
    (tracker.begin kind backendID backend model).1.Alone := by
  cases found : tracker.jobs.find? fun job => job.status = .running && job.backendID = backendID with
  | some busy =>
      rw [begin_busy found]
      exact alone
  | none =>
      have after := (begin_free kind backend model found).2
      have isSublist : (tracker.begin kind backendID backend model).1.jobs.Sublist
          (tracker.newJob kind backendID backend model :: tracker.jobs) := by
        rw [after]
        split
        · rw [← keep_eq]
          exact keep_sublist _
        · exact List.Sublist.refl _
      rw [List.find?_eq_none] at found
      constructor
      · apply List.Pairwise.sublist isSublist
        exact List.pairwise_cons.mpr ⟨tracker.ids_lt, alone.ordered⟩
      · apply List.Pairwise.sublist isSublist
        refine List.pairwise_cons.mpr ⟨?_, alone.apart⟩
        intro other inside _ runs same
        exact found other inside (by simp [runs, ← same, newJob])

/-- A change after which a job runs only if it ran, on the same backend. -/
structure Settles (change : Job → Job) : Prop where
  backend : ∀ job, (change job).backendID = job.backendID
  status : ∀ job, (change job).status = .running → job.status = .running

theorem Alone.update {id : JobID} {change : Job → Job}
    {sameID : ∀ job, (change job).id = job.id} (settles : Settles change) (alone : tracker.Alone) :
    (tracker.update id change sameID).Alone := by
  have same : ∀ job : Job, (if job.id = id then change job else job).id = job.id ∧
      (if job.id = id then change job else job).backendID = job.backendID ∧
      ((if job.id = id then change job else job).status = .running → job.status = .running) := by
    intro job
    split
    · exact ⟨sameID job, settles.backend job, settles.status job⟩
    · exact ⟨rfl, rfl, fun runs => runs⟩
  constructor
  · apply List.pairwise_map.mpr
    apply alone.ordered.imp
    intro newer older less
    rw [(same newer).1, (same older).1]
    exact less
  · apply List.pairwise_map.mpr
    apply alone.apart.imp
    intro job other apart runs otherRuns
    rw [(same job).2.1, (same other).2.1]
    exact apart ((same job).2.2 runs) ((same other).2.2 otherRuns)

section Acting

variable (conversions : Conversions)

theorem readLine_id (line : Bytes) (job : Job) : (job.readLine conversions line).id = job.id := by
  simp only [Job.readLine, Job.readTotal, Job.readError, Job.readStatus]
  split
  · rfl
  · split_ifs <;> rfl

theorem settles_readLine (line : Bytes) : Settles (·.readLine conversions line) := by
  constructor
  · intro job
    simp only [Job.readLine, Job.readTotal, Job.readError, Job.readStatus]
    split
    · rfl
    · split_ifs <;> rfl
  · intro job
    simp only [Job.readLine, Job.readTotal, Job.readError, Job.readStatus]
    split
    · exact fun runs => runs
    · split_ifs <;> simp

/-- Every call but `Begin` changes one job. -/
theorem act_cases (tracker : Tracker) (action : Action) :
    (∃ kind backendID backend model,
        tracker.act conversions action = (tracker.begin kind backendID backend model).1) ∨
      ∃ id change, ∃ sameID : ∀ job : Job, (change job).id = job.id,
        Settles change ∧ tracker.act conversions action = tracker.update id change sameID := by
  have updates : ∀ (id : JobID) (change : Job → Job) (sameID : ∀ job, (change job).id = job.id),
      Settles change → tracker.act conversions action = tracker.update id change sameID →
        ∃ id change, ∃ sameID : ∀ job : Job, (change job).id = job.id,
          Settles change ∧ tracker.act conversions action = tracker.update id change sameID :=
    fun id change sameID settles same => ⟨id, change, sameID, settles, same⟩
  cases action with
  | begin kind backendID backend model => exact Or.inl ⟨kind, backendID, backend, model, rfl⟩
  | applyLine id line =>
      exact Or.inr (updates id _ (readLine_id conversions line) (settles_readLine conversions line) rfl)
  | setMessage id message =>
      exact Or.inr (updates id (fun job => { job with message }) (fun _ => rfl)
        ⟨fun _ => rfl, fun _ runs => runs⟩ rfl)
  | fail id message =>
      refine Or.inr (updates id (·.failWith message) (fun _ => rfl) ⟨fun _ => rfl, ?_⟩ rfl)
      intro job runs
      cases runs
  | done id =>
      refine Or.inr (updates id Job.finished (fun _ => rfl) ⟨fun _ => rfl, ?_⟩ rfl)
      intro job runs
      cases runs

variable {conversions}

theorem Alone.act (alone : tracker.Alone) (action : Action) :
    (tracker.act conversions action).Alone := by
  rcases act_cases conversions tracker action with
    ⟨kind, backendID, backend, model, begins⟩ | ⟨id, change, sameID, settles, updates⟩
  · rw [begins]
    exact alone.begin
  · rw [updates]
    exact alone.update settles

/-- A job that runs stays in the list. -/
theorem listed_act {job : Job} (inside : job ∈ tracker.jobs) (runs : job.status = .running)
    (action : Action) : (tracker.act conversions action).Listed job.id := by
  rcases act_cases conversions tracker action with
    ⟨kind, backendID, backend, model, begins⟩ | ⟨id, change, sameID, settles, updates⟩
  · rw [begins]
    cases begun : (tracker.begin kind backendID backend model).2 with
    | error busy =>
        cases found : tracker.jobs.find? fun job =>
            job.status = .running && job.backendID = backendID with
        | none =>
            rw [(begin_free kind backend model found).1] at begun
            cases begun
        | some first =>
            rw [begin_busy found]
            exact ⟨job, inside, rfl⟩
    | ok new =>
        have kept := (begin_keeps begun).1
        have listed : job ∈ running (tracker.begin kind backendID backend model).1.jobs := by
          rw [kept]
          exact List.mem_cons_of_mem new (List.mem_filter.mpr ⟨inside, by simpa using runs⟩)
        exact ⟨job, List.mem_of_mem_filter listed, rfl⟩
  · rw [updates]
    refine ⟨_, mem_update.mpr ⟨job, inside, rfl⟩, ?_⟩
    split
    · exact sameID job
    · rfl

end Acting

end Tracker

section Runs

variable {conversions : Conversions}

/-- A call of a writer is a call of the tracker, or none. -/
theorem step_tracker (calls : Calls) (call : Call) :
    (calls.step conversions call).tracker = calls.tracker ∨
      ∃ action, (calls.step conversions call).tracker = calls.tracker.act conversions action := by
  have trimmed : ∀ id line, calls.tracker.applyTrimmed conversions id line = calls.tracker ∨
      ∃ action, calls.tracker.applyTrimmed conversions id line =
        calls.tracker.act conversions action := by
    intro id line
    rw [Tracker.applyTrimmed]
    split
    · exact Or.inl rfl
    · exact Or.inr ⟨.applyLine id (trimBytes line), rfl⟩
  cases call with
  | act action => exact Or.inr ⟨action, rfl⟩
  | writer id => exact Or.inl rfl
  | write n chunk => exact Or.inl rfl
  | line n =>
      rw [Calls.step]
      split
      · exact Or.inl rfl
      · split
        · exact Or.inl rfl
        · exact trimmed _ _
  | rest n =>
      rw [Calls.step]
      split
      · exact Or.inl rfl
      · split
        · exact Or.inl rfl
        · exact trimmed _ _

theorem Tracker.Alone.step {calls : Calls} (alone : calls.tracker.Alone) (call : Call) :
    (calls.step conversions call).tracker.Alone := by
  rcases step_tracker calls call with same | ⟨action, acts⟩
  · rw [same]
    exact alone
  · rw [acts]
    exact alone.act action

theorem alone_run (calls : List Call) : (Calls.run conversions calls).tracker.Alone := by
  have later : ∀ start : Calls, start.tracker.Alone →
      (calls.foldl (Calls.step conversions) start).tracker.Alone := by
    induction calls with
    | nil => exact fun start alone => alone
    | cons call rest ih => exact fun start alone => ih _ (alone.step call)
  exact later _ ⟨List.Pairwise.nil, List.Pairwise.nil⟩

/-- Of the jobs of one backend at most one runs. -/
theorem Tracker.Alone.unique {tracker : Tracker} (alone : tracker.Alone) (backendID : ℕ) :
    ((Tracker.running tracker.jobs).filter (·.backendID = backendID)).length ≤ 1 := by
  have apart := (alone.apart.filter (·.status = .running)).filter (·.backendID = backendID)
  have members : ∀ job ∈ (Tracker.running tracker.jobs).filter (·.backendID = backendID),
      job.status = .running ∧ job.backendID = backendID := by
    intro job inside
    have filtered := List.mem_filter.mp inside
    exact ⟨by simpa using List.of_mem_filter filtered.1, by simpa using filtered.2⟩
  change ((Tracker.running tracker.jobs).filter (·.backendID = backendID)).Pairwise _ at apart
  rcases isList : (Tracker.running tracker.jobs).filter (·.backendID = backendID) with
    _ | ⟨first, _ | ⟨second, rest⟩⟩
  · rw [isList]
    exact Nat.zero_le 1
  · rw [isList]
    exact le_refl 1
  · rw [isList] at apart members
    have one := members first (by simp)
    have two := members second (by simp)
    exact absurd (one.2.trans two.2.symm)
      ((List.pairwise_cons.mp apart).1 second (by simp) one.1 two.1)

/-- After any calls: the jobs are listed as they began, the last one first, and at most one runs on
a backend; no call drops a job that runs; `Begin` fails exactly when its backend has a job that
runs, and after it the list has at most twelve jobs that have ended, the last ones. -/
theorem run_exclusive (conversions : Conversions) (calls : List Call) :
    (Calls.run conversions calls).tracker.jobs.Pairwise (fun newer older => older.id < newer.id) ∧
      (∀ backendID, ((Tracker.running (Calls.run conversions calls).tracker.jobs).filter
        (·.backendID = backendID)).length ≤ 1) ∧
      (∀ call, ∀ job ∈ Tracker.running (Calls.run conversions calls).tracker.jobs,
        ((Calls.run conversions calls).step conversions call).tracker.Listed job.id) ∧
      ∀ kind backendID backend model,
        ((∃ busy, ((Calls.run conversions calls).tracker.begin kind backendID backend model).2 =
            .error busy) ↔
          ∃ job ∈ (Calls.run conversions calls).tracker.jobs,
            job.status = .running ∧ job.backendID = backendID) ∧
        ∀ job, ((Calls.run conversions calls).tracker.begin kind backendID backend model).2 =
            .ok job →
          Tracker.running
              ((Calls.run conversions calls).tracker.begin kind backendID backend model).1.jobs =
            job :: Tracker.running (Calls.run conversions calls).tracker.jobs ∧
          ∃ count ≤ 12,
            Tracker.finished
                ((Calls.run conversions calls).tracker.begin kind backendID backend model).1.jobs =
              (Tracker.finished (Calls.run conversions calls).tracker.jobs).take count ∧
            (count < (Tracker.finished (Calls.run conversions calls).tracker.jobs).length →
              12 ≤ ((Calls.run conversions calls).tracker.begin kind backendID backend
                model).1.jobs.length) := by
  have alone : (Calls.run conversions calls).tracker.Alone := alone_run calls
  refine ⟨alone.ordered, alone.unique, ?_, ?_⟩
  · intro call job inside
    have listed := List.mem_of_mem_filter inside
    have runs : job.status = .running := by simpa using List.of_mem_filter inside
    rcases step_tracker (Calls.run conversions calls) call with same | ⟨action, acts⟩
    · rw [same]
      exact ⟨job, listed, rfl⟩
    · rw [acts]
      exact Tracker.listed_act listed runs action
  · intro kind backendID backend model
    exact ⟨Tracker.begin_busy_iff, fun job begun => Tracker.begin_keeps begun⟩

end Runs

end MikroLLM.Jobs
