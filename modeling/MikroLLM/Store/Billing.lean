import Mathlib.Data.List.Perm.Subperm
import Mathlib.Data.List.Sort
import Mathlib.Tactic.Common
import MikroLLM.Domain.Billing
import MikroLLM.Go.Date
import MikroLLM.Library.Runs
import MikroLLM.Library.Tally

/-!
# The request log and the hour rows

`Log` writes a request with three statements: it inserts a row of `request_log`,
deletes all rows but the newest 500, and adds the request to the row of its hour
in `billing_hour`. It ignores it when one of them fails. Statements of different
requests interleave. When the store is opened and `billing_hour` has no row, the
rows are made from the log, one statement for each hour. The process can end
between any two statements.

The two queries of an opening succeed, and the sums of tokens stay within 64
bits. An instant is in nanoseconds since the beginning of 1970.
-/

namespace MikroLLM.Store

open Domain Go Library

universe u

variable {Cost : Type u}

/-- The hour of an instant, counted from the beginning of 1970. In the source it is written as a
text, and texts of hours are in the order of the hours. -/
def hourKey (t : ℤ) : ℤ :=
  t / hourLength

/-- A row of `request_log` with its identifier. -/
structure LogRow (Cost : Type u) where
  id : ℕ
  request : RequestLog Cost

/-- The table `billing_hour`. -/
abbrev HourTable (Cost : Type u) := Association ℤ (BillingSums Cost)

def addBilling [Add Cost] (hours : HourTable Cost) (ts : ℤ) (sums : BillingSums Cost) :
    HourTable Cost :=
  accrue hours (hourKey ts) sums

/-- The columns that `Log` writes. -/
def logRequest [Zero Cost] (now : ℤ) (keyPrefix model backend : String) (status latency bytesOut : ℤ)
    (u : TokenUsage Cost) : RequestLog Cost where
  ts := now
  keyPrefix := keyPrefix
  model := model
  backend := backend
  status := status
  latencyMS := latency.tdiv 1000000
  bytesOut := bytesOut
  promptTokens := u.promptTokens
  completionTokens := u.completionTokens
  cachedTokens := u.cachedTokens
  cacheWriteTokens := u.cacheWriteTokens
  upstream := u.upstream
  promptUSD := u.promptUSD
  cacheDiscount := if u.hasDiscount then u.cacheDiscount else u.cacheDiscount
  usageCost := if u.hasCost then u.cost else 0
  savedUSD := if u.hasSaved then u.savedUSD else 0

def keptRows : ℕ := 500

/-- The second statement of `Log`. -/
def trimLog (rows : List (LogRow Cost)) : List (LogRow Cost) :=
  let newest := ((rows.map (·.id)).insertionSort (· ≥ ·)).take keptRows
  rows.filter (·.id ∈ newest)

/-- The map that `backfillBilling` builds from the log. -/
def hoursOfLog [Add Cost] [Zero Cost] (rows : List (LogRow Cost)) : HourTable Cost :=
  rows.foldl
    (fun byHour row =>
      let k := hourKey row.request.ts
      byHour.put k ((byHour.get k).getD 0 + row.request.sums))
    Association.empty

/-- The rows that `backfillBilling` adds, where the keys of the map come in the order given. -/
def backfillBilling [Add Cost] [Zero Cost] (hours : HourTable Cost) (rows : List (LogRow Cost))
    (order : List ℤ) : List (ℤ × BillingSums Cost) :=
  if hours.size > 0 then []
  else order.map fun k => (k, ((hoursOfLog rows).get k).getD 0)

/-- The statement that a call of `Log` runs next. -/
inductive LogStatement where
  | insert
  | trim
  | bill
  deriving DecidableEq

/-- A call of `Log` that has not returned. -/
structure LogCall (Cost : Type u) where
  request : RequestLog Cost
  next : LogStatement

/-- The two tables, the rows that the opening of the store has still to add, the calls that run, and
the history: the requests that `Log` was called with, those it inserted, those whose call returned,
those among them whose last statement failed, and those that the hour rows were made from. -/
structure BillingState (Cost : Type u) where
  log : List (LogRow Cost)
  nextId : ℕ
  hours : HourTable Cost
  backfill : List (ℤ × BillingSums Cost)
  running : List (LogCall Cost)
  begun : List (RequestLog Cost)
  inserted : List (RequestLog Cost)
  finished : List (RequestLog Cost)
  failed : List (RequestLog Cost)
  counted : List (RequestLog Cost)

/-- The process ends at any moment and the store is opened again, the opening adds a row, a call
begins, or a call runs its next statement. -/
inductive BillingStep (Cost : Type u) where
  | reopen (order : List ℤ)
  | backfill (ok : Bool)
  | call (now : ℤ) (keyPrefix model backend : String) (status latency bytesOut : ℤ)
      (usage : TokenUsage Cost)
  | statement (index : ℕ) (ok : Bool)

/-- The requests of an hour in the log. -/
def hourRequests (rows : List (LogRow Cost)) (hour : ℤ) : List (RequestLog Cost) :=
  (rows.map (·.request)).filter (hourKey ·.ts = hour)

namespace BillingState

/-- A call runs a statement. -/
def runStatement [Add Cost] (state : BillingState Cost) (index : ℕ) (call : LogCall Cost)
    (ok : Bool) : BillingState Cost :=
  match call.next, ok with
  | .insert, true =>
      { state with
        log := state.log ++ [⟨state.nextId, call.request⟩]
        nextId := state.nextId + 1
        inserted := state.inserted ++ [call.request]
        running := state.running.set index ⟨call.request, .trim⟩ }
  | .insert, false => { state with running := state.running.set index ⟨call.request, .trim⟩ }
  | .trim, true =>
      { state with
        log := trimLog state.log
        running := state.running.set index ⟨call.request, .bill⟩ }
  | .trim, false => { state with running := state.running.set index ⟨call.request, .bill⟩ }
  | .bill, true =>
      { state with
        hours := addBilling state.hours call.request.ts call.request.sums
        running := state.running.eraseIdx index
        finished := state.finished ++ [call.request]
        counted := state.counted ++ [call.request] }
  | .bill, false =>
      { state with
        running := state.running.eraseIdx index
        finished := state.finished ++ [call.request]
        failed := state.failed ++ [call.request] }

/-- The process ends with the calls it runs, and the store is opened. -/
def reopened [Add Cost] [Zero Cost] (state : BillingState Cost) (order : List ℤ) :
    BillingState Cost :=
  { state with
    backfill := backfillBilling state.hours state.log order
    running := [] }

/-- The opening adds a row. -/
def addRow [Add Cost] (state : BillingState Cost) (row : ℤ × BillingSums Cost)
    (rest : List (ℤ × BillingSums Cost)) : BillingState Cost :=
  { state with
    hours := addBilling state.hours (row.1 * hourLength) row.2
    backfill := rest
    counted := state.counted ++ hourRequests state.log row.1 }

/-- A step; calls begin when the store is open. -/
def step [Add Cost] [Zero Cost] (state : BillingState Cost) :
    BillingStep Cost → Option (BillingState Cost)
  | .reopen order =>
      if state.hours.size > 0 ∨ order.Perm ((hoursOfLog state.log).entries.map (·.1)) then
        some (state.reopened order)
      else none
  | .backfill ok =>
      match state.backfill with
      | [] => none
      | row :: rest =>
          some (if ok then state.addRow row rest else { state with backfill := rest })
  | .call now keyPrefix model backend status latency bytesOut usage =>
      match state.backfill with
      | [] =>
          let request := logRequest now keyPrefix model backend status latency bytesOut usage
          some { state with
            running := state.running ++ [⟨request, .insert⟩]
            begun := state.begun ++ [request] }
      | _ :: _ => none
  | .statement index ok => state.running[index]?.map fun call => state.runStatement index call ok

end BillingState

section Log

variable {rows : List (LogRow Cost)}

/-- The rows are in the order of their identifiers. -/
def Ascending (rows : List (LogRow Cost)) : Prop :=
  (rows.map (·.id)).Pairwise (· < ·)

theorem filter_mem_map_drop {Row Key : Type*} [DecidableEq Key] {key : Row → Key} {rows : List Row}
    (nodup : (rows.map key).Nodup) (count : ℕ) :
    rows.filter (key · ∈ (rows.drop count).map key) = rows.drop count := by
  have parts : rows.take count ++ rows.drop count = rows := List.take_append_drop count rows
  have before : (rows.take count).filter (key · ∈ (rows.drop count).map key) = [] := by
    rw [← parts, List.map_append, List.nodup_append] at nodup
    rw [List.filter_eq_nil_iff]
    intro row inside
    rw [decide_eq_true_eq]
    intro alsoAfter
    exact nodup.2.2 (key row) (List.mem_map_of_mem inside) (key row) alsoAfter rfl
  have after : (rows.drop count).filter (key · ∈ (rows.drop count).map key) = rows.drop count := by
    rw [List.filter_eq_self]
    intro row inside
    rw [decide_eq_true_eq]
    exact List.mem_map_of_mem inside
  calc rows.filter (key · ∈ (rows.drop count).map key)
      = (rows.take count ++ rows.drop count).filter (key · ∈ (rows.drop count).map key) := by
        rw [parts]
    _ = rows.drop count := by rw [List.filter_append, before, after, List.nil_append]

/-- The newest rows stay. -/
theorem trimLog_eq (ascending : Ascending rows) :
    trimLog rows = rows.drop (rows.length - keptRows) := by
  have newestFirst : (rows.map (·.id)).insertionSort (· ≥ ·) = (rows.map (·.id)).reverse := by
    have sorted : ((rows.map (·.id)).reverse).Pairwise (· ≥ ·) :=
      List.pairwise_reverse.mpr (ascending.imp fun before => before.le)
    exact ((List.perm_insertionSort _ _).trans (List.reverse_perm _).symm).eq_of_pairwise'
      (List.pairwise_insertionSort _ _) sorted
  have nodup : (rows.map (·.id)).Nodup := ascending.imp fun before => before.ne
  have isNewest (row : LogRow Cost) :
      decide (row.id ∈ ((rows.map (·.id)).reverse).take keptRows) =
        decide (row.id ∈ (rows.drop (rows.length - keptRows)).map (·.id)) := by
    rw [List.take_reverse, List.length_map, List.map_drop]
    simp only [List.mem_reverse]
  rw [trimLog, newestFirst]
  calc rows.filter (fun row => decide (row.id ∈ ((rows.map (·.id)).reverse).take keptRows))
      = rows.filter (fun row => decide (row.id ∈ (rows.drop (rows.length - keptRows)).map (·.id))) :=
        List.filter_congr fun row _ => isNewest row
    _ = rows.drop (rows.length - keptRows) := filter_mem_map_drop nodup _

theorem Ascending.drop (ascending : Ascending rows) (count : ℕ) : Ascending (rows.drop count) := by
  rw [Ascending, List.map_drop]
  exact List.Pairwise.sublist (List.drop_sublist _ _) ascending

theorem Ascending.append {next : ℕ} {request : RequestLog Cost} (ascending : Ascending rows)
    (below : ∀ row ∈ rows, row.id < next) : Ascending (rows ++ [⟨next, request⟩]) := by
  rw [Ascending, List.map_append, List.pairwise_append]
  refine ⟨ascending, List.pairwise_singleton _ _, ?_⟩
  intro id inside last isLast
  rcases List.mem_map.mp inside with ⟨row, stored, rfl⟩
  rw [List.mem_singleton.mp isLast]
  exact below row stored

end Log

section Rows

variable {rows : List (LogRow Cost)} {hour : ℤ}

/-- What the row of an hour holds when it was made from the requests given. -/
def hourSums [Add Cost] (hour : ℤ) (requests : List (RequestLog Cost)) :
    Option (BillingSums Cost) :=
  sumOf (amountsOf (hourKey ·.ts) (·.sums) hour requests)

theorem hourKey_mul (hour : ℤ) : hourKey (hour * hourLength) = hour :=
  Int.mul_ediv_cancel hour (by decide)

variable [AddZeroClass Cost]

theorem get_hoursOfLog : (hoursOfLog rows).get hour = hourSums hour (rows.map (·.request)) := by
  have isTally : hoursOfLog rows =
      accrueAll (hourKey ·.ts) (·.sums) Association.empty (rows.map (·.request)) := by
    rw [hoursOfLog, accrueAll, List.foldl_map]
    congr 1
    funext byHour row
    exact put_getD_eq_accrue byHour _ _
  rw [isTally, get_accrueAll, hourSums]

/-- A row that the backfill adds has the sums of its hour in the log. -/
theorem hourSums_of_backfill {hours : HourTable Cost} {order : List ℤ} {row : ℤ × BillingSums Cost}
    (walked : hours.size > 0 ∨ order.Perm ((hoursOfLog rows).entries.map (·.1)))
    (inside : row ∈ backfillBilling hours rows order) :
    hourSums row.1 (rows.map (·.request)) = some row.2 := by
  rw [backfillBilling] at inside
  split at inside
  · cases inside
  · rename_i isEmpty
    rcases List.mem_map.mp inside with ⟨k, listed, rfl⟩
    have isKey := (walked.resolve_left isEmpty).mem_iff.mp listed
    rcases List.mem_map.mp isKey with ⟨⟨_, sums⟩, stored, rfl⟩
    have found := Association.get_eq_some_iff.mpr stored
    rw [← get_hoursOfLog, found, Option.getD_some]

/-- The backfill adds each hour of the log once. -/
theorem backfill_nodup {hours : HourTable Cost} {order : List ℤ}
    (walked : hours.size > 0 ∨ order.Perm ((hoursOfLog rows).entries.map (·.1))) :
    ((backfillBilling hours rows order).map (·.1)).Nodup := by
  rw [backfillBilling]
  split
  · exact List.nodup_nil
  · rename_i isEmpty
    rw [List.map_map]
    simp only [Function.comp_def, List.map_id']
    exact (walked.resolve_left isEmpty).nodup_iff.mpr (hoursOfLog rows).nodup

end Rows

/-- A store of an earlier version: it has a log, and no hour rows. -/
structure OldLog (Cost : Type u) where
  rows : List (LogRow Cost)
  nextId : ℕ
  ascending : Ascending rows
  below : ∀ row ∈ rows, row.id < nextId

/-- The store before it is opened. -/
def OldLog.state (old : OldLog Cost) : BillingState Cost where
  log := old.rows
  nextId := old.nextId
  hours := Association.empty
  backfill := []
  running := []
  begun := old.rows.map (·.request)
  inserted := old.rows.map (·.request)
  finished := []
  failed := []
  counted := []

/-- The requests of the calls that run. -/
def BillingState.inFlight (state : BillingState Cost) : List (RequestLog Cost) :=
  state.running.map (·.request)

/-- The calls whose next statement is the one given. -/
def BillingState.before (state : BillingState Cost) (next : LogStatement) : List (LogCall Cost) :=
  state.running.filter (·.next = next)

/-- The requests of the rows that the opening has still to add. -/
def BillingState.pending (state : BillingState Cost) : List (RequestLog Cost) :=
  state.backfill.flatMap fun row => hourRequests state.log row.1

/-- The hour rows are the sums of the requests counted, each of them once, and the log has the newest
requests. An opening adds whole hours, of which none is counted. -/
structure Accounted [Add Cost] (state : BillingState Cost) : Prop where
  ascending : Ascending state.log
  below : ∀ row ∈ state.log, row.id < state.nextId
  sums : ∀ hour, state.hours.get hour = hourSums hour state.counted
  finished : state.finished.Subperm (state.counted ++ state.failed)
  counted : (state.counted ++ state.pending ++ state.inFlight).Subperm state.begun
  inserted : (state.inserted ++ (state.before .insert).map (·.request)).Subperm state.begun
  newest : state.log.map (·.request) <:+ state.inserted
  kept : min state.inserted.length keptRows ≤ state.log.length
  opening : state.backfill ≠ [] → state.running = []
  nodup : (state.backfill.map (·.1)).Nodup
  whole : ∀ row ∈ state.backfill, hourSums row.1 (state.log.map (·.request)) = some row.2
  uncounted : ∀ row ∈ state.backfill, hourSums row.1 state.counted = none

section Steps

variable {state next : BillingState Cost} {index : ℕ} {call : LogCall Cost}

theorem running_perm (found : state.running[index]? = some call) :
    state.running.Perm (call :: state.running.eraseIdx index) := by
  rcases List.getElem?_eq_some_iff.mp found with ⟨inside, rfl⟩
  exact (List.getElem_cons_eraseIdx_perm inside).symm

theorem running_set_perm (found : state.running[index]? = some call) (changed : LogCall Cost) :
    (state.running.set index changed).Perm (changed :: state.running.eraseIdx index) :=
  List.set_perm_cons_eraseIdx (List.getElem?_eq_some_iff.mp found).choose changed

/-- A call that goes on to its next statement has the same request. -/
theorem inFlight_set (found : state.running[index]? = some call) (statement : LogStatement) :
    ((state.running.set index ⟨call.request, statement⟩).map (·.request)).Perm state.inFlight := by
  have after := (running_set_perm found ⟨call.request, statement⟩).map (·.request)
  have before := (running_perm found).map (·.request)
  exact after.trans before.symm

/-- The calls with a given next statement, before and after a call goes on. -/
theorem before_perm (found : state.running[index]? = some call) (statement : LogStatement) :
    (state.before statement).Perm
      ((call :: state.running.eraseIdx index).filter (·.next = statement)) :=
  (running_perm found).filter _

theorem before_set_perm (found : state.running[index]? = some call) (changed : LogCall Cost)
    (statement : LogStatement) :
    ((state.running.set index changed).filter (·.next = statement)).Perm
      ((changed :: state.running.eraseIdx index).filter (·.next = statement)) :=
  (running_set_perm found changed).filter _

variable [AddZeroClass Cost]

theorem hours_empty_iff (accounted : Accounted state) :
    state.hours.size = 0 ↔ state.counted = [] := by
  constructor
  · intro isEmpty
    cases counted : state.counted with
    | nil => rfl
    | cons request rest =>
        have filled : hourSums (hourKey request.ts) state.counted ≠ none := by
          rw [hourSums, ne_eq, sumOf_eq_none_iff, amountsOf, counted]
          simp
        have noRow : state.hours.get (hourKey request.ts) = none := by
          rw [Association.get, List.length_eq_zero_iff.mp isEmpty]
          rfl
        exact absurd (accounted.sums _ ▸ noRow) filled
  · intro none
    have noRow (hour : ℤ) : state.hours.get hour = Option.none := by
      rw [accounted.sums, none]
      rfl
    rw [Association.size, List.length_eq_zero_iff, List.eq_nil_iff_forall_not_mem]
    rintro ⟨hour, sums⟩ inside
    have row := Association.get_eq_some_iff.mpr inside
    rw [noRow] at row
    cases row

/-- While a call runs, the opening is over. -/
theorem Accounted.opened (accounted : Accounted state)
    (found : state.running[index]? = some call) : state.backfill = [] := by
  by_contra unfinished
  rw [accounted.opening unfinished] at found
  cases found

theorem OldLog.accounted (old : OldLog Cost) : Accounted old.state where
  ascending := old.ascending
  below := old.below
  sums _ := rfl
  finished := List.nil_subperm
  counted := List.nil_subperm
  inserted := by
    rw [BillingState.before, OldLog.state, List.filter_nil, List.map_nil, List.append_nil]
  newest := List.suffix_refl _
  kept := by
    simp [OldLog.state]
  opening _ := rfl
  nodup := List.nodup_nil
  whole := List.forall_mem_nil _
  uncounted := List.forall_mem_nil _

/-- A call goes on, to a statement after the first one. -/
theorem Accounted.goesOn {statement : LogStatement} (accounted : Accounted state)
    (found : state.running[index]? = some call) (later : statement ≠ .insert) :
    Accounted { state with running := state.running.set index ⟨call.request, statement⟩ } := by
  have opened := accounted.opened found
  refine ⟨accounted.ascending, accounted.below, accounted.sums, accounted.finished, ?_, ?_,
    accounted.newest, accounted.kept, fun unfinished => absurd opened unfinished, accounted.nodup,
    accounted.whole, accounted.uncounted⟩
  · exact ((inFlight_set found statement).append_left _).subperm.trans accounted.counted
  · have waiting := before_perm found .insert
    have gone := before_set_perm found ⟨call.request, statement⟩ .insert
    rw [List.filter_cons_of_neg (by simpa using later)] at gone
    have fewer : ((state.running.eraseIdx index).filter (·.next = .insert)).Sublist
        ((call :: state.running.eraseIdx index).filter (·.next = .insert)) :=
      (List.sublist_cons_self call _).filter _
    have after := (gone.map (·.request)).subperm.trans (fewer.map (·.request)).subperm
    have before := after.trans (waiting.symm.map (·.request)).subperm
    exact ((List.subperm_append_left _).mpr before).trans accounted.inserted

theorem Accounted.insert (accounted : Accounted state) (found : state.running[index]? = some call)
    (isNext : call.next = .insert) : Accounted (state.runStatement index call true) := by
  have isStep : state.runStatement index call true =
      { state with
        log := state.log ++ [⟨state.nextId, call.request⟩]
        nextId := state.nextId + 1
        inserted := state.inserted ++ [call.request]
        running := state.running.set index ⟨call.request, .trim⟩ } := by
    simp [BillingState.runStatement, isNext]
  have opened := accounted.opened found
  have counted := accounted.counted
  simp only [BillingState.pending, opened, List.flatMap_nil, List.append_nil] at counted
  rw [isStep]
  refine ⟨accounted.ascending.append accounted.below, ?_, accounted.sums, accounted.finished, ?_,
    ?_, ?_, ?_, fun unfinished => absurd opened unfinished, accounted.nodup, ?_,
    accounted.uncounted⟩
  · intro row stored
    rcases List.mem_append.mp stored with old | new
    · exact Nat.lt_succ_of_lt (accounted.below row old)
    · rw [List.mem_singleton.mp new]
      exact Nat.lt_succ_self _
  · simp only [BillingState.pending, opened, List.flatMap_nil, List.append_nil]
    exact ((inFlight_set found .trim).append_left _).subperm.trans counted
  · have waiting := before_perm found .insert
    have gone := before_set_perm found ⟨call.request, .trim⟩ .insert
    rw [List.filter_cons_of_pos (by simp [isNext])] at waiting
    rw [List.filter_cons_of_neg (by simp)] at gone
    refine List.Perm.subperm ?_ |>.trans accounted.inserted
    rw [List.append_assoc]
    exact ((gone.map _).append_left _).trans ((waiting.map _).symm) |>.append_left _
  · rcases accounted.newest with ⟨older, whole⟩
    exact ⟨older, by simp [← whole]⟩
  · have kept := accounted.kept
    simp only [List.length_append, List.length_singleton]
    omega
  · intro row inside
    rw [opened] at inside
    cases inside

theorem Accounted.trim (accounted : Accounted state) (found : state.running[index]? = some call)
    (isNext : call.next = .trim) : Accounted (state.runStatement index call true) := by
  have isStep : state.runStatement index call true =
      { state with
        log := state.log.drop (state.log.length - keptRows)
        running := state.running.set index ⟨call.request, .bill⟩ } := by
    simp [BillingState.runStatement, isNext, trimLog_eq accounted.ascending]
  generalize isCount : state.log.length - keptRows = count at isStep
  have opened := accounted.opened found
  have goes : Accounted { state with running := state.running.set index ⟨call.request, .bill⟩ } :=
    accounted.goesOn found (by decide)
  have counted := goes.counted
  simp only [BillingState.pending, opened, List.flatMap_nil, List.append_nil] at counted
  rw [isStep]
  refine ⟨accounted.ascending.drop count, ?_, goes.sums, goes.finished, ?_, goes.inserted, ?_, ?_,
    goes.opening, goes.nodup, ?_, goes.uncounted⟩
  · intro row stored
    exact accounted.below row (List.mem_of_mem_drop stored)
  · simp only [BillingState.pending, opened, List.flatMap_nil, List.append_nil]
    exact counted
  · rw [List.map_drop]
    exact (List.drop_suffix _ _).trans accounted.newest
  · have kept := accounted.kept
    simp only [List.length_drop]
    omega
  · intro row inside
    rw [opened] at inside
    cases inside

/-- A call whose request was not counted returns. -/
theorem Accounted.leave (accounted : Accounted state) (found : state.running[index]? = some call)
    (isNext : call.next = .bill) : Accounted { state with
      running := state.running.eraseIdx index
      finished := state.finished ++ [call.request]
      failed := state.failed ++ [call.request] } := by
  have opened := accounted.opened found
  refine ⟨accounted.ascending, accounted.below, accounted.sums, ?_, ?_, ?_, accounted.newest,
    accounted.kept, fun unfinished => absurd opened unfinished, accounted.nodup, accounted.whole,
    accounted.uncounted⟩
  · rw [← List.append_assoc]
    exact (List.subperm_append_right _).mpr accounted.finished
  · have fewer : ((state.running.eraseIdx index).map (·.request)).Sublist state.inFlight :=
      (List.eraseIdx_sublist _ _).map _
    exact (fewer.append_left _).subperm.trans accounted.counted
  · have waiting := before_perm found .insert
    rw [List.filter_cons_of_neg (by simp [isNext])] at waiting
    exact ((waiting.symm.map _).append_left _).subperm.trans accounted.inserted

theorem Accounted.bill (accounted : Accounted state) (found : state.running[index]? = some call)
    (isNext : call.next = .bill) : Accounted (state.runStatement index call true) := by
  have isStep : state.runStatement index call true =
      { state with
        hours := addBilling state.hours call.request.ts call.request.sums
        running := state.running.eraseIdx index
        finished := state.finished ++ [call.request]
        counted := state.counted ++ [call.request] } := by
    simp [BillingState.runStatement, isNext]
  have opened := accounted.opened found
  have leaves := accounted.leave found isNext
  rw [isStep]
  refine ⟨accounted.ascending, accounted.below, ?_, ?_, ?_, leaves.inserted, accounted.newest,
    accounted.kept, leaves.opening, leaves.nodup, leaves.whole, ?_⟩
  · intro hour
    rw [addBilling, get_accrue, accounted.sums, hourSums, hourSums, amountsOf_append,
      amountsOf_singleton]
    split
    · rw [sumOf_concat]
    · rw [List.append_nil]
  · refine leaves.finished.trans (List.Perm.subperm ?_)
    rw [List.append_assoc]
    exact List.perm_append_comm.append_left _
  · have counted := accounted.counted
    simp only [BillingState.pending, opened, List.flatMap_nil, List.append_nil] at counted ⊢
    refine List.Perm.subperm ?_ |>.trans counted
    rw [List.append_assoc]
    exact ((running_perm found).map _).symm.append_left _
  · intro row inside
    rw [opened] at inside
    cases inside

theorem Accounted.statement {ok : Bool} (accounted : Accounted state)
    (found : state.running[index]? = some call) : Accounted (state.runStatement index call ok) := by
  cases isNext : call.next with
  | insert =>
      cases ok with
      | true => exact accounted.insert found isNext
      | false =>
          simp only [BillingState.runStatement, isNext]
          exact accounted.goesOn found (by decide)
  | trim =>
      cases ok with
      | true => exact accounted.trim found isNext
      | false =>
          simp only [BillingState.runStatement, isNext]
          exact accounted.goesOn found (by decide)
  | bill =>
      cases ok with
      | true => exact accounted.bill found isNext
      | false =>
          simp only [BillingState.runStatement, isNext]
          exact accounted.leave found isNext

theorem Accounted.called (accounted : Accounted state) (opened : state.backfill = [])
    (request : RequestLog Cost) :
    Accounted { state with
      running := state.running ++ [⟨request, .insert⟩]
      begun := state.begun ++ [request] } := by
  refine ⟨accounted.ascending, accounted.below, accounted.sums, accounted.finished, ?_, ?_,
    accounted.newest, accounted.kept, fun unfinished => absurd opened unfinished, accounted.nodup,
    accounted.whole, accounted.uncounted⟩
  · have more := (List.subperm_append_right [request]).mpr accounted.counted
    simpa [BillingState.inFlight, BillingState.pending, List.append_assoc] using more
  · have more := (List.subperm_append_right [request]).mpr accounted.inserted
    simpa [BillingState.before, List.filter_append, List.append_assoc] using more

/-- A restart at any moment: the calls that ran are lost, and nothing that is counted is counted
again. -/
theorem Accounted.reopen {order : List ℤ} (accounted : Accounted state)
    (walked : state.hours.size > 0 ∨ order.Perm ((hoursOfLog state.log).entries.map (·.1))) :
    Accounted (state.reopened order) := by
  have begun : state.inserted.Subperm state.begun :=
    (List.sublist_append_left _ _).subperm.trans accounted.inserted
  refine ⟨accounted.ascending, accounted.below, accounted.sums, accounted.finished, ?_, ?_,
    accounted.newest, accounted.kept, fun _ => rfl, backfill_nodup walked,
    fun row inside => hourSums_of_backfill walked inside, ?_⟩
  · by_cases filled : state.hours.size > 0
    · have counted := (List.sublist_append_left _ _).subperm.trans
        ((List.sublist_append_left _ _).subperm.trans accounted.counted)
      simpa [BillingState.reopened, BillingState.pending, BillingState.inFlight, backfillBilling,
        filled] using counted
    · have none := (hours_empty_iff accounted).mp (by omega)
      have distinct : order.Nodup :=
        (walked.resolve_left filled).nodup_iff.mpr (hoursOfLog state.log).nodup
      have once : (order.flatMap (hourRequests state.log)).Subperm (state.log.map (·.request)) :=
        flatMap_filter_subperm distinct
      have counted := once.trans (accounted.newest.sublist.subperm.trans begun)
      simpa [BillingState.reopened, BillingState.pending, BillingState.inFlight, backfillBilling,
        filled, none, List.flatMap_map] using counted
  · simpa [BillingState.reopened, BillingState.before] using begun
  · intro row inside
    by_cases filled : state.hours.size > 0
    · simp [BillingState.reopened, backfillBilling, filled] at inside
    · have none := (hours_empty_iff accounted).mp (by omega)
      change hourSums row.1 state.counted = Option.none
      rw [none]
      rfl

/-- The opening adds an hour of the log. -/
theorem Accounted.addRow {row : ℤ × BillingSums Cost} {rest : List (ℤ × BillingSums Cost)}
    (accounted : Accounted state) (isNext : state.backfill = row :: rest) :
    Accounted (state.addRow row rest) := by
  have isRow : row ∈ state.backfill := by
    rw [isNext]
    exact List.mem_cons_self
  have later : ∀ other ∈ rest, other ∈ state.backfill := by
    intro other inside
    rw [isNext]
    exact List.mem_cons_of_mem _ inside
  have nodup := accounted.nodup
  rw [isNext, List.map_cons, List.nodup_cons] at nodup
  have sumsAfter (hour : ℤ) : hourSums hour (state.addRow row rest).counted =
      if row.1 = hour then some row.2 else hourSums hour state.counted := by
    rw [hourSums, BillingState.addRow, amountsOf_append]
    split
    · rename_i same
      subst same
      have noneBefore := sumOf_eq_none_iff.mp (accounted.uncounted row isRow)
      rw [noneBefore, List.nil_append, hourRequests, amountsOf_filter_self]
      exact accounted.whole row isRow
    · rename_i differs
      rw [hourRequests, amountsOf_filter_other differs, List.append_nil]
      rfl
  refine ⟨accounted.ascending, accounted.below, ?_, ?_, ?_, accounted.inserted, accounted.newest,
    accounted.kept, ?_, nodup.2, fun other inside => accounted.whole other (later other inside), ?_⟩
  · intro hour
    have noRow : state.hours.get row.1 = none :=
      (accounted.sums row.1).trans (accounted.uncounted row isRow)
    change (addBilling state.hours (row.1 * hourLength) row.2).get hour = _
    rw [addBilling, hourKey_mul, get_accrue, sumsAfter]
    split
    · rename_i same
      rw [← same, noRow]
      rfl
    · exact accounted.sums hour
  · have more := (List.sublist_append_left state.counted (hourRequests state.log row.1)).append_right
      state.failed
    exact accounted.finished.trans more.subperm
  · have counted := accounted.counted
    simp only [BillingState.pending, isNext, List.flatMap_cons] at counted
    simpa [BillingState.addRow, BillingState.pending, BillingState.inFlight, List.append_assoc] using
      counted
  · exact fun _ => accounted.opening (by simp [isNext])
  · intro other inside
    have differs : row.1 ≠ other.1 := by
      intro same
      exact nodup.1 (same ▸ List.mem_map_of_mem inside)
    rw [sumsAfter, if_neg differs]
    exact accounted.uncounted other (later other inside)

/-- The opening fails to add an hour of the log. -/
theorem Accounted.skipRow {row : ℤ × BillingSums Cost} {rest : List (ℤ × BillingSums Cost)}
    (accounted : Accounted state) (isNext : state.backfill = row :: rest) :
    Accounted { state with backfill := rest } := by
  have later : ∀ other ∈ rest, other ∈ state.backfill := by
    intro other inside
    rw [isNext]
    exact List.mem_cons_of_mem _ inside
  have nodup := accounted.nodup
  rw [isNext, List.map_cons, List.nodup_cons] at nodup
  refine ⟨accounted.ascending, accounted.below, accounted.sums, accounted.finished, ?_,
    accounted.inserted, accounted.newest, accounted.kept, ?_, nodup.2,
    fun other inside => accounted.whole other (later other inside),
    fun other inside => accounted.uncounted other (later other inside)⟩
  · have fewer : (rest.flatMap fun row => hourRequests state.log row.1).Sublist state.pending := by
      rw [BillingState.pending, isNext, List.flatMap_cons]
      exact List.sublist_append_right _ _
    exact ((fewer.append_left state.counted).append_right _).subperm.trans accounted.counted
  · exact fun _ => accounted.opening (by simp [isNext])

/-- One step keeps the accounts. -/
theorem Accounted.step {action : BillingStep Cost} (accounted : Accounted state)
    (stepped : state.step action = some next) : Accounted next := by
  cases action with
  | reopen order =>
      simp only [BillingState.step] at stepped
      split at stepped
      · rename_i walked
        cases stepped
        exact accounted.reopen walked
      · cases stepped
  | backfill ok =>
      simp only [BillingState.step] at stepped
      split at stepped
      · cases stepped
      · rename_i row rest isNext
        cases stepped
        cases ok with
        | true => exact accounted.addRow isNext
        | false => exact accounted.skipRow isNext
  | call now keyPrefix model backend status latency bytesOut usage =>
      simp only [BillingState.step] at stepped
      split at stepped
      · rename_i opened
        cases stepped
        exact accounted.called opened _
      · cases stepped
  | statement index ok =>
      rcases Option.map_eq_some_iff.mp stepped with ⟨call, found, rfl⟩
      exact accounted.statement found

end Steps

section BillingRuns

/-- A statement fails. -/
def BillingStep.fails : BillingStep Cost → Bool
  | .backfill ok => !ok
  | .statement _ ok => !ok
  | _ => false

/-- The process goes on, and no statement fails. -/
def BillingStep.goesOn : BillingStep Cost → Bool
  | .reopen _ => false
  | action => !action.fails

variable [AddZeroClass Cost] {old : OldLog Cost} {actions : List (BillingStep Cost)}
  {state next : BillingState Cost}

theorem accounted_of_run (ran : exec BillingState.step old.state actions = some state) :
    Accounted state :=
  (run_of_exec ran).invariant Accounted old.accounted
    fun accounted _ stepped => accounted.step stepped

theorem failed_step {action : BillingStep Cost} (succeeds : action.fails = false)
    (stepped : state.step action = some next) : next.failed = state.failed := by
  cases action with
  | reopen order =>
      simp only [BillingState.step] at stepped
      split at stepped <;> cases stepped
      rfl
  | backfill ok =>
      simp only [BillingState.step] at stepped
      split at stepped <;> cases stepped
      cases ok <;> rfl
  | call now keyPrefix model backend status latency bytesOut usage =>
      simp only [BillingState.step] at stepped
      split at stepped <;> cases stepped
      rfl
  | statement index ok =>
      rcases Option.map_eq_some_iff.mp stepped with ⟨call, found, rfl⟩
      cases ok with
      | true => cases isNext : call.next <;> simp [BillingState.runStatement, isNext]
      | false => cases succeeds

/-- Whatever the order of the statements, whichever of them fail and wherever the process is restarted,
the row of an hour is the sum of the requests counted in that hour; a request whose call returned is
counted unless its last statement failed, and no request is counted twice. The log has the newest
requests, 500 of them when there are so many. -/
theorem billing_counts_once (ran : exec BillingState.step old.state actions = some state) :
    (∀ hour, state.hours.get hour = hourSums hour state.counted) ∧
      state.finished.Subperm (state.counted ++ state.failed) ∧
      ((∀ action ∈ actions, action.fails = false) → state.failed = []) ∧
      (state.counted ++ state.inFlight).Subperm state.begun ∧
      state.log.map (·.request) <:+ state.inserted ∧
      min state.inserted.length keptRows ≤ state.log.length := by
  have accounted := accounted_of_run ran
  refine ⟨accounted.sums, accounted.finished, ?_, ?_, accounted.newest, accounted.kept⟩
  · intro succeeds
    have run := (run_of_exec ran).with_labels succeeds
    exact run.invariant (fun state => state.failed = []) rfl
      fun none admitted stepped => (failed_step admitted.2 stepped).trans none
  · have fewer : (state.counted ++ state.inFlight).Sublist
        (state.counted ++ state.pending ++ state.inFlight) :=
      (List.sublist_append_left _ _).append_right _
    exact fewer.subperm.trans accounted.counted

/-- A log with rows of two hours. -/
def twoHoursLog : OldLog ℤ where
  rows := [⟨4, logRequest 60 "sk-1" "llama" "local" 200 5000000 10
      ⟨7, 3, 0, 0, "", 0, 0, false, 2, true, 0, false⟩⟩,
    ⟨5, logRequest (hourLength + 1) "sk-1" "llama" "local" 200 5000000 10
      ⟨4, 1, 0, 0, "", 0, 0, false, 3, true, 0, false⟩⟩]
  nextId := 6
  ascending := by simp [Ascending]
  below := by decide

/-- One call of the second hour. -/
def secondHourCall : BillingStep ℤ :=
  .call (hourLength + 5) "sk-1" "llama" "local" 200 9000000 20
    ⟨1, 2, 0, 0, "", 0, 0, false, 5, true, 0, false⟩

/-- The process ends in the middle of the first opening, a call loses its last statement, and the
process ends again while another call runs. -/
def interruptedRun : List (BillingStep ℤ) :=
  [.reopen [1, 0], .backfill true, .reopen [], secondHourCall, .statement 0 true, secondHourCall,
    .statement 0 true, .statement 1 false, .statement 0 false, secondHourCall, .statement 1 true,
    .statement 0 true, .statement 0 true, .reopen []]

theorem billing_counts_once_interrupted :
    ∃ state, exec BillingState.step twoHoursLog.state interruptedRun = some state ∧
      (∀ hour, state.hours.get hour = hourSums hour state.counted) ∧
      state.finished.Subperm (state.counted ++ state.failed) ∧
      ((∀ action ∈ interruptedRun, action.fails = false) → state.failed = []) ∧
      (state.counted ++ state.inFlight).Subperm state.begun ∧
      state.log.map (·.request) <:+ state.inserted ∧
      min state.inserted.length keptRows ≤ state.log.length :=
  ⟨_, rfl, @billing_counts_once ℤ _ twoHoursLog interruptedRun _ rfl⟩

/-- The requests that an opening of the store counts: those that are counted already or, when there
are none, those of the log. -/
def BillingState.basis (state : BillingState Cost) : List (RequestLog Cost) :=
  if state.hours.size > 0 then state.counted else state.log.map (·.request)

/-- Since the store was opened, every request whose call returned is counted, every other one is in
flight, and the log has more than 500 rows only for the calls that have not trimmed it yet, or for the
rows that the opening found. -/
structure Uninterrupted (opened : BillingState Cost) (since : List (RequestLog Cost))
    (state : BillingState Cost) : Prop where
  finished : state.finished = opened.finished ++ since
  counted : state.counted ++ state.pending = opened.counted ++ opened.pending ++ since
  begun : state.begun.Perm (opened.begun ++ since ++ state.inFlight)
  bounded : state.log.length ≤ max keptRows opened.log.length + (state.before .trim).length
  trimmed : since ≠ [] ∨ (state.before .bill) ≠ [] →
    state.log.length ≤ keptRows + (state.before .trim).length

theorem Uninterrupted.statement {opened : BillingState Cost} {since : List (RequestLog Cost)}
    {index : ℕ} {call : LogCall Cost} (accounted : Accounted state)
    (undisturbed : Uninterrupted opened since state)
    (isCall : state.running[index]? = some call) :
    ∃ more, Uninterrupted opened (since ++ more) (state.runStatement index call true) := by
  have isOpen := accounted.opened isCall
  have counted := undisturbed.counted
  have bounded := undisturbed.bounded
  have trimming := (before_perm isCall .trim).length_eq
  simp only [BillingState.pending, isOpen, List.flatMap_nil, List.append_nil] at counted
  cases isNext : call.next with
  | insert =>
      have billing := before_perm isCall .bill
      have after := before_set_perm isCall ⟨call.request, .trim⟩ .bill
      have more := (before_set_perm isCall ⟨call.request, .trim⟩ .trim).length_eq
      rw [List.filter_cons_of_neg (by simp [isNext])] at trimming billing
      rw [List.filter_cons_of_neg (by simp)] at after
      rw [List.filter_cons_of_pos (by simp), List.length_cons] at more
      refine ⟨[], ?_, ?_, ?_, ?_, ?_⟩
      · simpa [BillingState.runStatement, isNext] using undisturbed.finished
      · simpa [BillingState.runStatement, isNext, BillingState.pending, isOpen] using counted
      · have flying := (inFlight_set isCall .trim).symm.append_left (opened.begun ++ since)
        simpa [BillingState.runStatement, isNext, BillingState.inFlight] using
          undisturbed.begun.trans flying
      · simp only [BillingState.runStatement, isNext, BillingState.before, more,
          List.length_append, List.length_singleton]
        omega
      · intro before
        have stillTrimmed : state.log.length ≤ keptRows + (state.before .trim).length := by
          apply undisturbed.trimmed
          rcases before with returned | billed
          · exact Or.inl (by simpa using returned)
          · right
            intro none
            apply billed
            rw [none] at billing
            rw [billing.symm.eq_nil] at after
            simpa [BillingState.runStatement, isNext, BillingState.before] using after.eq_nil
        simp only [BillingState.runStatement, isNext, BillingState.before, more,
          List.length_append, List.length_singleton]
        omega
  | trim =>
      refine ⟨[], ?_, ?_, ?_, ?_, ?_⟩
      · simpa [BillingState.runStatement, isNext] using undisturbed.finished
      · simpa [BillingState.runStatement, isNext, BillingState.pending, isOpen] using counted
      · have flying := (inFlight_set isCall .bill).symm.append_left (opened.begun ++ since)
        simpa [BillingState.runStatement, isNext, BillingState.inFlight] using
          undisturbed.begun.trans flying
      · simp only [BillingState.runStatement, isNext, trimLog_eq accounted.ascending,
          List.length_drop]
        omega
      · intro _
        simp only [BillingState.runStatement, isNext, trimLog_eq accounted.ascending,
          List.length_drop]
        omega
  | bill =>
      have billing : state.before .bill ≠ [] := by
        apply List.ne_nil_of_mem (a := call)
        exact List.mem_filter.mpr ⟨List.mem_of_getElem? isCall, by simpa using isNext⟩
      have stillTrimmed := undisturbed.trimmed (Or.inr billing)
      rw [List.filter_cons_of_neg (by simp [isNext])] at trimming
      refine ⟨[call.request], ?_, ?_, ?_, ?_, ?_⟩
      · simp [BillingState.runStatement, isNext, undisturbed.finished]
      · simp [BillingState.runStatement, isNext, BillingState.pending, isOpen, counted]
      · have flying := ((running_perm isCall).map (·.request)).append_left (opened.begun ++ since)
        simpa [BillingState.runStatement, isNext, BillingState.inFlight] using
          undisturbed.begun.trans flying
      · simp only [BillingState.runStatement, isNext, BillingState.before]
        omega
      · intro _
        simp only [BillingState.runStatement, isNext, BillingState.before]
        omega

theorem Uninterrupted.step {opened : BillingState Cost} {since : List (RequestLog Cost)}
    {action : BillingStep Cost} (accounted : Accounted state)
    (undisturbed : Uninterrupted opened since state) (goesOn : action.goesOn = true)
    (stepped : state.step action = some next) :
    ∃ more, Uninterrupted opened (since ++ more) next := by
  cases action with
  | reopen order => cases goesOn
  | backfill ok =>
      cases ok with
      | false => cases goesOn
      | true =>
          simp only [BillingState.step] at stepped
          split at stepped
          · cases stepped
          · rename_i row rest isNext
            cases stepped
            have counted := undisturbed.counted
            simp only [BillingState.pending, isNext, List.flatMap_cons] at counted
            refine ⟨[], ?_⟩
            rw [List.append_nil]
            refine ⟨undisturbed.finished, ?_, undisturbed.begun, undisturbed.bounded,
              undisturbed.trimmed⟩
            simpa [BillingState.addRow, BillingState.pending, List.append_assoc] using counted
  | call now keyPrefix model backend status latency bytesOut usage =>
      simp only [BillingState.step] at stepped
      split at stepped
      · rename_i isOpen
        cases stepped
        refine ⟨[], ?_, ?_, ?_, ?_, ?_⟩
        · simpa using undisturbed.finished
        · simpa [BillingState.pending, isOpen] using undisturbed.counted
        · simpa [BillingState.inFlight, List.append_assoc] using undisturbed.begun.append_right _
        · simpa [BillingState.before, List.filter_append] using undisturbed.bounded
        · simpa [BillingState.before, List.filter_append] using undisturbed.trimmed
      · cases stepped
  | statement index ok =>
      rcases Option.map_eq_some_iff.mp stepped with ⟨call, isCall, rfl⟩
      cases ok with
      | true => exact undisturbed.statement accounted isCall
      | false => cases goesOn

theorem Uninterrupted.run {opened first last : BillingState Cost} {since : List (RequestLog Cost)}
    {admits : BillingState Cost → BillingStep Cost → Prop} {actions : List (BillingStep Cost)}
    (undisturbed : Uninterrupted opened since first) (accounted : Accounted first)
    (run : Run BillingState.step admits first actions last)
    (goesOn : ∀ state action, admits state action → action.goesOn = true) :
    ∃ since, Uninterrupted opened since last := by
  induction run generalizing since with
  | nil state => exact ⟨since, undisturbed⟩
  | cons admitted fires tail ih =>
      rcases undisturbed.step accounted (goesOn _ _ admitted) fires with ⟨more, stays⟩
      exact ih stays (accounted.step fires)

/-- An opening that is over has counted its basis. -/
theorem amountsOf_reopened {found : BillingState Cost} {order : List ℤ} (accounted : Accounted found)
    (walked : found.hours.size > 0 ∨ order.Perm ((hoursOfLog found.log).entries.map (·.1)))
    (hour : ℤ) :
    amountsOf (hourKey ·.ts) (·.sums) hour
        ((found.reopened order).counted ++ (found.reopened order).pending) =
      amountsOf (hourKey ·.ts) (·.sums) hour found.basis := by
  by_cases filled : found.hours.size > 0
  · simp [BillingState.reopened, BillingState.pending, BillingState.basis, backfillBilling, filled]
  · have isPerm := walked.resolve_left filled
    have none := (hours_empty_iff accounted).mp (by omega)
    have pieces : (found.reopened order).counted ++ (found.reopened order).pending =
        order.flatMap (hourRequests found.log) := by
      simp [BillingState.reopened, BillingState.pending, backfillBilling, filled, none,
        List.flatMap_map]
    have distinct : order.Nodup := isPerm.nodup_iff.mpr (hoursOfLog found.log).nodup
    have ofKeys : amountsOf (hourKey ·.ts) (·.sums) hour (order.flatMap (hourRequests found.log)) =
        if hour ∈ order then amountsOf (hourKey ·.ts) (·.sums) hour (found.log.map (·.request))
        else [] := amountsOf_flatMap_filter distinct
    rw [pieces, BillingState.basis, if_neg filled]
    refine ofKeys.trans ?_
    split
    · rfl
    · rename_i absent
      have noKey : (hoursOfLog found.log).get hour = Option.none := by
        cases stored : (hoursOfLog found.log).get hour with
        | none => rfl
        | some sums =>
            have isKey : hour ∈ (hoursOfLog found.log).entries.map (·.1) :=
              List.mem_map_of_mem (Association.get_eq_some_iff.mp stored)
            exact absurd (isPerm.mem_iff.mpr isKey) absent
      rw [get_hoursOfLog, hourSums, sumOf_eq_none_iff] at noKey
      exact noKey.symm

/-- From an opening of the store on, after whatever came before it, as long as the process goes on and
no statement fails: when the opening is over, the hour rows are the sums of what the opening counts
and of every request whose call returned since, all requests begun since are these and the ones in
flight, and the log has more than 500 rows only for the calls that have not trimmed it yet, once a
call has returned. -/
theorem billing_exact {earlier : List (BillingStep Cost)} {found opened : BillingState Cost}
    {order : List ℤ} (reached : exec BillingState.step old.state earlier = some found)
    (opens : found.step (.reopen order) = some opened)
    (ran : exec BillingState.step opened actions = some state)
    (goesOn : ∀ action ∈ actions, action.goesOn = true) (isOpen : state.backfill = []) :
    ∃ since, state.finished = found.finished ++ since ∧
      (∀ hour, state.hours.get hour = hourSums hour (found.basis ++ since)) ∧
      state.begun.Perm (found.begun ++ since ++ state.inFlight) ∧
      state.log.length ≤ max keptRows found.log.length + (state.before .trim).length ∧
      (since ≠ [] → state.log.length ≤ keptRows + (state.before .trim).length) := by
  have before := accounted_of_run reached
  have atOpening := before.step opens
  simp only [BillingState.step] at opens
  split at opens
  · rename_i walked
    cases opens
    have run := (run_of_exec ran).with_labels goesOn
    have accounted : Accounted state :=
      run.invariant Accounted atOpening fun known _ stepped => known.step stepped
    have atStart : Uninterrupted (found.reopened order) [] (found.reopened order) := by
      refine ⟨(List.append_nil _).symm, (List.append_nil _).symm, ?_, ?_, ?_⟩
      · simp [BillingState.reopened, BillingState.inFlight]
      · exact Nat.le_add_right_of_le (le_max_right _ _)
      · simp [BillingState.reopened, BillingState.before]
    rcases atStart.run atOpening run fun _ _ admitted => admitted.2 with ⟨since, undisturbed⟩
    refine ⟨since, undisturbed.finished, ?_, undisturbed.begun, undisturbed.bounded,
      fun returned => undisturbed.trimmed (Or.inl returned)⟩
    intro hour
    have counted := undisturbed.counted
    rw [BillingState.pending, isOpen, List.flatMap_nil, List.append_nil] at counted
    rw [accounted.sums, counted, hourSums, hourSums, amountsOf_append,
      amountsOf_reopened before walked, ← amountsOf_append]
  · cases opens

/-- The process ended in the middle of its first opening, so that the first hour is not counted. -/
def halfOpened : List (BillingStep ℤ) :=
  [.reopen [1, 0], .backfill true]

/-- Two calls, one of which returned. -/
def openRun : List (BillingStep ℤ) :=
  [secondHourCall, .statement 0 true, secondHourCall, .statement 0 true, .statement 0 true,
    .statement 0 true]

theorem billing_exact_halfOpened :
    ∃ found opened state, exec BillingState.step twoHoursLog.state halfOpened = some found ∧
      found.step (.reopen []) = some opened ∧
      exec BillingState.step opened openRun = some state ∧
      ∃ since, state.finished = found.finished ++ since ∧
        (∀ hour, state.hours.get hour = hourSums hour (found.basis ++ since)) ∧
        state.begun.Perm (found.begun ++ since ++ state.inFlight) ∧
        state.log.length ≤ max keptRows found.log.length + (state.before .trim).length ∧
        (since ≠ [] → state.log.length ≤ keptRows + (state.before .trim).length) :=
  ⟨_, _, _, rfl, rfl, rfl,
    @billing_exact ℤ _ twoHoursLog openRun _ halfOpened _ _ [] rfl rfl rfl (by decide) rfl⟩

end BillingRuns

end MikroLLM.Store
