import Mathlib.Algebra.BigOperators.Group.List.Basic
import Mathlib.Algebra.Order.Group.Int
import Mathlib.Algebra.Order.PUnit
import MikroLLM.Go.Strings
import MikroLLM.Go.Text
import MikroLLM.Store.Billing

/-!
# The billing view

`Billing` adds the hour rows up in buckets: hours, days, weeks, months or years
of the zone that the clock is in. The zone keeps its offset from UTC. The label
of a bucket and its share of the largest one are left out.

The requests of an hour are added in the order in which they were counted, the
hours of a bucket one after the other, and the buckets last. Another order gives
other costs, but the same numbers of requests and tokens.
-/

namespace MikroLLM.Store

open Domain Go Library

universe u

variable {Cost : Type u}

inductive BillingPeriod where
  | hour
  | day
  | week
  | month
  | year
  deriving DecidableEq

/-- `NormalizeBillingPeriod`. -/
def normalizeBillingPeriod (text : TextLibrary) (p : String) : BillingPeriod :=
  let name := text.toLower (trimSpace p)
  if name = "hour" then .hour
  else if name = "week" then .week
  else if name = "month" then .month
  else if name = "year" then .year
  else .day

def startOfDay (offset t : ℤ) : ℤ :=
  date offset (yearAt offset t) (monthAt offset t) (dayAt offset t) 0

/-- A week starts on Monday. -/
def startOfWeek (offset t : ℤ) : ℤ :=
  let d := startOfDay offset t
  let wd := weekdayAt offset d
  addDate offset d 0 0 (1 - if wd = 0 then 7 else wd)

/-- Where the buckets start, the oldest first. -/
def periodStarts (offset : ℤ) (period : BillingPeriod) (now : ℤ) : List ℤ :=
  match period with
  | .hour =>
      let last := date offset (yearAt offset now) (monthAt offset now) (dayAt offset now)
        (hourAt offset now)
      (List.range 24).map fun i : ℕ => last + -(23 - (i : ℤ)) * hourLength
  | .day =>
      let last := startOfDay offset now
      (List.range 30).map fun i : ℕ => addDate offset last 0 0 (-(29 - (i : ℤ)))
  | .week =>
      let last := startOfWeek offset now
      (List.range 12).map fun i : ℕ => addDate offset last 0 0 (-7 * (11 - (i : ℤ)))
  | .month =>
      let last := date offset (yearAt offset now) (monthAt offset now) 1 0
      (List.range 12).map fun i : ℕ => addDate offset last 0 (-(11 - (i : ℤ))) 0
  | .year =>
      let last := date offset (yearAt offset now) 1 1 0
      (List.range 5).map fun i : ℕ => addDate offset last (-(4 - (i : ℤ))) 0 0

def periodEnd (offset : ℤ) (period : BillingPeriod) (start : ℤ) : ℤ :=
  match period with
  | .hour => start + hourLength
  | .day => addDate offset start 0 0 1
  | .week => addDate offset start 0 0 7
  | .month => addDate offset start 0 1 0
  | .year => addDate offset start 1 0 0

/-- The rows of the hours between two instants. -/
def listBillingHours (hours : HourTable Cost) (since upto : ℤ) : List (ℤ × BillingSums Cost) :=
  (hours.entries.filter fun row =>
    hourKey since ≤ row.1 ∧ row.1 < hourKey (upto + hourLength)).insertionSort (·.1 ≤ ·.1)

structure BillingBucket (Cost : Type u) where
  key : ℤ
  start : ℤ
  sums : BillingSums Cost

structure BillingView (Cost : Type u) where
  period : BillingPeriod
  since : ℤ
  upto : ℤ
  sums : BillingSums Cost
  buckets : List (BillingBucket Cost)

/-- The instants that the loop of a bucket visits: its start, and one hour after the other. -/
def stamps (t stop : ℤ) : List ℤ :=
  if t < stop then t :: stamps (t + hourLength) stop else []
termination_by (stop - t).toNat
decreasing_by
  have long : hourLength = 3600000000000 := rfl
  omega

/-- The loop of a bucket. -/
def bucketSums [Add Cost] [Zero Cost] (byHour : HourTable Cost) (start stop : ℤ) :
    BillingSums Cost :=
  (stamps start stop).foldl
    (fun sums t =>
      match byHour.get (hourKey t) with
      | some h => sums + h
      | none => sums)
    0

/-- `Billing`, where the name of the period is known. -/
def periodView [Add Cost] [Zero Cost] (hours : HourTable Cost) (offset : ℤ) (period : BillingPeriod)
    (now : ℤ) : BillingView Cost :=
  let starts := periodStarts offset period now
  let since := starts.head?.getD 0
  let upto := periodEnd offset period (starts.getLast?.getD 0)
  let rows := listBillingHours hours (since - hourLength) (upto + hourLength)
  let byHour := rows.foldl (fun byHour row => byHour.put row.1 row.2) Association.empty
  let buckets := starts.map fun start =>
    (⟨hourKey start, start, bucketSums byHour start (periodEnd offset period start)⟩ :
      BillingBucket Cost)
  { period := period
    since := since
    upto := upto
    sums := buckets.foldl (fun sums bucket => sums + bucket.sums) 0
    buckets := buckets }

def billing [Add Cost] [Zero Cost] (text : TextLibrary) (hours : HourTable Cost) (offset : ℤ)
    (p : String) (now : ℤ) : BillingView Cost :=
  periodView hours offset (normalizeBillingPeriod text p) now

section Grid

variable {offset t k : ℤ} {period : BillingPeriod}

/-- The borders of the buckets of a period, numbered without end. -/
def border (offset : ℤ) (period : BillingPeriod) (k : ℤ) : ℤ :=
  match period with
  | .hour => k * hourLength - offset
  | .day => k * dayLength - offset
  | .week => (7 * k + 4) * dayLength - offset
  | .month => monthBegin offset k
  | .year => monthBegin offset (12 * k)

/-- The number of the bucket that holds an instant. -/
def bucketOf (offset : ℤ) (period : BillingPeriod) (t : ℤ) : ℤ :=
  match period with
  | .hour => (t + offset) / hourLength
  | .day => dayNumber offset t
  | .week => (dayNumber offset t - 4) / 7
  | .month => monthOf (dayNumber offset t)
  | .year => yearAt offset t

/-- How many buckets are shown. -/
def bucketCount : BillingPeriod → ℕ
  | .hour => 24
  | .day => 30
  | .week => 12
  | .month => 12
  | .year => 5

theorem border_lt_succ (offset : ℤ) (period : BillingPeriod) (k : ℤ) :
    border offset period k < border offset period (k + 1) := by
  cases period with
  | hour =>
      simp only [border, hourLength]
      omega
  | day =>
      simp only [border, dayLength]
      omega
  | week =>
      simp only [border, dayLength]
      omega
  | month =>
      have later := monthStart_lt_succ k
      simp only [border, monthBegin, dayLength]
      omega
  | year =>
      have later : monthStart (12 * k) < monthStart (12 * (k + 1)) :=
        monthStart_strictMono (by omega)
      simp only [border, monthBegin, dayLength]
      omega

theorem border_strictMono (offset : ℤ) (period : BillingPeriod) :
    StrictMono (border offset period) :=
  strictMono_int_of_lt_succ (border_lt_succ offset period)

theorem dvd_border (whole : hourLength ∣ offset) : hourLength ∣ border offset period k := by
  have daily (days : ℤ) : hourLength ∣ days * dayLength - offset :=
    Int.dvd_sub (Dvd.dvd.mul_left (Dvd.intro_left 24 rfl) days) whole
  cases period with
  | hour => exact Int.dvd_sub (Int.dvd_mul_left _ _) whole
  | day => exact daily _
  | week => exact daily _
  | month => exact daily _
  | year => exact daily _

theorem startOfDay_eq : startOfDay offset t = dayNumber offset t * dayLength - offset :=
  date_day offset t

theorem dayNumber_startOfDay : dayNumber offset (startOfDay offset t) = dayNumber offset t := by
  rw [startOfDay_eq]
  rw [dayNumber, sub_add_cancel, Int.mul_ediv_cancel _ (by decide)]

theorem startOfWeek_eq :
    startOfWeek offset t = border offset .week (bucketOf offset .week t) := by
  have weekday : weekdayAt offset (startOfDay offset t) = (dayNumber offset t + 4) % 7 := by
    rw [weekdayAt, dayNumber_startOfDay]
  rw [startOfWeek, weekday]
  simp only [addDate_days, startOfDay_eq, border, bucketOf, dayLength]
  split_ifs <;> omega

/-- Each bucket ends where the next one starts. -/
theorem periodEnd_border :
    periodEnd offset period (border offset period k) = border offset period (k + 1) := by
  cases period with
  | hour =>
      simp only [periodEnd, border]
      ring
  | day =>
      simp only [periodEnd, border, addDate_days]
      ring
  | week =>
      simp only [periodEnd, border, addDate_days]
      ring
  | month =>
      simp only [periodEnd, border, addDate_monthBegin]
      congr 1
      ring
  | year =>
      simp only [periodEnd, border, addDate_monthBegin]
      congr 1
      ring

theorem startOfMonth_eq : date offset (yearAt offset t) (monthAt offset t) 1 0 =
    monthBegin offset (monthOf (dayNumber offset t)) := by
  rw [date_month, yearAt, monthAt]
  congr 1
  omega

theorem startOfHour_eq :
    date offset (yearAt offset t) (monthAt offset t) (dayAt offset t) (hourAt offset t) =
      (t + offset) / hourLength * hourLength - offset := by
  have start := date_day offset t
  have more : date offset (yearAt offset t) (monthAt offset t) (dayAt offset t) (hourAt offset t) =
      date offset (yearAt offset t) (monthAt offset t) (dayAt offset t) 0 +
        hourAt offset t * hourLength := by
    simp only [date]
    ring
  rw [more, start, dayNumber, hourAt]
  simp only [dayLength, hourLength]
  omega

/-- The buckets end with the one that holds the current time. -/
theorem periodStarts_eq : periodStarts offset period t =
    (List.range (bucketCount period)).map fun i : ℕ =>
      border offset period (bucketOf offset period t + 1 - bucketCount period + i) := by
  cases period with
  | hour =>
      simp only [periodStarts, bucketCount, border, bucketOf, startOfHour_eq]
      refine List.map_congr_left fun i _ => ?_
      push_cast
      ring
  | day =>
      simp only [periodStarts, bucketCount, startOfDay_eq, addDate_days, border, bucketOf]
      refine List.map_congr_left fun i _ => ?_
      push_cast
      ring
  | week =>
      simp only [periodStarts, bucketCount, startOfWeek_eq, addDate_days, border]
      refine List.map_congr_left fun i _ => ?_
      push_cast
      ring
  | month =>
      simp only [periodStarts, bucketCount, startOfMonth_eq, addDate_monthBegin, border, bucketOf]
      refine List.map_congr_left fun i _ => ?_
      congr 1
      push_cast
      ring
  | year =>
      simp only [periodStarts, bucketCount, date_month, addDate_monthBegin, border, bucketOf]
      refine List.map_congr_left fun i _ => ?_
      congr 1
      push_cast
      ring

variable (offset period t) in
/-- The current time lies in its bucket. -/
theorem bucketOf_spec : border offset period (bucketOf offset period t) ≤ t ∧
    t < border offset period (bucketOf offset period t + 1) := by
  have day : dayNumber offset t = (t + offset) / dayLength := rfl
  rcases monthOf_spec (dayNumber offset t) with ⟨low, high⟩
  cases period with
  | hour =>
      simp only [border, bucketOf, hourLength]
      omega
  | day =>
      simp only [border, bucketOf, day, dayLength]
      omega
  | week =>
      simp only [border, bucketOf, day, dayLength]
      omega
  | month =>
      simp only [border, bucketOf, monthBegin]
      simp only [dayLength] at day ⊢
      omega
  | year =>
      have first : monthStart (12 * yearAt offset t) ≤ monthStart (monthOf (dayNumber offset t)) :=
        monthStart_strictMono.monotone (by rw [yearAt]; omega)
      have last : monthStart (monthOf (dayNumber offset t) + 1) ≤
          monthStart (12 * (yearAt offset t + 1)) :=
        monthStart_strictMono.monotone (by rw [yearAt]; omega)
      simp only [border, bucketOf, monthBegin]
      simp only [dayLength] at day ⊢
      omega

end Grid

section Buckets

variable {start stop : ℤ}

/-- The hours from one to before another. -/
def hoursBetween (first last : ℤ) : List ℤ :=
  (List.range (last - first).toNat).map fun i : ℕ => first + i

theorem mem_hoursBetween {first last hour : ℤ} :
    hour ∈ hoursBetween first last ↔ first ≤ hour ∧ hour < last := by
  rw [hoursBetween, List.mem_map]
  constructor
  · rintro ⟨i, inside, rfl⟩
    rw [List.mem_range] at inside
    omega
  · rintro ⟨low, high⟩
    exact ⟨(hour - first).toNat, List.mem_range.mpr (by omega), by omega⟩

theorem hoursBetween_nodup (first last : ℤ) : (hoursBetween first last).Nodup := by
  refine List.Nodup.map ?_ List.nodup_range
  intro i j same
  simpa using same

/-- The loop of a bucket visits each of its hours once. -/
theorem hours_of_stamps (first last : ℤ) :
    (stamps (first * hourLength) (last * hourLength)).map hourKey = hoursBetween first last := by
  induction isCount : (last - first).toNat generalizing first with
  | zero =>
      have done : ¬first * hourLength < last * hourLength := by
        simp only [hourLength]
        omega
      rw [stamps, if_neg done, hoursBetween, isCount]
      rfl
  | succ count ih =>
      have more : first * hourLength < last * hourLength := by
        simp only [hourLength]
        omega
      have next : first * hourLength + hourLength = (first + 1) * hourLength := by ring
      rw [stamps, if_pos more, List.map_cons, hourKey_mul, next, ih (first + 1) (by omega),
        hoursBetween, hoursBetween, isCount, List.range_succ_eq_map, List.map_cons, List.map_map]
      have rest : (last - (first + 1)).toNat = count := by omega
      rw [rest]
      congr 1
      · simp
      · refine List.map_congr_left fun i _ => ?_
        simp only [Function.comp_apply]
        push_cast
        ring

/-- The rows that `Billing` reads are the rows of the table. -/
theorem get_listBillingHours {hours : HourTable Cost} {since upto hour : ℤ}
    (low : hourKey since ≤ hour) (high : hour < hourKey (upto + hourLength)) :
    ((listBillingHours hours since upto).foldl (fun byHour row => byHour.put row.1 row.2)
      Association.empty).get hour = hours.get hour := by
  have sorted := List.perm_insertionSort (fun first second : ℤ × BillingSums Cost =>
    first.1 ≤ second.1) (hours.entries.filter fun row =>
      hourKey since ≤ row.1 ∧ row.1 < hourKey (upto + hourLength))
  have nodup : ((listBillingHours hours since upto).map (·.1)).Nodup :=
    ((sorted.map _).nodup_iff).mpr (hours.nodup.sublist (List.filter_sublist.map _))
  ext sums
  rw [Association.get_putAll_eq_some_iff nodup, Association.get_eq_some_iff]
  refine sorted.mem_iff.trans (List.mem_filter.trans ?_)
  simp [low, high]

/-- What the hours of a window hold, one after the other. -/
def windowRows [Add Cost] (requests : List (RequestLog Cost)) (since upto : ℤ) :
    List (BillingSums Cost) :=
  (hoursBetween (hourKey since) (hourKey upto)).filterMap fun hour => hourSums hour requests

/-- The sums of the requests of a time window of whole hours. -/
def windowSums [Add Cost] [Zero Cost] (requests : List (RequestLog Cost)) (since upto : ℤ) :
    BillingSums Cost :=
  (windowRows (requests.filter fun request => since ≤ request.ts ∧ request.ts < upto) since
    upto).foldl (· + ·) 0

/-- The numbers of requests and tokens of a time window. -/
def windowCounts (requests : List (RequestLog Cost)) (since upto : ℤ) : BillingSums Unit :=
  sumWhere (·.sums.counts) requests fun request => since ≤ request.ts ∧ request.ts < upto

variable {hours : HourTable Cost} {requests : List (RequestLog Cost)} {offset now : ℤ}
  {period : BillingPeriod}

theorem mem_hours_of_window {instant : ℤ} (starts : hourLength ∣ start) (stops : hourLength ∣ stop) :
    hourKey instant ∈ hoursBetween (hourKey start) (hourKey stop) ↔
      start ≤ instant ∧ instant < stop := by
  rcases starts with ⟨first, rfl⟩
  rcases stops with ⟨last, rfl⟩
  rw [mul_comm hourLength first, mul_comm hourLength last, hourKey_mul, hourKey_mul,
    mem_hoursBetween, hourKey]
  simp only [hourLength]
  omega

/-- An hour of a window has its requests in the window. -/
theorem hourSums_window [Add Cost] {hour : ℤ} (starts : hourLength ∣ start)
    (stops : hourLength ∣ stop) (inside : hour ∈ hoursBetween (hourKey start) (hourKey stop)) :
    hourSums hour (requests.filter fun request => start ≤ request.ts ∧ request.ts < stop) =
      hourSums hour requests := by
  rw [hourSums, hourSums, amountsOf, amountsOf, List.filter_filter]
  congr 2
  refine List.filter_congr fun request _ => ?_
  by_cases isHour : hourKey request.ts = hour
  · have within := (mem_hours_of_window starts stops).mp (isHour ▸ inside)
    simp [isHour, within.1, within.2]
  · simp [isHour]

theorem windowRows_filter [Add Cost] (starts : hourLength ∣ start) (stops : hourLength ∣ stop) :
    windowRows (requests.filter fun request => start ≤ request.ts ∧ request.ts < stop) start stop =
      windowRows requests start stop := by
  apply List.filterMap_congr
  intro hour inside
  exact hourSums_window starts stops inside

/-- The numbers do not depend on the order of addition. -/
theorem counts_windowSums [Add Cost] [Zero Cost] (starts : hourLength ∣ start)
    (stops : hourLength ∣ stop) :
    (windowSums requests start stop).counts = windowCounts requests start stop := by
  have hourly (hour : ℤ) : (hourSums hour requests).elim 0 BillingSums.counts =
      (amountsOf (hourKey ·.ts) (·.sums.counts) hour requests).sum := by
    rw [hourSums, map_sumOf BillingSums.counts_add, amountsOf, amountsOf, List.map_map]
    rfl
  rw [windowSums, windowRows_filter starts stops,
    map_foldl_add BillingSums.counts_zero BillingSums.counts_add, windowRows, sum_map_filterMap]
  simp only [hourly]
  rw [sum_rows _ _ _ (hoursBetween_nodup _ _), windowCounts, sumWhere, sumWhere]
  congr 2
  refine List.filter_congr fun request _ => ?_
  rw [decide_eq_decide]
  exact mem_hours_of_window starts stops

variable [Add Cost] [Zero Cost]

theorem bucketSums_eq (byHour : HourTable Cost) (first last : ℤ) :
    bucketSums byHour (first * hourLength) (last * hourLength) =
      ((hoursBetween first last).filterMap byHour.get).foldl (· + ·) 0 := by
  rw [← hours_of_stamps, List.foldl_filterMap, List.foldl_map, bucketSums]
  congr 1
  funext sums t
  cases byHour.get (hourKey t) <;> rfl

/-- A bucket of whole hours has the requests of its hours. -/
theorem bucketSums_window {byHour : HourTable Cost} (starts : hourLength ∣ start)
    (stops : hourLength ∣ stop)
    (read : ∀ hour, hourKey start ≤ hour → hour < hourKey stop →
      byHour.get hour = hourSums hour requests) :
    bucketSums byHour start stop = windowSums requests start stop := by
  have rows : (hoursBetween (hourKey start) (hourKey stop)).filterMap byHour.get =
      windowRows requests start stop := by
    apply List.filterMap_congr
    intro hour inside
    rw [mem_hoursBetween] at inside
    exact read hour inside.1 inside.2
  rw [windowSums, windowRows_filter starts stops, ← rows]
  rcases starts with ⟨first, rfl⟩
  rcases stops with ⟨last, rfl⟩
  rw [mul_comm hourLength first, mul_comm hourLength last, hourKey_mul, hourKey_mul]
  exact bucketSums_eq byHour first last

/-- The first bucket that is shown. -/
def firstBucket (offset : ℤ) (period : BillingPeriod) (now : ℤ) : ℤ :=
  bucketOf offset period now + 1 - bucketCount period

/-- The borders of the buckets that are shown. -/
def shownBorder (offset : ℤ) (period : BillingPeriod) (now : ℤ) (i : ℕ) : ℤ :=
  border offset period (firstBucket offset period now + i)

variable (offset period now) in
theorem shownBorder_monotone : Monotone (shownBorder offset period now) := by
  intro i j le
  exact (border_strictMono offset period).monotone (by omega)

theorem periodEnd_shownBorder (i : ℕ) : periodEnd offset period (shownBorder offset period now i) =
    shownBorder offset period now (i + 1) := by
  rw [shownBorder, periodEnd_border, shownBorder]
  congr 1
  push_cast
  ring

theorem periodStarts_shown : periodStarts offset period now =
    (List.range (bucketCount period)).map (shownBorder offset period now) :=
  periodStarts_eq

variable (hours offset period now) in
theorem periodView_since : (periodView hours offset period now).since =
    shownBorder offset period now 0 := by
  have first : (periodStarts offset period now).head? = some (shownBorder offset period now 0) := by
    rw [periodStarts_shown]
    cases period <;> rfl
  simp only [periodView, first, Option.getD_some]

variable (hours offset period now) in
theorem periodView_upto : (periodView hours offset period now).upto =
    shownBorder offset period now (bucketCount period) := by
  have last : (periodStarts offset period now).getLast? =
      some (shownBorder offset period now (bucketCount period - 1)) := by
    rw [periodStarts_shown, List.getLast?_map, List.getLast?_range]
    cases period <;> rfl
  have isNext : bucketCount period - 1 + 1 = bucketCount period := by
    cases period <;> rfl
  simp only [periodView, last, Option.getD_some, periodEnd_shownBorder, isNext]

variable (period now) in
/-- Each bucket has the requests of its hours. -/
theorem periodView_buckets_eq (whole : hourLength ∣ offset)
    (sums : ∀ hour, hours.get hour = hourSums hour requests) :
    (periodView hours offset period now).buckets = (List.range (bucketCount period)).map fun i =>
      (⟨hourKey (shownBorder offset period now i), shownBorder offset period now i,
        windowSums requests (shownBorder offset period now i)
          (shownBorder offset period now (i + 1))⟩ : BillingBucket Cost) := by
  have since := periodView_since hours offset now period
  have upto := periodView_upto hours offset now period
  simp only [periodView] at since upto
  simp only [periodView, since, upto]
  rw [periodStarts_shown, List.map_map]
  refine List.map_congr_left fun i inside => ?_
  rw [List.mem_range] at inside
  simp only [Function.comp_apply, periodEnd_shownBorder]
  congr 1
  refine bucketSums_window (dvd_border whole) (dvd_border whole) fun hour low high => ?_
  have early := shownBorder_monotone offset now period (Nat.zero_le i)
  have late := shownBorder_monotone offset now period (Nat.succ_le_of_lt inside)
  rw [get_listBillingHours, sums hour]
  · simp only [hourKey, hourLength] at low high ⊢
    omega
  · simp only [hourKey, hourLength, Nat.succ_eq_add_one] at low high late ⊢
    omega

/-- A bucket has the requests between its start and its end, the totals are those of the whole window,
and an instant of the window lies in exactly one bucket. -/
structure SoundView (requests : List (RequestLog Cost)) (offset : ℤ) (view : BillingView Cost) :
    Prop where
  buckets : ∀ bucket ∈ view.buckets,
    bucket.sums = windowSums requests bucket.start (periodEnd offset view.period bucket.start)
  counts : ∀ bucket ∈ view.buckets, bucket.sums.counts =
    windowCounts requests bucket.start (periodEnd offset view.period bucket.start)
  total : view.sums = (view.buckets.map (·.sums)).foldl (· + ·) 0
  totalCounts : view.sums.counts = windowCounts requests view.since view.upto
  once : ∀ t, view.since ≤ t → t < view.upto →
    (view.buckets.filter fun bucket =>
      bucket.start ≤ t ∧ t < periodEnd offset view.period bucket.start).length = 1

theorem periodView_total : (periodView hours offset period now).sums =
    ((periodView hours offset period now).buckets.map (·.sums)).foldl (· + ·) 0 := by
  rw [List.foldl_map]
  rfl

theorem periodView_sound (whole : hourLength ∣ offset)
    (sums : ∀ hour, hours.get hour = hourSums hour requests) :
    SoundView requests offset (periodView hours offset period now) := by
  have buckets := periodView_buckets_eq now period whole sums
  have isPeriod : (periodView hours offset period now).period = period := rfl
  refine ⟨?_, ?_, periodView_total, ?_, ?_⟩
  · intro bucket shown
    rw [buckets, List.mem_map] at shown
    rcases shown with ⟨i, _, rfl⟩
    rw [isPeriod, periodEnd_shownBorder]
  · intro bucket shown
    rw [buckets, List.mem_map] at shown
    rcases shown with ⟨i, _, rfl⟩
    rw [isPeriod, periodEnd_shownBorder]
    exact counts_windowSums (dvd_border whole) (dvd_border whole)
  · have windows (i : ℕ) : (windowSums requests (shownBorder offset period now i)
        (shownBorder offset period now (i + 1))).counts =
          windowCounts requests (shownBorder offset period now i)
            (shownBorder offset period now (i + 1)) :=
      counts_windowSums (dvd_border whole) (dvd_border whole)
    rw [periodView_total, map_foldl_add BillingSums.counts_zero BillingSums.counts_add, buckets,
      List.map_map, List.map_map, periodView_since, periodView_upto]
    simp only [Function.comp_def, windows]
    exact sum_windows _ _ _ (shownBorder_monotone offset now period) _
  · intro t low high
    rw [periodView_since] at low
    rw [periodView_upto] at high
    rw [buckets, List.filter_map, List.length_map]
    simp only [Function.comp_def, isPeriod, periodEnd_shownBorder]
    exact one_window (shownBorder_monotone offset now period) low high

/-- The window reaches up to the current time. -/
theorem periodView_holds_now : (periodView hours offset period now).since ≤ now ∧
    now < (periodView hours offset period now).upto := by
  rw [periodView_since, periodView_upto]
  rcases bucketOf_spec offset now period with ⟨low, high⟩
  have first : shownBorder offset period now 0 ≤ border offset period (bucketOf offset period now) :=
    (border_strictMono offset period).monotone (by
      rw [firstBucket]
      cases period <;> simp [bucketCount])
  have last : border offset period (bucketOf offset period now + 1) =
      shownBorder offset period now (bucketCount period) := by
    rw [shownBorder, firstBucket]
    congr 1
    ring
  exact ⟨first.trans low, last ▸ high⟩

end Buckets

section ViewOfRuns

variable [AddZeroClass Cost] {old : OldLog Cost} {actions : List (BillingStep Cost)}
  {state : BillingState Cost} {offset now : ℤ}

/-- In a zone that is whole hours from UTC the view of a store shows each request that was counted in
the window in exactly one bucket, after whatever calls of `Log` and restarts. -/
theorem billing_view_of_run (text : TextLibrary) (p : String) (whole : hourLength ∣ offset)
    (ran : exec BillingState.step old.state actions = some state) :
    SoundView state.counted offset (billing text state.hours offset p now) ∧
      (billing text state.hours offset p now).since ≤ now ∧
      now < (billing text state.hours offset p now).upto :=
  ⟨periodView_sound whole (accounted_of_run ran).sums, periodView_holds_now⟩

theorem billing_view_of_interrupted :
    ∃ state, exec BillingState.step twoHoursLog.state interruptedRun = some state ∧
      SoundView state.counted (3 * hourLength)
        (billing asciiText state.hours (3 * hourLength) " Month" 0) ∧
      (billing asciiText state.hours (3 * hourLength) " Month" 0).since ≤ 0 ∧
      0 < (billing asciiText state.hours (3 * hourLength) " Month" 0).upto :=
  ⟨_, rfl, @billing_view_of_run ℤ _ twoHoursLog interruptedRun _ (3 * hourLength) 0 asciiText
    " Month" (Dvd.intro_left 3 rfl) rfl⟩

end ViewOfRuns

end MikroLLM.Store
