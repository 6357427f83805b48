import Mathlib.Data.Int.Order.Basic
import Mathlib.Logic.Function.Basic
import Mathlib.Tactic.Common
import MikroLLM.Domain.Gateway

/-!
# Requests per minute

`AllowRPM` counts the calls of a key in windows of a minute, of which each starts
with the first call after the one before has ended. Times are nanoseconds of a
clock that does not go back.
-/

namespace MikroLLM.Auth

open Domain

/-- `time.Minute`. -/
def minute : ℤ := 60000000000

/-- `auth.bucket`. -/
structure Bucket where
  window : ℤ
  count : ℕ
  deriving DecidableEq

abbrev Buckets := ℕ → Option Bucket

/-- A call of `AllowRPM`, and what the clock says. -/
structure RateCall where
  key : APIKey
  now : ℤ

/-- `Service.AllowRPM`. -/
def allowRPM (buckets : Buckets) (call : RateCall) : Buckets × Bool :=
  if call.key.rpm ≤ 0 then (buckets, true)
  else
    match buckets call.key.id with
    | none => (Function.update buckets call.key.id (some ⟨call.now, 1⟩), true)
    | some bucket =>
        if minute ≤ call.now - bucket.window then
          (Function.update buckets call.key.id (some ⟨call.now, 1⟩), true)
        else if call.key.rpm ≤ bucket.count then (buckets, false)
        else
          (Function.update buckets call.key.id (some { bucket with count := bucket.count + 1 }),
            true)

/-- A call, its answer, and when the window of its key started. -/
structure RateAnswer where
  call : RateCall
  allowed : Bool
  window : Option ℤ

/-- The answer to a call. -/
def rateAnswer (buckets : Buckets) (call : RateCall) : RateAnswer where
  call := call
  allowed := (allowRPM buckets call).2
  window := ((allowRPM buckets call).1 call.key.id).map (·.window)

/-- The buckets after the calls. -/
def bucketsFrom (buckets : Buckets) (calls : List RateCall) : Buckets :=
  calls.foldl (fun buckets call => (allowRPM buckets call).1) buckets

/-- The answers to the calls. -/
def answersFrom (buckets : Buckets) : List RateCall → List RateAnswer
  | [] => []
  | call :: rest => rateAnswer buckets call :: answersFrom (allowRPM buckets call).1 rest

/-- The buckets of a new service. -/
def noBuckets : Buckets := fun _ => none

/-- The answers of a new service. -/
def rateAnswers (calls : List RateCall) : List RateAnswer :=
  answersFrom noBuckets calls

/-- The answers to the calls of a key that were admitted. -/
def admitted (id : ℕ) (answers : List RateAnswer) : List RateAnswer :=
  answers.filter fun answer => answer.call.key.id = id && answer.allowed

/-- How many of the answers were given from an instant on. -/
def countSince (start : ℤ) (answers : List RateAnswer) : ℕ :=
  answers.countP fun answer => start ≤ answer.call.now

/-- How many of the answers were given in the minute from an instant on. -/
def countWithin (start : ℤ) (answers : List RateAnswer) : ℕ :=
  answers.countP fun answer => start ≤ answer.call.now && answer.call.now < start + minute

/-- How many of the answers fall into the window that started at an instant. -/
def countInWindow (start : ℤ) (answers : List RateAnswer) : ℕ :=
  answers.countP fun answer => answer.window = some start

section Counting

variable {start now : ℤ} {answers : List RateAnswer} {answer : RateAnswer}

theorem countSince_append :
    countSince start (answers ++ [answer]) =
      countSince start answers + if start ≤ answer.call.now then 1 else 0 := by
  simp [countSince]

theorem countWithin_append :
    countWithin start (answers ++ [answer]) =
      countWithin start answers +
        if start ≤ answer.call.now ∧ answer.call.now < start + minute then 1 else 0 := by
  simp [countWithin]

theorem countInWindow_append :
    countInWindow start (answers ++ [answer]) =
      countInWindow start answers + if answer.window = some start then 1 else 0 := by
  simp [countInWindow]

theorem countWithin_le : countWithin start answers ≤ countSince start answers := by
  apply List.countP_mono_left
  intro answer _ within
  simp only [Bool.and_eq_true, decide_eq_true_eq] at within ⊢
  exact within.1

theorem countSince_eq_zero (before : ∀ answer ∈ answers, answer.call.now < start) :
    countSince start answers = 0 := by
  apply List.countP_eq_zero.mpr
  intro answer inside late
  have early := before answer inside
  simp only [decide_eq_true_eq] at late
  omega

theorem countInWindow_eq_zero
    (others : ∀ answer ∈ answers, ∃ window < start, answer.window = some window) :
    countInWindow start answers = 0 := by
  apply List.countP_eq_zero.mpr
  intro answer inside same
  rcases others answer inside with ⟨window, before, isWindow⟩
  simp only [decide_eq_true_eq] at same
  rw [isWindow, Option.some.injEq] at same
  omega

end Counting

/-- What is known of the admitted calls of a key with this bucket. -/
structure Tally (rate : ℕ) (opening : ℤ) (count : ℕ) (answers : List RateAnswer) : Prop where
  count_pos : 0 < count
  count_le : count ≤ rate
  opened : ∃ answer ∈ answers, answer.call.now = opening
  windows : ∀ answer ∈ answers, ∃ window ≤ opening, answer.window = some window
  inWindow : countInWindow opening answers = count
  inOther : ∀ start, countInWindow start answers ≤ rate
  since : count ≤ countSince opening answers
  after : ∀ start, opening < start → countSince start answers ≤ count - 1
  recent : ∀ start, opening - minute < start →
    countSince start answers ≤ rate - 1 + count
  within : ∀ start, countWithin start answers ≤ 2 * rate - 1

section Admitting

variable {rate count : ℕ} {opening : ℤ} {answers : List RateAnswer} {answer : RateAnswer}

/-- A call that starts a window. -/
theorem Tally.start (answer : RateAnswer) (positive : 0 < rate) (opens : answer.window = some answer.call.now)
    (before : ∀ old ∈ answers, old.call.now ≤ answer.call.now)
    (windows : ∀ old ∈ answers, ∃ window < answer.call.now, old.window = some window)
    (inOther : ∀ start, countInWindow start answers ≤ rate)
    (recent : ∀ start, answer.call.now - minute < start → countSince start answers ≤ rate - 1)
    (within : ∀ start, countWithin start answers ≤ 2 * rate - 1) :
    Tally rate answer.call.now 1 (answers ++ [answer]) := by
  have fresh : countInWindow answer.call.now answers = 0 := countInWindow_eq_zero windows
  constructor
  · exact Nat.one_pos
  · exact positive
  · exact ⟨answer, by simp, rfl⟩
  · intro old inside
    rcases List.mem_append.mp inside with earlier | last
    · rcases windows old earlier with ⟨window, less, isWindow⟩
      exact ⟨window, less.le, isWindow⟩
    · rw [List.mem_singleton.mp last]
      exact ⟨answer.call.now, le_refl _, opens⟩
  · rw [countInWindow_append, fresh, if_pos opens]
  · intro start
    rw [countInWindow_append]
    split
    · rename_i same
      rw [opens, Option.some.injEq] at same
      rw [← same, fresh]
      omega
    · exact inOther start
  · rw [countSince_append, if_pos (le_refl _)]
    omega
  · intro start later
    have none : countSince start answers = 0 := by
      apply countSince_eq_zero
      intro old inside
      exact lt_of_le_of_lt (before old inside) later
    rw [countSince_append, none, if_neg (not_le.mpr later)]
  · intro start later
    have few := recent start later
    rw [countSince_append]
    split <;> omega
  · intro start
    rw [countWithin_append]
    split
    · rename_i inside
      have few := recent start (by omega)
      have fewer : countWithin start answers ≤ countSince start answers := countWithin_le
      omega
    · exact within start

/-- A call in the window of the bucket. -/
theorem Tally.next (tally : Tally rate opening count answers) (room : count < rate)
    (same : answer.window = some opening) (after : opening ≤ answer.call.now) :
    Tally rate opening (count + 1) (answers ++ [answer]) := by
  have positive := tally.count_pos
  constructor
  · exact Nat.succ_pos _
  · exact room
  · rcases tally.opened with ⟨first, inside, opens⟩
    exact ⟨first, List.mem_append_left _ inside, opens⟩
  · intro old inside
    rcases List.mem_append.mp inside with earlier | last
    · exact tally.windows old earlier
    · rw [List.mem_singleton.mp last]
      exact ⟨opening, le_refl _, same⟩
  · rw [countInWindow_append, tally.inWindow, if_pos same]
  · intro start
    rw [countInWindow_append]
    split
    · rename_i isStart
      rw [same, Option.some.injEq] at isStart
      rw [← isStart, tally.inWindow]
      exact room
    · exact tally.inOther start
  · have many := tally.since
    rw [countSince_append, if_pos after]
    omega
  · intro start later
    have few := tally.after start later
    rw [countSince_append]
    split <;> omega
  · intro start later
    have few := tally.recent start later
    rw [countSince_append]
    split <;> omega
  · intro start
    rw [countWithin_append]
    split
    · rename_i inside
      have few := tally.recent start (by omega)
      have fewer : countWithin start answers ≤ countSince start answers := countWithin_le
      omega
    · exact tally.within start

end Admitting

section Answering

variable {id rate : ℕ} {buckets : Buckets} {call : RateCall} {calls before : List RateCall}

theorem bucketsFrom_append :
    bucketsFrom buckets (calls ++ [call]) = (allowRPM (bucketsFrom buckets calls) call).1 := by
  rw [bucketsFrom, List.foldl_append]
  rfl

theorem answersFrom_append :
    answersFrom buckets (calls ++ [call]) =
      answersFrom buckets calls ++ [rateAnswer (bucketsFrom buckets calls) call] := by
  induction calls generalizing buckets with
  | nil => rfl
  | cons first rest ih => exact congrArg (rateAnswer buckets first :: ·) ih

theorem answersFrom_calls : (answersFrom buckets calls).map (·.call) = calls := by
  induction calls generalizing buckets with
  | nil => rfl
  | cons call rest ih => exact congrArg (call :: ·) ih

/-- A call leaves the buckets of the other keys. -/
theorem allowRPM_other (other : call.key.id ≠ id) : (allowRPM buckets call).1 id = buckets id := by
  rw [allowRPM]
  split
  · rfl
  · split
    · exact Function.update_of_ne other.symm _ _
    · split
      · exact Function.update_of_ne other.symm _ _
      · split
        · rfl
        · exact Function.update_of_ne other.symm _ _

/-- A call sees the bucket of its own key only. -/
theorem allowRPM_own {others : Buckets} (same : buckets call.key.id = others call.key.id) :
    (allowRPM buckets call).2 = (allowRPM others call).2 ∧
      (allowRPM buckets call).1 call.key.id = (allowRPM others call).1 call.key.id := by
  have updated : ∀ bucket : Bucket, Function.update buckets call.key.id (some bucket) call.key.id =
      Function.update others call.key.id (some bucket) call.key.id := by
    intro bucket
    rw [Function.update_self, Function.update_self]
  simp only [allowRPM]
  split
  · exact ⟨rfl, same⟩
  · rw [same]
    split
    · exact ⟨rfl, updated _⟩
    · split
      · exact ⟨rfl, updated _⟩
      · split
        · exact ⟨rfl, same⟩
        · exact ⟨rfl, updated _⟩

/-- What a call of a limited key does: it starts a window, it is one more of its window, or it is
refused. -/
theorem allowRPM_cases (buckets : Buckets) (positive : 0 < rate) (limit : call.key.rpm = rate) :
    ((buckets call.key.id = none ∨
        ∃ bucket, buckets call.key.id = some bucket ∧ minute ≤ call.now - bucket.window) ∧
      allowRPM buckets call = (Function.update buckets call.key.id (some ⟨call.now, 1⟩), true)) ∨
    ∃ bucket, buckets call.key.id = some bucket ∧ call.now - bucket.window < minute ∧
      ((bucket.count < rate ∧ allowRPM buckets call =
          (Function.update buckets call.key.id
            (some { bucket with count := bucket.count + 1 }), true)) ∨
        (rate ≤ bucket.count ∧ allowRPM buckets call = (buckets, false))) := by
  have limited : ¬call.key.rpm ≤ 0 := by omega
  rw [allowRPM, if_neg limited, limit]
  cases found : buckets call.key.id with
  | none => exact Or.inl ⟨Or.inl rfl, rfl⟩
  | some bucket =>
      by_cases expired : minute ≤ call.now - bucket.window
      · simp only [if_pos expired]
        exact Or.inl ⟨Or.inr ⟨bucket, rfl, expired⟩, trivial⟩
      · simp only [if_neg expired]
        refine Or.inr ⟨bucket, rfl, not_le.mp expired, ?_⟩
        by_cases full : (rate : ℤ) ≤ bucket.count
        · exact Or.inr ⟨by omega, if_pos full⟩
        · exact Or.inl ⟨by omega, if_neg full⟩

/-- What the bucket of a key says of the calls that were admitted. -/
def Tallied (id rate : ℕ) (calls : List RateCall) : Prop :=
  match bucketsFrom noBuckets calls id with
  | none => admitted id (rateAnswers calls) = []
  | some bucket => Tally rate bucket.window bucket.count (admitted id (rateAnswers calls))

theorem Tallied.nothing (tallied : Tallied id rate calls)
    (noBucket : bucketsFrom noBuckets calls id = none) : admitted id (rateAnswers calls) = [] := by
  rw [Tallied, noBucket] at tallied
  exact tallied

theorem Tallied.tally {bucket : Bucket} (tallied : Tallied id rate calls)
    (found : bucketsFrom noBuckets calls id = some bucket) :
    Tally rate bucket.window bucket.count (admitted id (rateAnswers calls)) := by
  rw [Tallied, found] at tallied
  exact tallied

theorem Tallied.of_tally {bucket : Bucket} (found : bucketsFrom noBuckets calls id = some bucket)
    (tally : Tally rate bucket.window bucket.count (admitted id (rateAnswers calls))) :
    Tallied id rate calls := by
  rw [Tallied, found]
  exact tally

theorem admitted_call (own : call.key.id = id)
    (allowed : (allowRPM (bucketsFrom noBuckets calls) call).2 = true) :
    admitted id (rateAnswers (calls ++ [call])) =
      admitted id (rateAnswers calls) ++ [rateAnswer (bucketsFrom noBuckets calls) call] := by
  rw [rateAnswers, answersFrom_append, admitted, List.filter_append]
  exact congrArg (_ ++ ·) (List.filter_cons_of_pos (by simp [rateAnswer, own, allowed]))

theorem admitted_other (other : call.key.id ≠ id ∨
      (allowRPM (bucketsFrom noBuckets calls) call).2 = false) :
    admitted id (rateAnswers (calls ++ [call])) = admitted id (rateAnswers calls) := by
  have left : (decide (call.key.id = id) &&
      (allowRPM (bucketsFrom noBuckets calls) call).2) = false := by
    rcases other with foreign | refused
    · simp [foreign]
    · simp [refused]
  rw [rateAnswers, answersFrom_append, admitted, List.filter_append]
  refine (congrArg (_ ++ ·) (List.filter_cons_of_neg ?_)).trans (List.append_nil _)
  exact (Bool.eq_false_iff.mp left)

variable (id) in
theorem now_le_of_admitted {last : ℤ} (earlier : ∀ call ∈ calls, call.now ≤ last) :
    ∀ answer ∈ admitted id (rateAnswers calls), answer.call.now ≤ last := by
  intro answer inside
  apply earlier
  have listed := List.mem_map_of_mem (f := (·.call)) (List.mem_of_mem_filter inside)
  rwa [rateAnswers, answersFrom_calls] at listed

/-- One call, at the end. -/
theorem Tallied.step (positive : 0 < rate) (tallied : Tallied id rate calls)
    (fixed : call.key.id = id → call.key.rpm = rate)
    (earlier : ∀ old ∈ calls, old.now ≤ call.now) : Tallied id rate (calls ++ [call]) := by
  by_cases own : call.key.id = id
  · have before := now_le_of_admitted id earlier
    rcases allowRPM_cases (bucketsFrom noBuckets calls) positive (fixed own) with
      ⟨starts, result⟩ | ⟨bucket, found, soon, ⟨room, result⟩ | ⟨full, result⟩⟩
    · have found : bucketsFrom noBuckets (calls ++ [call]) id = some ⟨call.now, 1⟩ := by
        rw [bucketsFrom_append, result, ← own]
        exact Function.update_self _ _ _
      have answer : rateAnswer (bucketsFrom noBuckets calls) call = ⟨call, true, call.now⟩ := by
        simp [rateAnswer, result]
      apply Tallied.of_tally found
      rw [admitted_call own (by rw [result]), answer]
      rcases starts with noBucket | ⟨bucket, old, expired⟩
      · rw [own] at noBucket
        rw [tallied.nothing noBucket]
        apply Tally.start ⟨call, true, call.now⟩ positive rfl <;> simp [countInWindow, countSince, countWithin]
      · rw [own] at old
        have tally := tallied.tally old
        have waits : 0 < minute := by decide
        apply Tally.start ⟨call, true, call.now⟩ positive rfl before
        · intro old inside
          rcases tally.windows old inside with ⟨window, le, isWindow⟩
          exact ⟨window, by simp only; omega, isWindow⟩
        · exact tally.inOther
        · intro start later
          have few := tally.after start (by simp only at later; omega)
          have limit := tally.count_le
          omega
        · exact tally.within
    · rw [own] at found
      have tally := tallied.tally found
      have counted : bucketsFrom noBuckets (calls ++ [call]) id =
          some ⟨bucket.window, bucket.count + 1⟩ := by
        rw [bucketsFrom_append, result, ← own]
        exact Function.update_self _ _ _
      have answer : rateAnswer (bucketsFrom noBuckets calls) call =
          ⟨call, true, bucket.window⟩ := by
        simp [rateAnswer, result]
      apply Tallied.of_tally counted
      rw [admitted_call own (by rw [result]), answer]
      rcases tally.opened with ⟨first, inside, opens⟩
      apply tally.next room rfl
      rw [← opens]
      exact before first inside
    · rw [own] at found
      have same : bucketsFrom noBuckets (calls ++ [call]) id = some bucket := by
        rw [bucketsFrom_append, result]
        exact found
      apply Tallied.of_tally same
      rw [admitted_other (Or.inr (by rw [result]))]
      exact tallied.tally found
  · rw [Tallied, bucketsFrom_append, allowRPM_other own, admitted_other (Or.inl own)]
    exact tallied

theorem tallied_run (positive : 0 < rate)
    (fixed : ∀ call ∈ calls, call.key.id = id → call.key.rpm = rate)
    (forward : calls.Pairwise (·.now ≤ ·.now)) : Tallied id rate calls := by
  induction calls using List.reverseRecOn with
  | nil => rfl
  | append_singleton calls call ih =>
      rw [List.pairwise_append] at forward
      apply Tallied.step positive
      · exact ih (fun old inside => fixed old (List.mem_append_left _ inside)) forward.1
      · exact fixed call (by simp)
      · exact fun old inside => forward.2.2 old inside call (by simp)

/-- A key is refused only when its calls of the last minute have used up its rate. -/
theorem Tallied.refused (positive : 0 < rate) (tallied : Tallied id rate before)
    (own : call.key.id = id) (limit : call.key.rpm = rate)
    (refused : (rateAnswer (bucketsFrom noBuckets before) call).allowed = false) :
    rate ≤ (admitted id (rateAnswers before)).countP
      fun old => call.now - old.call.now < minute := by
  rcases allowRPM_cases (bucketsFrom noBuckets before) positive limit with
    ⟨_, result⟩ | ⟨bucket, found, soon, ⟨_, result⟩ | ⟨full, _⟩⟩
  · simp [rateAnswer, result] at refused
  · simp [rateAnswer, result] at refused
  · rw [own] at found
    have tally := tallied.tally found
    calc rate ≤ bucket.count := full
      _ ≤ countSince bucket.window (admitted id (rateAnswers before)) := tally.since
      _ ≤ _ := by
          apply List.countP_mono_left
          intro old _ late
          simp only [decide_eq_true_eq] at late ⊢
          omega

/-- The answers of a key are those of its own calls. -/
theorem answersFrom_filter (id : ℕ) {others : Buckets} (same : buckets id = others id)
    (calls : List RateCall) :
    (answersFrom buckets calls).filter (·.call.key.id = id) =
      answersFrom others (calls.filter (·.key.id = id)) := by
  induction calls generalizing buckets others with
  | nil => rfl
  | cons call rest ih =>
      rw [answersFrom]
      by_cases own : call.key.id = id
      · have sameOwn : buckets call.key.id = others call.key.id := by
          rw [own, same]
        have agree := allowRPM_own sameOwn
        have answer : rateAnswer buckets call = rateAnswer others call := by
          rw [rateAnswer, rateAnswer, agree.1, agree.2]
        rw [List.filter_cons_of_pos (by simp [rateAnswer, own]),
          List.filter_cons_of_pos (by simp [own]), answersFrom, answer]
        rw [own] at agree
        rw [ih agree.2]
      · rw [List.filter_cons_of_neg (by simp [rateAnswer, own]),
          List.filter_cons_of_neg (by simp [own])]
        apply ih
        rw [allowRPM_other own]
        exact same

end Answering

/-- Of the calls of a key with a rate, in any minute fewer than twice the rate are admitted, and in
any window of its bucket no more than the rate; one is refused only when the rate is used up by
those admitted in the minute before it; the calls of other keys do not matter. -/
theorem rate_limited {id rate : ℕ} {calls : List RateCall} (positive : 0 < rate)
    (fixed : ∀ call ∈ calls, call.key.id = id → call.key.rpm = rate)
    (forward : calls.Pairwise (·.now ≤ ·.now)) :
    (∀ start, countWithin start (admitted id (rateAnswers calls)) ≤ 2 * rate - 1) ∧
      (∀ start, countInWindow start (admitted id (rateAnswers calls)) ≤ rate) ∧
      (∀ before call after, calls = before ++ call :: after → call.key.id = id →
        (rateAnswer (bucketsFrom noBuckets before) call).allowed = false →
          rate ≤ (admitted id (rateAnswers before)).countP
            fun old => call.now - old.call.now < minute) ∧
      (rateAnswers calls).filter (·.call.key.id = id) =
        rateAnswers (calls.filter (·.key.id = id)) := by
  have tallied := tallied_run positive fixed forward
  refine ⟨?_, ?_, ?_, answersFrom_filter id rfl calls⟩
  · intro start
    cases found : bucketsFrom noBuckets calls id with
    | none =>
        rw [tallied.nothing found]
        exact Nat.zero_le _
    | some bucket => exact (tallied.tally found).within start
  · intro start
    cases found : bucketsFrom noBuckets calls id with
    | none =>
        rw [tallied.nothing found]
        exact Nat.zero_le _
    | some bucket => exact (tallied.tally found).inOther start
  · rintro before call after rfl own refused
    rw [List.pairwise_append] at forward
    have earlier : Tallied id rate before :=
      tallied_run positive (fun old inside => fixed old (List.mem_append_left _ inside)) forward.1
    exact earlier.refused positive own (fixed call (by simp) own) refused

/-- A key with two requests a minute. -/
def slowKey : APIKey := ⟨7, "slow", "mk-7", [], 2, true⟩

/-- Three calls within a second, and one two minutes later. -/
theorem rate_limited_slowKey :
    countWithin 0 (admitted 7 (rateAnswers [⟨slowKey, 0⟩, ⟨slowKey, 5⟩, ⟨slowKey, 9⟩,
      ⟨slowKey, 2 * minute⟩])) ≤ 3 :=
  (@rate_limited 7 2 _ Nat.two_pos (by decide) (by decide)).1 0

end MikroLLM.Auth
