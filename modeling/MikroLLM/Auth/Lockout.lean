import Mathlib.Data.Int.Order.Basic
import Mathlib.Data.List.Induction
import Mathlib.Data.Nat.Basic
import Mathlib.Tactic.Common
import MikroLLM.Library.Association

/-!
# Failed logins

After five failures an address is blocked until the window ends that its first
failure opened. The table has the windows of all addresses. Times are
nanoseconds of a clock that does not go back.
-/

namespace MikroLLM.Auth

open Library

/-- `auth.fail`. -/
structure Fail where
  untilTime : ℤ
  n : ℕ
  deriving DecidableEq

/-- The table `fails`. -/
abbrev Fails := Association String Fail

/-- `loginWindow`, ten minutes. -/
def loginWindow : ℤ := 600000000000

/-- `loginMaxFails`. -/
def loginMaxFails : ℕ := 5

/-- `pruneFailsLocked`. -/
def pruneFails (fails : Fails) (now : ℤ) : Fails :=
  fails.keep fun entry => now ≤ entry.2.untilTime

/-- `Service.LoginBlocked`. -/
def loginBlocked (fails : Fails) (ip : String) (now : ℤ) : Fails × Bool :=
  let pruned := pruneFails fails now
  match pruned.get ip with
  | none => (pruned, false)
  | some fail => (pruned, loginMaxFails ≤ fail.n)

/-- `Service.RecordLogin`. The clock is read once more when a window opens. -/
def recordLogin (fails : Fails) (ip : String) (ok : Bool) (now opened : ℤ) : Fails :=
  let pruned := pruneFails fails now
  if ok then pruned.erase ip
  else
    match pruned.get ip with
    | none =>
        let room := if pruned.size > 8192 then Association.empty else pruned
        room.put ip ⟨opened + loginWindow, 1⟩
    | some fail => pruned.put ip { fail with n := fail.n + 1 }

/-- A call, with what it reads from the clock. -/
inductive LoginCall
  | blocked (ip : String) (now : ℤ)
  | record (ip : String) (ok : Bool) (now opened : ℤ)
  deriving DecidableEq

def LoginCall.readings : LoginCall → List ℤ
  | .blocked _ now => [now]
  | .record _ _ now opened => [now, opened]

/-- The table after a call. -/
def loginStep (fails : Fails) : LoginCall → Fails
  | .blocked ip now => (loginBlocked fails ip now).1
  | .record ip ok now opened => recordLogin fails ip ok now opened

/-- The table of a new service after the calls. -/
def failsAfter (calls : List LoginCall) : Fails :=
  calls.foldl loginStep Association.empty

/-- What a call does to the window of an address, if there are no others. -/
def windowStep (ip : String) (window : Option Fail) : LoginCall → Option Fail
  | .blocked _ _ => window
  | .record other ok now opened =>
      if other ≠ ip then window
      else if ok then none
      else
        match window.filter (now ≤ ·.untilTime) with
        | none => some ⟨opened + loginWindow, 1⟩
        | some fail => some { fail with n := fail.n + 1 }

/-- The window of an address with its failures, none after a success. -/
def windowOf (ip : String) (calls : List LoginCall) : Option Fail :=
  calls.foldl (windowStep ip) none

/-- The window of the address is open and has five failures. -/
def Locked (ip : String) (calls : List LoginCall) (now : ℤ) : Prop :=
  ∃ fail, windowOf ip calls = some fail ∧ now ≤ fail.untilTime ∧ loginMaxFails ≤ fail.n

/-- What a call does to the failures of an address since its last success. -/
def failureStep (ip : String) (failures : List ℤ) : LoginCall → List ℤ
  | .blocked _ _ => failures
  | .record other ok _ opened =>
      if other ≠ ip then failures else if ok then [] else failures ++ [opened]

/-- When the failures of an address were that it had since its last success. -/
def failuresOf (ip : String) (calls : List LoginCall) : List ℤ :=
  calls.foldl (failureStep ip) []

/-- The call does not empty the table. -/
def HasRoom (fails : Fails) : LoginCall → Prop
  | .blocked _ _ => True
  | .record ip ok now _ =>
      ok = false → (pruneFails fails now).get ip = none → (pruneFails fails now).size ≤ 8192

/-- The window of the address is open. -/
def OpenAt (ip : String) (calls : List LoginCall) (now : ℤ) : Prop :=
  ∃ fail, windowOf ip calls = some fail ∧ now ≤ fail.untilTime

/-- Since the last success of the address, no call empties the table while its window is open. -/
def KeepsWindow (ip : String) (calls : List LoginCall) : Prop :=
  ∀ before other ok now opened after, calls = before ++ .record other ok now opened :: after →
    (∀ read again, LoginCall.record ip true read again ∉ after) → OpenAt ip before now →
      HasRoom (failsAfter before) (.record other ok now opened)

/-- What the calls read is not later than an instant. -/
def Past (calls : List LoginCall) (now : ℤ) : Prop :=
  ∀ call ∈ calls, ∀ reading ∈ call.readings, reading ≤ now

/-- The clock does not go back. -/
def Forward (calls : List LoginCall) : Prop :=
  (calls.flatMap LoginCall.readings).Pairwise (· ≤ ·)

section Recording

variable {ip other : String} {ok : Bool} {now opened later : ℤ} {fails : Fails} {fail : Fail}
  {calls : List LoginCall} {call : LoginCall}

theorem get_pruneFails : (pruneFails fails now).get ip = (fails.get ip).filter (now ≤ ·.untilTime) :=
  Association.get_keep _

/-- Windows that have ended do not come back. -/
theorem filter_pruneFails (after : now ≤ later) :
    ((pruneFails fails now).get ip).filter (later ≤ ·.untilTime) =
      (fails.get ip).filter (later ≤ ·.untilTime) := by
  rw [get_pruneFails, Option.filter_filter]
  congr 1
  funext fail
  have open_of_open : later ≤ fail.untilTime → now ≤ fail.untilTime := le_trans after
  simpa using open_of_open

theorem loginBlocked_fst : (loginBlocked fails ip now).1 = pruneFails fails now := by
  rw [loginBlocked]
  split <;> rfl

theorem loginBlocked_iff : (loginBlocked fails ip now).2 = true ↔
    ∃ fail, (fails.get ip).filter (now ≤ ·.untilTime) = some fail ∧ loginMaxFails ≤ fail.n := by
  rw [loginBlocked, get_pruneFails]
  split
  · rename_i none
    simp [none]
  · rename_i fail found
    simp [found]

theorem get_recordLogin_ok : (recordLogin fails ip true now opened).get ip = none := by
  rw [recordLogin, if_pos rfl]
  exact Association.get_erase_self

theorem get_recordLogin_fail : (recordLogin fails ip false now opened).get ip =
    match (fails.get ip).filter (now ≤ ·.untilTime) with
    | none => some ⟨opened + loginWindow, 1⟩
    | some fail => some { fail with n := fail.n + 1 } := by
  simp only [recordLogin, Bool.false_eq_true, if_false]
  rw [← get_pruneFails]
  split
  · exact Association.get_put_self
  · exact Association.get_put_self

variable (ok opened) in
/-- What is left of the window of another address. -/
theorem get_recordLogin_other (differs : other ≠ ip) :
    (recordLogin fails ip ok now opened).get other = (pruneFails fails now).get other ∨
      ((recordLogin fails ip ok now opened).get other = none ∧
        ¬HasRoom fails (.record ip ok now opened)) := by
  rw [recordLogin]
  cases ok with
  | true => exact Or.inl (Association.get_erase_other differs)
  | false =>
      simp only [Bool.false_eq_true, if_false]
      split
      · rename_i absent
        rw [Association.get_put_other differs]
        split
        · rename_i full
          refine Or.inr ⟨Association.get_empty, ?_⟩
          intro room
          exact absurd (room rfl absent) (Nat.not_le.mpr full)
        · exact Or.inl rfl
      · exact Or.inl (Association.get_put_other differs)

end Recording

section Running

variable {ip : String} {now : ℤ} {calls : List LoginCall} {call : LoginCall}

theorem failsAfter_append :
    failsAfter (calls ++ [call]) = loginStep (failsAfter calls) call := by
  rw [failsAfter, List.foldl_append]
  rfl

theorem windowOf_append :
    windowOf ip (calls ++ [call]) = windowStep ip (windowOf ip calls) call := by
  rw [windowOf, List.foldl_append]
  rfl

theorem Forward.init (forward : Forward (calls ++ [call])) : Forward calls := by
  rw [Forward, List.flatMap_append, List.pairwise_append] at forward
  exact forward.1

theorem Forward.last (forward : Forward (calls ++ [call])) {reading : ℤ}
    (read : reading ∈ call.readings) : Past calls reading := by
  rw [Forward, List.flatMap_append, List.pairwise_append] at forward
  intro old inside oldReading oldRead
  exact forward.2.2 oldReading (List.mem_flatMap.mpr ⟨old, inside, oldRead⟩) reading
    (List.mem_flatMap.mpr ⟨call, List.mem_singleton_self call, read⟩)

theorem Past.last (past : Past (calls ++ [call]) now) {reading : ℤ}
    (read : reading ∈ call.readings) : reading ≤ now :=
  past call (by simp) reading read

/-- From some instant on the table has what the address did itself. -/
def Agrees (ip : String) (calls : List LoginCall) : Prop :=
  ∀ now, Past calls now →
    ((failsAfter calls).get ip).filter (now ≤ ·.untilTime) =
      (windowOf ip calls).filter (now ≤ ·.untilTime)

theorem filter_eq_none_of_not_openAt {read : ℤ} (closed : ¬OpenAt ip calls read)
    (after : read ≤ now) : (windowOf ip calls).filter (now ≤ ·.untilTime) = none := by
  rw [Option.filter_eq_none_iff]
  intro fail found isOpen
  exact closed ⟨fail, found, le_trans after (by simpa using isOpen)⟩

/-- After a success nothing is left. -/
theorem agrees_success (read again : ℤ) : Agrees ip (calls ++ [.record ip true read again]) := by
  intro now _
  rw [failsAfter_append, windowOf_append, loginStep, windowStep, get_recordLogin_ok,
    if_neg (not_not.mpr rfl), if_pos rfl]

/-- A call that keeps the window of the address. -/
theorem Agrees.step (agrees : Agrees ip calls) (forward : Forward (calls ++ [call]))
    (keeps : KeepsWindow ip (calls ++ [call])) : Agrees ip (calls ++ [call]) := by
  cases call with
  | blocked other read =>
      intro now past
      have pastBefore : Past calls now := fun old inside => past old (List.mem_append_left _ inside)
      have after : read ≤ now := past.last (by simp [LoginCall.readings])
      rw [failsAfter_append, windowOf_append, loginStep, loginBlocked_fst, filter_pruneFails after]
      exact agrees now pastBefore
  | record other ok read opened =>
      by_cases differs : other = ip
      · subst differs
        cases ok with
        | true => exact agrees_success read opened
        | false =>
            intro now past
            have pastRead : Past calls read := forward.last (by simp [LoginCall.readings])
            rw [failsAfter_append, windowOf_append, loginStep, windowStep,
              if_neg (not_not.mpr rfl), get_recordLogin_fail, agrees read pastRead,
              if_neg Bool.false_ne_true]
      · intro now past
        have pastBefore : Past calls now :=
          fun old inside => past old (List.mem_append_left _ inside)
        have after : read ≤ now := past.last (by simp [LoginCall.readings])
        rw [failsAfter_append, windowOf_append, loginStep, windowStep, if_pos differs]
        rcases get_recordLogin_other ok opened (Ne.symm differs) with kept | ⟨gone, full⟩
        · rw [kept, filter_pruneFails after]
          exact agrees now pastBefore
        · -- The table is emptied, so no window of the address is open.
          have closed : ¬OpenAt ip calls read := fun isOpen =>
            full (keeps calls other ok read opened [] rfl (fun _ _ => List.not_mem_nil) isOpen)
          rw [gone, filter_eq_none_of_not_openAt closed after, Option.filter_none]

theorem KeepsWindow.init (keeps : KeepsWindow ip (calls ++ [call]))
    (noSuccess : ∀ read again, call ≠ .record ip true read again) : KeepsWindow ip calls := by
  intro before other ok now opened after parts since isOpen
  refine keeps before other ok now opened (after ++ [call]) (by simp [parts]) ?_ isOpen
  intro read again inside
  rcases List.mem_append.mp inside with listed | isLast
  · exact since read again listed
  · exact noSuccess read again (List.mem_singleton.mp isLast).symm

theorem agrees_run (forward : Forward calls) (keeps : KeepsWindow ip calls) : Agrees ip calls := by
  induction calls using List.reverseRecOn with
  | nil =>
      intro now _
      rfl
  | append_singleton calls call ih =>
      by_cases succeeds : ∃ read again, call = .record ip true read again
      · rcases succeeds with ⟨read, again, rfl⟩
        exact agrees_success read again
      · have before : KeepsWindow ip calls :=
          keeps.init fun read again same => succeeds ⟨read, again, same⟩
        exact (ih forward.init before).step forward keeps

theorem failuresOf_append :
    failuresOf ip (calls ++ [call]) = failureStep ip (failuresOf ip calls) call := by
  rw [failuresOf, List.foldl_append]
  rfl

theorem failuresOf_read : ∀ failure ∈ failuresOf ip calls,
    ∃ call ∈ calls, failure ∈ call.readings := by
  induction calls using List.reverseRecOn with
  | nil =>
      intro failure inside
      cases inside
  | append_singleton calls call ih =>
      intro failure inside
      have before : failure ∈ failuresOf ip calls → ∃ old ∈ calls ++ [call],
          failure ∈ old.readings := by
        intro listed
        rcases ih failure listed with ⟨old, called, read⟩
        exact ⟨old, List.mem_append_left _ called, read⟩
      rw [failuresOf_append] at inside
      cases call with
      | blocked other now => exact before inside
      | record other ok now opened =>
          rw [failureStep] at inside
          split at inside
          · exact before inside
          · split at inside
            · cases inside
            · rcases List.mem_append.mp inside with listed | isLast
              · exact before listed
              · rw [List.mem_singleton.mp isLast]
                exact ⟨.record other ok now opened, by simp, by simp [LoginCall.readings]⟩

/-- What the table says of an address comes of its own failures. -/
def Owned (ip : String) (calls : List LoginCall) : Prop :=
  ∀ fail, (failsAfter calls).get ip = some fail →
    (∃ opened ∈ failuresOf ip calls, fail.untilTime = opened + loginWindow) ∧
      fail.n ≤ (failuresOf ip calls).countP (fail.untilTime ≤ · + loginWindow)

theorem Owned.step (owned : Owned ip calls) (forward : Forward (calls ++ [call])) :
    Owned ip (calls ++ [call]) := by
  intro fail found
  have pruned : ∀ now, (pruneFails (failsAfter calls) now).get ip = some fail →
      (failsAfter calls).get ip = some fail := by
    intro now kept
    rw [get_pruneFails, Option.filter_eq_some_iff] at kept
    exact kept.1
  rw [failsAfter_append] at found
  rw [failuresOf_append]
  cases call with
  | blocked other now =>
      rw [loginStep, loginBlocked_fst] at found
      exact owned fail (pruned now found)
  | record other ok now opened =>
      rw [loginStep] at found
      rw [failureStep]
      by_cases differs : other = ip
      · rw [if_neg (not_not.mpr differs)]
        rw [differs] at found
        cases ok with
        | true =>
            rw [get_recordLogin_ok] at found
            cases found
        | false =>
            rw [if_neg Bool.false_ne_true, List.countP_append]
            rw [get_recordLogin_fail] at found
            split at found
            · rw [Option.some.injEq] at found
              rw [← found]
              refine ⟨⟨opened, by simp, rfl⟩, ?_⟩
              rw [List.countP_singleton, if_pos (decide_eq_true (le_refl _))]
              exact Nat.le_add_left 1 _
            · rename_i old kept
              rw [Option.filter_eq_some_iff] at kept
              rw [Option.some.injEq] at found
              rw [← found]
              rcases owned old kept.1 with ⟨⟨first, listed, isUntil⟩, counted⟩
              refine ⟨⟨first, List.mem_append_left _ listed, isUntil⟩, ?_⟩
              have soon : old.untilTime ≤ opened + loginWindow := by
                rcases failuresOf_read first listed with ⟨earlier, called, read⟩
                have le : first ≤ opened :=
                  forward.last (by simp [LoginCall.readings]) earlier called first read
                rw [isUntil]
                exact Int.add_le_add_right le loginWindow
              rw [List.countP_singleton, if_pos (decide_eq_true soon)]
              exact Nat.succ_le_succ counted
      · rw [if_pos differs]
        rcases get_recordLogin_other ok opened (Ne.symm differs) with
          kept | ⟨gone, _⟩
        · rw [kept] at found
          exact owned fail (pruned now found)
        · rw [gone] at found
          cases found

theorem owned_run (forward : Forward calls) : Owned ip calls := by
  induction calls using List.reverseRecOn with
  | nil =>
      intro fail found
      cases found
  | append_singleton calls call ih => exact (ih forward.init).step forward

end Running

/-- As long as no call empties the table while its window is open, an address is blocked exactly while
this window is open with five failures. With any calls it is blocked only for five failures of its
own that are not older than the window is long and have had no success since. -/
theorem blocked_iff_of_room {calls : List LoginCall} (forward : Forward calls) :
    (∀ ip, KeepsWindow ip calls → ∀ now, Past calls now →
      ((loginBlocked (failsAfter calls) ip now).2 = true ↔ Locked ip calls now)) ∧
    ∀ ip now, Past calls now → (loginBlocked (failsAfter calls) ip now).2 = true →
      loginMaxFails ≤ (failuresOf ip calls).countP (now ≤ · + loginWindow) := by
  constructor
  · intro ip keeps now past
    have agrees : Agrees ip calls := agrees_run forward keeps
    rw [loginBlocked_iff, agrees now past]
    constructor
    · rintro ⟨fail, isOpen, many⟩
      rw [Option.filter_eq_some_iff] at isOpen
      exact ⟨fail, isOpen.1, by simpa using isOpen.2, many⟩
    · rintro ⟨fail, found, isOpen, many⟩
      refine ⟨fail, ?_, many⟩
      rw [Option.filter_eq_some_iff]
      exact ⟨found, by simpa using isOpen⟩
  · intro ip now past blocked
    have owned : Owned ip calls := owned_run forward
    rcases loginBlocked_iff.mp blocked with ⟨fail, isOpen, many⟩
    rw [Option.filter_eq_some_iff, decide_eq_true_eq] at isOpen
    refine le_trans (le_trans many (owned fail isOpen.1).2) (List.countP_mono_left ?_)
    intro failure _ recent
    rw [decide_eq_true_eq] at recent ⊢
    exact le_trans isOpen.2 recent

/-- The table has at most one address for each call. -/
theorem size_failsAfter (calls : List LoginCall) : (failsAfter calls).size ≤ calls.length := by
  induction calls using List.reverseRecOn with
  | nil => exact le_refl 0
  | append_singleton calls call ih =>
      have pruned : ∀ now, (pruneFails (failsAfter calls) now).size ≤ calls.length := by
        intro now
        exact le_trans (Association.size_keep _ _) ih
      rw [failsAfter_append, List.length_append, List.length_singleton]
      cases call with
      | blocked ip now =>
          rw [loginStep, loginBlocked_fst]
          exact Nat.le_succ_of_le (pruned now)
      | record ip ok now opened =>
          rw [loginStep, recordLogin]
          split
          · exact Nat.le_succ_of_le (le_trans (Association.size_keep _ _) (pruned now))
          · split
            · refine le_trans (Association.size_put_le _ _ _) (Nat.succ_le_succ ?_)
              split
              · exact Nat.zero_le _
              · exact pruned now
            · exact le_trans (Association.size_put_le _ _ _) (Nat.succ_le_succ (pruned now))

/-- A few calls never empty the table. -/
theorem keepsWindow_of_few {calls : List LoginCall} (few : calls.length ≤ 8192) (ip : String) :
    KeepsWindow ip calls := by
  rintro before other ok now opened after rfl _ _ _ _
  rw [List.length_append] at few
  have small : (pruneFails (failsAfter before) now).size ≤ before.length :=
    le_trans (Association.size_keep _ _) (size_failsAfter before)
  omega

section Crowds

/-- One of many addresses. -/
def address (n : ℕ) : String :=
  "fd00::" ++ n.repr

/-- The address of someone who failed to log in. -/
def victim : String :=
  "203.0.113.5"

/-- Five failures, and then one failure of each of many addresses. -/
def crowd (count : ℕ) : List LoginCall :=
  List.replicate 5 (.record victim false 0 0) ++
    (List.range count).map fun n => .record (address n) false 0 0

theorem address_injective {n m : ℕ} (same : address n = address m) : n = m := by
  have digits := congrArg String.toList ((String.append_right_inj _).mp same)
  rw [Nat.toList_repr, Nat.toList_repr] at digits
  have values := congrArg (Nat.ofDigitChars 10 · 0) digits
  simpa only [Nat.ofDigitChars_ten_toDigits] using values

theorem address_ne_victim (n : ℕ) : address n ≠ victim := by
  intro same
  have first := congrArg (·.toList.head?) same
  simp [address, victim] at first

theorem crowd_succ (count : ℕ) :
    crowd (count + 1) = crowd count ++ [.record (address count) false 0 0] := by
  rw [crowd, crowd, List.range_succ, List.map_append, List.append_assoc]
  rfl

theorem readings_crowd (count : ℕ) : ∀ reading ∈ (crowd count).flatMap LoginCall.readings,
    reading = 0 := by
  intro reading inside
  rcases List.mem_flatMap.mp inside with ⟨call, called, read⟩
  rcases List.mem_append.mp called with own | other
  · rw [List.eq_of_mem_replicate own] at read
    simpa [LoginCall.readings] using read
  · rcases List.mem_map.mp other with ⟨n, _, rfl⟩
    simpa [LoginCall.readings] using read

theorem forward_crowd (count : ℕ) : Forward (crowd count) := by
  apply List.pairwise_of_forall_mem_list
  intro reading inside later after
  rw [readings_crowd count reading inside, readings_crowd count later after]

theorem past_crowd (count : ℕ) : Past (crowd count) 0 := by
  intro call called reading read
  exact le_of_eq (readings_crowd count reading (List.mem_flatMap.mpr ⟨call, called, read⟩))

/-- Two others, and the address is blocked. -/
theorem blocked_iff_of_room_crowd :
    (loginBlocked (failsAfter (crowd 2)) victim 0).2 = true ↔ Locked victim (crowd 2) 0 :=
  (blocked_iff_of_room (forward_crowd 2)).1 victim (keepsWindow_of_few (by decide) victim) 0
    (past_crowd 2)

/-- All windows of the table are open at the beginning. -/
def Fresh (fails : Fails) : Prop :=
  ∀ entry ∈ fails.entries, 0 ≤ entry.2.untilTime

variable {fails : Fails} {ip : String}

theorem Fresh.prune (fresh : Fresh fails) : pruneFails fails 0 = fails := by
  have same : fails.entries.filter (fun entry => 0 ≤ entry.2.untilTime) = fails.entries := by
    apply List.filter_eq_self.mpr
    intro entry inside
    exact decide_eq_true (fresh entry inside)
  cases fails
  simp only [pruneFails, Association.keep, same]

theorem Fresh.put (fresh : Fresh fails) (n : ℕ) : Fresh (fails.put ip ⟨0 + loginWindow, n⟩) := by
  intro entry inside
  rcases List.mem_cons.mp inside with rfl | old
  · exact (by decide : 0 ≤ 0 + loginWindow)
  · exact fresh entry (List.mem_of_mem_filter old)

theorem recordLogin_fresh (fresh : Fresh fails) (absent : fails.get ip = none) :
    recordLogin fails ip false 0 0 =
      (if fails.size > 8192 then Association.empty else fails).put ip ⟨0 + loginWindow, 1⟩ := by
  simp only [recordLogin, fresh.prune, absent, Bool.false_eq_true, if_false]

/-- The table grows with each address. -/
theorem failsAfter_crowd {count : ℕ} (few : count ≤ 8192) :
    Fresh (failsAfter (crowd count)) ∧ (failsAfter (crowd count)).size = count + 1 ∧
      ∀ n ≥ count, (failsAfter (crowd count)).get (address n) = none := by
  induction count with
  | zero =>
      have start : failsAfter (crowd 0) = Association.empty.put victim ⟨0 + loginWindow, 5⟩ := rfl
      have isNew : (Association.empty : Fails).get victim = none := rfl
      have fresh : Fresh Association.empty := fun entry inside => by cases inside
      rw [start]
      refine ⟨fresh.put 5, Association.size_put isNew, ?_⟩
      intro n _
      exact Association.get_put_other (address_ne_victim n)
  | succ count ih =>
      rcases ih (by omega) with ⟨fresh, size, absent⟩
      have added : failsAfter (crowd (count + 1)) =
          (failsAfter (crowd count)).put (address count) ⟨0 + loginWindow, 1⟩ := by
        rw [crowd_succ, failsAfter_append, loginStep,
          recordLogin_fresh fresh (absent count (le_refl count)), if_neg (by omega)]
      rw [added]
      refine ⟨fresh.put 1, ?_, ?_⟩
      · rw [Association.size_put (absent count (le_refl count)), size]
      · intro n more
        rw [Association.get_put_other]
        · exact absent n (by omega)
        · intro same
          have isCount := address_injective same
          omega

theorem windowOf_crowd (count : ℕ) : windowOf victim (crowd count) = some ⟨0 + loginWindow, 5⟩ := by
  induction count with
  | zero => decide
  | succ count ih =>
      rw [crowd_succ, windowOf_append, windowStep, if_pos (address_ne_victim count)]
      exact ih

/-- One address more than the table takes, and the first one is let in again. -/
theorem not_blocked_of_locked :
    ¬∀ calls, Forward calls → ∀ ip now, Past calls now → Locked ip calls now →
      (loginBlocked (failsAfter calls) ip now).2 = true := by
  intro claim
  have isLocked : Locked victim (crowd 8193) 0 :=
    ⟨_, windowOf_crowd 8193, by decide, by decide⟩
  have blocked := claim _ (forward_crowd 8193) victim 0 (past_crowd 8193) isLocked
  rcases failsAfter_crowd (le_refl 8192) with ⟨fresh, size, absent⟩
  have emptied : failsAfter (crowd 8193) =
      Association.empty.put (address 8192) ⟨0 + loginWindow, 1⟩ := by
    rw [crowd_succ, failsAfter_append, loginStep,
      recordLogin_fresh fresh (absent 8192 (le_refl _)), if_pos (by omega)]
  rw [loginBlocked_iff, emptied, Association.get_put_other (address_ne_victim 8192).symm] at blocked
  rcases blocked with ⟨fail, found, _⟩
  cases found

end Crowds

end MikroLLM.Auth
