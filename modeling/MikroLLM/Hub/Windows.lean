import Mathlib.Tactic.Common
import MikroLLM.Domain.Hub

/-!
# Sharing windows

What a schedule is for: a window opens at the start time of each selected day,
and closes at the end time of the same day or of the next one. An instant is in
nanoseconds since the beginning of 1970, which was a Thursday.
-/

namespace MikroLLM.Hub

open Domain Go

/-- The zones that `LoadLocation` knows, with how far they are ahead of UTC, in nanoseconds. -/
abbrev Zones := String → Option ℤ

def minuteLength : ℤ := 60000000000

/-- The clock at an instant of local time. -/
def clockAt (instant : ℤ) : LocalTime where
  weekday := ((instant / minuteLength / 1440 + 4) % 7).toNat
  hour := (instant / minuteLength % 1440 / 60).toNat
  minute := (instant / minuteLength % 60).toNat

/-- How far a zone is ahead. -/
def zoneOffset (zones : Zones) (name : String) : ℤ :=
  if name = "UTC" then 0 else (zones name).getD 0

def instantAt (zones : Zones) (instant : ℤ) : Instant where
  loadLocation name := name = "UTC" || (zones name).isSome
  atZone name := clockAt (instant + zoneOffset zones name)

/-- The instant on the clocks of the schedule. -/
def localInstant (schedule : HubSchedule) (zones : Zones) (instant : ℤ) : ℤ :=
  instant + zoneOffset zones (schedule.location (instantAt zones instant))

/-- A number below a hundred with two digits. -/
def twoDigits (n : ℕ) : String :=
  if n < 10 then "0" ++ n.repr else n.repr

/-- A valid time, in minutes. -/
inductive TimeText (default : ℤ) (text : String) : ℤ → Prop
  | blank (isBlank : trimSpace text = "") : TimeText default text (default * 60)
  | clock (hour minute : ℕ) (hours : hour < 24) (minutes : minute < 60)
      (isClock : trimSpace text = twoDigits hour ++ ":" ++ twoDigits minute) :
      TimeText default text (hour * 60 + minute)
  | midnight (isMidnight : trimSpace text = "24:00") : TimeText default text (24 * 60)

/-- A day, counted from the beginning of 1970, on which windows open. -/
def Selected (schedule : HubSchedule) (day : ℤ) : Prop :=
  schedule.days = [] ∨ (day + 4) % 7 ∈ schedule.days

instance (schedule : HubSchedule) (day : ℤ) : Decidable (Selected schedule day) :=
  inferInstanceAs (Decidable (_ ∨ _))

/-- When the window of a day opens. -/
def opensAt (start day : ℤ) : ℤ :=
  (day * 1440 + start) * minuteLength

/-- When the window of a day closes. -/
def closesAt (start finish day : ℤ) : ℤ :=
  ((if start < finish then day else day + 1) * 1440 + finish) * minuteLength

/-- The window of some selected day is open. -/
def InWindow (schedule : HubSchedule) (start finish instant : ℤ) : Prop :=
  ∃ day, Selected schedule day ∧ opensAt start day ≤ instant ∧ instant < closesAt start finish day

/-- The day of an instant. -/
def dayOf (instant : ℤ) : ℤ :=
  instant / minuteLength / 1440

/-- The minute of the day. -/
def minutesOf (instant : ℤ) : ℤ :=
  instant / minuteLength % 1440

section Times

variable {text : String} {default minutes : ℤ}

theorem atoi_twoDigits : ∀ n < 60, atoi (twoDigits n) = some (n : ℤ) := by
  decide

theorem colon_not_mem_twoDigits : ∀ n < 60, ':' ∉ (twoDigits n).toList := by
  decide

theorem parseHM_clock {hour minute : ℕ} (hours : hour ≤ 24) (minutes : minute < 60)
    (isClock : trimSpace text = twoDigits hour ++ ":" ++ twoDigits minute) :
    parseHM text default = if hour = 24 then 24 * 60 else (hour : ℤ) * 60 + minute := by
  have chars : (trimSpace text).toList =
      (twoDigits hour).toList ++ ':' :: (twoDigits minute).toList := by
    rw [isClock, String.toList_append, String.toList_append, List.append_assoc]
    rfl
  have noColon : ∀ char ∈ (twoDigits hour).toList, decide (char ≠ ':') = true := by
    intro char inside
    rw [decide_eq_true_eq]
    rintro rfl
    exact colon_not_mem_twoDigits hour (by omega) inside
  have notEmpty : (twoDigits hour).toList ++ ':' :: (twoDigits minute).toList ≠ [] := by simp
  simp only [parseHM, chars, if_neg notEmpty]
  rw [List.takeWhile_append_of_pos noColon, List.dropWhile_append_of_pos noColon]
  simp only [ne_eq, not_true_eq_false, decide_false, Bool.false_eq_true, not_false_eq_true,
    List.takeWhile_cons_of_neg, List.dropWhile_cons_of_neg, List.append_nil, String.ofList_toList,
    atoi_twoDigits hour (by omega), atoi_twoDigits minute minutes, Option.getD_some]
  rw [if_neg (by omega)]
  split_ifs <;> omega

/-- `parseHM` reads a valid time. -/
theorem TimeText.parse (isTime : TimeText default text minutes) :
    parseHM text default = minutes := by
  cases isTime with
  | blank isBlank => simp [parseHM, isBlank]
  | clock hour minute hours minutes isClock =>
      rw [parseHM_clock hours.le minutes isClock, if_neg (by omega)]
  | midnight isMidnight =>
      have isClock : trimSpace text = twoDigits 24 ++ ":" ++ twoDigits 0 := isMidnight
      exact parseHM_clock (le_refl 24) (by decide) isClock

end Times

section Opening

variable {schedule : HubSchedule} {zones : Zones} {start finish instant : ℤ}

/-- What `SharingAt` computes, in terms of the local day and the minute of it. -/
theorem sharingAt_iff (enabled : schedule.enabled = true)
    (starts : TimeText 0 schedule.startHM start) (ends : TimeText 24 schedule.endHM finish)
    (differ : start ≠ finish) :
    schedule.sharingAt (instantAt zones instant) = true ↔
      Selected schedule (dayOf (localInstant schedule zones instant)) ∧
        if start < finish then
          start ≤ minutesOf (localInstant schedule zones instant) ∧
            minutesOf (localInstant schedule zones instant) < finish
        else
          start ≤ minutesOf (localInstant schedule zones instant) ∨
            minutesOf (localInstant schedule zones instant) < finish := by
  have clock : (instantAt zones instant).atZone (schedule.location (instantAt zones instant)) =
      clockAt (localInstant schedule zones instant) := rfl
  generalize localInstant schedule zones instant = now at *
  have weekday : ((clockAt now).weekday : ℤ) = (dayOf now + 4) % 7 := by
    simp only [clockAt, dayOf]
    omega
  have minutes : ((clockAt now).hour : ℤ) * 60 + (clockAt now).minute = minutesOf now := by
    simp only [clockAt, minutesOf]
    omega
  simp only [HubSchedule.sharingAt, enabled, Bool.not_true, Bool.false_eq_true, if_false, clock,
    weekday, minutes, starts.parse, ends.parse, if_neg differ]
  by_cases selected : Selected schedule (dayOf now)
  · have passes : ¬(schedule.days ≠ [] ∧ (dayOf now + 4) % 7 ∉ schedule.days) := by
      rintro ⟨some, notListed⟩
      exact selected.elim some notListed
    rw [if_neg passes]
    split_ifs <;> simp [selected]
  · have fails : schedule.days ≠ [] ∧ (dayOf now + 4) % 7 ∉ schedule.days := not_or.mp selected
    rw [if_pos fails]
    simp [selected]

/-- A window that is open belongs to the day of the instant, or to the day before. -/
theorem inWindow_iff (notBefore : 0 ≤ start) (startsIn : start < 1440) (endsIn : finish ≤ 1440)
    (endsAfter : 0 ≤ finish) :
    InWindow schedule start finish instant ↔
      if start < finish then
        Selected schedule (dayOf instant) ∧ start ≤ minutesOf instant ∧ minutesOf instant < finish
      else
        (Selected schedule (dayOf instant) ∧ start ≤ minutesOf instant) ∨
          (Selected schedule (dayOf instant - 1) ∧ minutesOf instant < finish) := by
  have length : 0 < minuteLength := by decide
  have opens : ∀ day, opensAt start day ≤ instant ↔
      day * 1440 + start ≤ instant / minuteLength := by
    intro day
    exact (Int.le_ediv_iff_mul_le length).symm
  have closes : ∀ day, instant < closesAt start finish day ↔
      instant / minuteLength < (if start < finish then day else day + 1) * 1440 + finish := by
    intro day
    exact (Int.ediv_lt_iff_lt_mul length).symm
  simp only [InWindow, opens, closes, dayOf, minutesOf]
  generalize instant / minuteLength = minutes
  split
  · rename_i sameDay
    constructor
    · rintro ⟨day, selected, after, before⟩
      have isToday : day = minutes / 1440 := by omega
      rw [← isToday]
      exact ⟨selected, by omega, by omega⟩
    · rintro ⟨selected, after, before⟩
      exact ⟨minutes / 1440, selected, by omega, by omega⟩
  · rename_i overnight
    constructor
    · rintro ⟨day, selected, after, before⟩
      by_cases isToday : day = minutes / 1440
      · rw [← isToday]
        exact Or.inl ⟨selected, by omega⟩
      · have isYesterday : day = minutes / 1440 - 1 := by omega
        rw [← isYesterday]
        exact Or.inr ⟨selected, by omega⟩
    · rintro (⟨selected, after⟩ | ⟨selected, before⟩)
      · exact ⟨minutes / 1440, selected, by omega, by omega⟩
      · exact ⟨minutes / 1440 - 1, selected, by omega, by omega⟩

theorem TimeText.bounds {text : String} {default minutes : ℤ} (isTime : TimeText default text minutes)
    (usual : 0 ≤ default ∧ default ≤ 24) : 0 ≤ minutes ∧ minutes ≤ 1440 := by
  cases isTime <;> omega

end Opening

/-- `SharingAt` agrees with the windows exactly when the window does not go past midnight, or it
has ended on the day of the instant, or this day and the one before are both selected or neither
is. -/
theorem sharingAt_inWindow_iff {schedule : HubSchedule} {zones : Zones} {start finish instant : ℤ}
    (enabled : schedule.enabled = true) (starts : TimeText 0 schedule.startHM start)
    (startsIn : start < 1440) (ends : TimeText 24 schedule.endHM finish) (differ : start ≠ finish) :
    (schedule.sharingAt (instantAt zones instant) = true ↔
        InWindow schedule start finish (localInstant schedule zones instant)) ↔
      start < finish ∨ finish ≤ minutesOf (localInstant schedule zones instant) ∨
        (Selected schedule (dayOf (localInstant schedule zones instant)) ↔
          Selected schedule (dayOf (localInstant schedule zones instant) - 1)) := by
  have startBounds := starts.bounds (by decide)
  have endBounds := ends.bounds (by decide)
  rw [sharingAt_iff enabled starts ends differ,
    inWindow_iff startBounds.1 startsIn endBounds.2 endBounds.1]
  generalize localInstant schedule zones instant = now
  by_cases sameDay : start < finish
  · simp [sameDay]
  · by_cases ended : finish ≤ minutesOf now
    · have notBefore : ¬minutesOf now < finish := Int.not_lt.mpr ended
      simp [sameDay, ended, notBefore]
    · have before : minutesOf now < finish := Int.not_le.mp ended
      have notYet : ¬start ≤ minutesOf now := by omega
      simp [sameDay, ended, before, notYet]

/-- Friday from ten in the evening to six in the morning. -/
def fridayNight : HubSchedule where
  enabled := true
  days := [5]
  startHM := "22:00"
  endHM := "06:00"
  tz := "UTC"

theorem fridayNight_starts : TimeText 0 fridayNight.startHM 1320 :=
  TimeText.clock 22 0 (by decide) (by decide) (by decide)

theorem fridayNight_ends : TimeText 24 fridayNight.endHM 360 :=
  TimeText.clock 6 0 (by decide) (by decide) (by decide)

/-- Three o'clock on Saturday, the third of January 2026. -/
def saturdayNight : ℤ :=
  (20456 * 1440 + 180) * minuteLength

theorem sharingAt_inWindow_iff_fridayNight :
    (fridayNight.sharingAt (instantAt (fun _ => none) saturdayNight) = true ↔
        InWindow fridayNight 1320 360 (localInstant fridayNight (fun _ => none) saturdayNight)) ↔
      (1320 : ℤ) < 360 ∨
        360 ≤ minutesOf (localInstant fridayNight (fun _ => none) saturdayNight) ∨
        (Selected fridayNight (dayOf (localInstant fridayNight (fun _ => none) saturdayNight)) ↔
          Selected fridayNight
            (dayOf (localInstant fridayNight (fun _ => none) saturdayNight) - 1)) :=
  sharingAt_inWindow_iff rfl fridayNight_starts (by decide) fridayNight_ends (by decide)

/-- The window of Friday is open, and nothing is shared. -/
theorem not_sharingAt_inWindow :
    ¬∀ (schedule : HubSchedule) (zones : Zones) (start finish instant : ℤ),
      schedule.enabled = true → TimeText 0 schedule.startHM start → start < 1440 →
        TimeText 24 schedule.endHM finish → start ≠ finish →
          (schedule.sharingAt (instantAt zones instant) = true ↔
            InWindow schedule start finish (localInstant schedule zones instant)) := by
  intro claim
  have agrees := claim fridayNight (fun _ => none) 1320 360 saturdayNight rfl fridayNight_starts
    (by decide) fridayNight_ends (by decide)
  have isOpen : InWindow fridayNight 1320 360
      (localInstant fridayNight (fun _ => none) saturdayNight) :=
    ⟨20455, by decide, by decide, by decide⟩
  have shared := agrees.mpr isOpen
  exact absurd shared (by decide)

end MikroLLM.Hub
