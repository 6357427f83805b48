import MikroLLM.Go.Strings
import MikroLLM.Go.Text

/-!
# Settings of the hub client

What the admin sets about the hub, with the sharing window and the caps, and the
identity that the hub gave to this node.
-/

namespace MikroLLM.Domain

open Go

/-- How many jobs of a kind run at once. -/
structure HubCaps where
  chat : ℤ
  images : ℤ
  videos : ℤ
  deriving DecidableEq

/-- `HubCaps.Norm`, for one cap with its default and its greatest value. -/
def normCap (cap default greatest : ℤ) : ℤ :=
  if cap ≤ 0 then default else if greatest < cap then greatest else cap

/-- `HubCaps.Norm`. -/
def HubCaps.norm (caps : HubCaps) : HubCaps where
  chat := normCap caps.chat 4 32
  images := normCap caps.images 2 16
  videos := normCap caps.videos 1 8

/-- When this node shares. -/
structure HubSchedule where
  enabled : Bool
  days : List ℤ
  startHM : String
  endHM : String
  tz : String
  deriving DecidableEq

/-- The time on a clock. -/
structure LocalTime where
  weekday : ℕ
  hour : ℕ
  minute : ℕ

/-- An instant: which zones `LoadLocation` knows, and what the clocks of a zone show. -/
structure Instant where
  loadLocation : String → Bool
  atZone : String → LocalTime

/-- `strconv.Atoi`; `none` for a syntax error, the nearest value for a range error. -/
def atoi (text : String) : Option ℤ :=
  let digits := (text.toList.dropWhile fun char => char = '-' || char = '+')
  if digits.length + 1 < text.length ∨ (parseUint 0 digits).isNone ∨ digits = [] then none
  else some (parseInt text)

/-- `parseHM`, in minutes, with the default in hours. -/
def parseHM (text : String) (default : ℤ) : ℤ :=
  let chars := (trimSpace text).toList
  if chars = [] then default * 60
  else
    let hour := atoi (String.ofList (chars.takeWhile (· ≠ ':')))
    let minute :=
      match chars.dropWhile (· ≠ ':') with
      | [] => 0
      | _ :: rest => (atoi (String.ofList rest)).getD 0
    match hour with
    | none => default * 60
    | some hour =>
        if hour < 0 ∨ 24 < hour ∨ minute < 0 ∨ 59 < minute then default * 60
        else if hour = 24 then 24 * 60
        else hour * 60 + minute

/-- `HubSchedule.Location`. -/
def HubSchedule.location (schedule : HubSchedule) (now : Instant) : String :=
  let name := if trimSpace schedule.tz = "" then "Europe/Moscow" else trimSpace schedule.tz
  if now.loadLocation name then name else "UTC"

/-- `HubSchedule.SharingAt`. -/
def HubSchedule.sharingAt (schedule : HubSchedule) (now : Instant) : Bool :=
  if !schedule.enabled then true
  else
    let clock := now.atZone (schedule.location now)
    if schedule.days ≠ [] ∧ (clock.weekday : ℤ) ∉ schedule.days then false
    else
      let start := parseHM schedule.startHM 0
      let finish := parseHM schedule.endHM 24
      let minutes : ℤ := clock.hour * 60 + clock.minute
      if start = finish then true
      else if start < finish then start ≤ minutes && minutes < finish
      else start ≤ minutes || minutes < finish

structure HubSettings where
  enabled : Bool
  nodeID : String
  token : String
  name : String
  schedule : HubSchedule
  caps : HubCaps
  shareMCP : Bool
  shareA2A : Bool
  deriving DecidableEq

/-- What `SetHubSettings` writes and `HubSettings` reads. -/
def HubSettings.clean (settings : HubSettings) : HubSettings :=
  { settings with
    name := trimSpace settings.name
    caps := settings.caps.norm
    shareMCP := settings.enabled && settings.shareMCP
    shareA2A := settings.enabled && settings.shareA2A }

/-- The settings without the identity, which only the hub client has reason to change. -/
def HubSettings.ofAdmin (settings : HubSettings) : HubSettings :=
  { settings with nodeID := "", token := "" }

theorem normCap_normCap {cap default greatest : ℤ} (positive : 0 < default)
    (small : default ≤ greatest) :
    normCap (normCap cap default greatest) default greatest = normCap cap default greatest := by
  unfold normCap
  split_ifs <;> omega

@[simp]
theorem HubCaps.norm_norm (caps : HubCaps) : caps.norm.norm = caps.norm := by
  simp only [HubCaps.norm]
  rw [normCap_normCap (by omega) (by omega), normCap_normCap (by omega) (by omega),
    normCap_normCap (by omega) (by omega)]

@[simp]
theorem HubSettings.clean_clean (settings : HubSettings) : settings.clean.clean = settings.clean := by
  simp [HubSettings.clean]

/-- Another identity is not cleaned. -/
theorem HubSettings.ofAdmin_clean {settings : HubSettings} (isClean : settings.clean = settings)
    (nodeID token : String) :
    (HubSettings.clean { settings with nodeID := nodeID, token := token }).ofAdmin =
      settings.ofAdmin := by
  have same := congrArg HubSettings.ofAdmin isClean
  simpa [HubSettings.ofAdmin, HubSettings.clean] using same

end MikroLLM.Domain
