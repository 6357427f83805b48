import MikroLLM.Domain.Hub
import MikroLLM.Library.Runs

/-!
# The settings row and the loops of the hub client

`Loop` and `pullLoop` read the whole settings row, call the hub and, when the hub
has registered the node or does not know its token, write the whole row back. An
admin can save between the read and the write.
-/

namespace MikroLLM.Hub

open Domain Go Library

/-- The row of table `admin_meta`, as `SetHubSettings` wrote it. -/
structure SettingsRow where
  settings : HubSettings
  isClean : settings.clean = settings

/-- `Store.SetHubSettings`. -/
def setHubSettings (settings : HubSettings) : SettingsRow :=
  ⟨settings.clean, settings.clean_clean⟩

/-- `isAuthErr`. -/
def isAuthErr (message : String) : Bool :=
  contains message "\"bad token\""

/-- Where `Loop` stands: between two rounds, in `register`, after it, or in `announce`. -/
inductive LoopAt
  | idle
  | registering (copy : SettingsRow)
  | registered
  | announcing (copy : SettingsRow)

/-- The row and the copies that the loops hold. As a history: the settings that the admin saved
last, and each row that a loop wrote beside the settings that were the admin's then. -/
structure Client where
  row : SettingsRow
  loop : LoopAt
  pull : Option SettingsRow
  saved : SettingsRow
  writes : List (SettingsRow × SettingsRow)

/-- A step: the admin saves; a loop reads the settings; the hub answers `register`, `announce` or
`pull`, or the call fails with the text of an error. -/
inductive ClientAction
  | save (settings : HubSettings)
  | loopReads
  | registers (nodeID token : String)
  | registerFails
  | rereads
  | announces
  | announceFails (message : String)
  | pullReads
  | pulls
  | pullFails (message : String)

namespace Client

/-- `SetHubSettings` of a loop, with another identity. -/
def writeBack (client : Client) (copy : SettingsRow) (nodeID token : String) : Client :=
  let row := setHubSettings { copy.settings with nodeID := nodeID, token := token }
  { client with row := row, writes := client.writes ++ [(row, client.saved)] }

/-- One step of the admin, of `Loop` or of `pullLoop`. -/
def step (client : Client) : ClientAction → Option Client
  | .save settings =>
      some { client with row := setHubSettings settings, saved := setHubSettings settings }
  | .loopReads =>
      match client.loop with
      | .idle =>
          if client.row.settings.enabled = false then some client
          else if client.row.settings.token = "" then
            some { client with loop := .registering client.row }
          else some { client with loop := .announcing client.row }
      | _ => none
  | .registers nodeID token =>
      match client.loop with
      | .registering copy =>
          if token = "" ∨ nodeID = "" then some { client with loop := .idle }
          else some { client.writeBack copy nodeID token with loop := .registered }
      | _ => none
  | .registerFails =>
      match client.loop with
      | .registering _ => some { client with loop := .idle }
      | _ => none
  | .rereads =>
      match client.loop with
      | .registered => some { client with loop := .announcing client.row }
      | _ => none
  | .announces =>
      match client.loop with
      | .announcing _ => some { client with loop := .idle }
      | _ => none
  | .announceFails message =>
      match client.loop with
      | .announcing copy =>
          if isAuthErr message then some { client.writeBack copy "" "" with loop := .idle }
          else some { client with loop := .idle }
      | _ => none
  | .pullReads =>
      match client.pull with
      | none =>
          if client.row.settings.enabled && client.row.settings.token ≠ "" then
            some { client with pull := some client.row }
          else some client
      | some _ => none
  | .pulls =>
      match client.pull with
      | some _ => some { client with pull := none }
      | none => none
  | .pullFails message =>
      match client.pull with
      | some copy =>
          if isAuthErr message then some { client.writeBack copy "" "" with pull := none }
          else some { client with pull := none }
      | none => none

/-- Both loops are before a round. -/
def start (row : SettingsRow) : Client :=
  ⟨row, .idle, none, row, []⟩

/-- Every row that a loop wrote has the settings that the admin saved last. -/
def Keeps (client : Client) : Prop :=
  ∀ write ∈ client.writes, write.1.settings.ofAdmin = write.2.settings.ofAdmin

/-- The copy has the settings of the row. -/
def upToDate (client : Client) (copy : SettingsRow) : Bool :=
  copy.settings.ofAdmin = client.row.settings.ofAdmin

/-- A loop that writes its copy back holds one that no save has made stale. -/
def current (client : Client) : ClientAction → Bool
  | .registers nodeID token =>
      match client.loop with
      | .registering copy => token = "" || nodeID = "" || client.upToDate copy
      | _ => true
  | .announceFails message =>
      match client.loop with
      | .announcing copy => !isAuthErr message || client.upToDate copy
      | _ => true
  | .pullFails message => client.pull.all fun copy => !isAuthErr message || client.upToDate copy
  | _ => true

section Steps

variable {client next : Client} {action : ClientAction}

/-- What a step does to the row: nothing, a save, or a copy that is written back. -/
inductive Effect (client next : Client) (action : ClientAction) : Prop
  | same (row : next.row = client.row) (saved : next.saved = client.saved)
      (writes : next.writes = client.writes) (admitted : client.current action = true)
  | save (saved : next.saved = next.row) (writes : next.writes = client.writes)
      (admitted : client.current action = true)
  | write (copy : SettingsRow) (row : next.row.settings.ofAdmin = copy.settings.ofAdmin)
      (saved : next.saved = client.saved)
      (writes : next.writes = client.writes ++ [(next.row, client.saved)])
      (admitted : client.current action = client.upToDate copy)

theorem writeBack_ofAdmin (client : Client) (copy : SettingsRow) (nodeID token : String) :
    (client.writeBack copy nodeID token).row.settings.ofAdmin = copy.settings.ofAdmin :=
  HubSettings.ofAdmin_clean copy.isClean nodeID token

theorem step_effect (fires : client.step action = some next) : Effect client next action := by
  cases action with
  | save settings =>
      cases fires
      exact .save rfl rfl rfl
  | loopReads =>
      simp only [step] at fires
      split at fires
      · split at fires
        · cases fires
          exact .same rfl rfl rfl rfl
        · split at fires <;> cases fires <;> exact .same rfl rfl rfl rfl
      · exact nomatch fires
  | registers nodeID token =>
      simp only [step] at fires
      split at fires
      · rename_i copy atRegister
        split at fires
        · rename_i noIdentity
          cases fires
          refine .same rfl rfl rfl ?_
          rcases noIdentity with noToken | noNode
          · simp [current, atRegister, noToken]
          · simp [current, atRegister, noNode]
        · rename_i identity
          rw [not_or] at identity
          cases fires
          refine .write copy (writeBack_ofAdmin client copy nodeID token) rfl rfl ?_
          simp [current, atRegister, identity.1, identity.2]
      · exact nomatch fires
  | announceFails message =>
      simp only [step] at fires
      split at fires
      · rename_i copy atAnnounce
        split at fires
        · rename_i badToken
          cases fires
          refine .write copy (writeBack_ofAdmin client copy "" "") rfl rfl ?_
          simp [current, atAnnounce, badToken]
        · rename_i otherError
          cases fires
          refine .same rfl rfl rfl ?_
          simp [current, atAnnounce, otherError]
      · exact nomatch fires
  | pullFails message =>
      simp only [step] at fires
      split at fires
      · rename_i copy atPull
        split at fires
        · rename_i badToken
          cases fires
          refine .write copy (writeBack_ofAdmin client copy "" "") rfl rfl ?_
          simp [current, atPull, badToken]
        · rename_i otherError
          cases fires
          refine .same rfl rfl rfl ?_
          simp [current, atPull, otherError]
      · exact nomatch fires
  | registerFails =>
      simp only [step] at fires
      split at fires
      · cases fires
        exact .same rfl rfl rfl rfl
      · exact nomatch fires
  | rereads =>
      simp only [step] at fires
      split at fires
      · cases fires
        exact .same rfl rfl rfl rfl
      · exact nomatch fires
  | announces =>
      simp only [step] at fires
      split at fires
      · cases fires
        exact .same rfl rfl rfl rfl
      · exact nomatch fires
  | pullReads =>
      simp only [step] at fires
      split at fires
      · split at fires <;> cases fires <;> exact .same rfl rfl rfl rfl
      · exact nomatch fires
  | pulls =>
      simp only [step] at fires
      split at fires
      · cases fires
        exact .same rfl rfl rfl rfl
      · exact nomatch fires

/-- The row has the settings that the admin saved last. -/
def Synced (client : Client) : Prop :=
  client.row.settings.ofAdmin = client.saved.settings.ofAdmin

/-- Writes of the past stay. -/
theorem Keeps.past (fires : client.step action = some next) (keeps : next.Keeps) : client.Keeps := by
  cases step_effect fires with
  | same row saved writes admitted => rwa [Keeps, writes] at keeps
  | save saved writes admitted => rwa [Keeps, writes] at keeps
  | write copy row saved writes admitted =>
      intro write listed
      apply keeps
      rw [writes]
      exact List.mem_append_left _ listed

theorem Keeps.step (synced : client.Synced) (keeps : client.Keeps)
    (admitted : client.current action = true) (fires : client.step action = some next) :
    next.Synced ∧ next.Keeps := by
  cases step_effect fires with
  | same row saved writes _ =>
      constructor
      · rwa [Synced, row, saved]
      · rwa [Keeps, writes]
  | save saved writes _ =>
      constructor
      · rw [Synced, saved]
      · rwa [Keeps, writes]
  | write copy row saved writes isCurrent =>
      rw [isCurrent] at admitted
      have nextSynced : next.row.settings.ofAdmin = client.saved.settings.ofAdmin := by
        rw [row, ← synced]
        simpa [upToDate] using admitted
      constructor
      · rwa [Synced, saved]
      · rw [Keeps, writes]
        intro write listed
        rcases List.mem_append.mp listed with old | isNew
        · exact keeps write old
        · rw [List.mem_singleton.mp isNew]
          exact nextSynced

/-- A stale copy that is written back is seen in the history. -/
theorem Keeps.current (synced : client.Synced) (fires : client.step action = some next)
    (keeps : next.Keeps) : client.current action = true := by
  cases step_effect fires with
  | same row saved writes admitted => exact admitted
  | save saved writes admitted => exact admitted
  | write copy row saved writes admitted =>
      have written := keeps (next.row, client.saved) (by simp [writes])
      rw [row, ← synced] at written
      rw [admitted]
      simpa [upToDate] using written

end Steps

/-- What the loops write has the settings that the admin saved last, exactly when no loop writes
back a copy that a save has made stale. -/
theorem settings_kept_iff {row : SettingsRow} {actions : List ClientAction} {last : Client}
    (ran : exec step (start row) actions = some last) :
    last.Keeps ↔
      Run step (fun client action => client.current action = true) (start row) actions last :=
  good_iff_run Keeps.step Keeps.current Keeps.past ran rfl (by simp [Keeps, start])

section Trials

/-- A node that shares its models and tools. -/
def sharing : SettingsRow :=
  setHubSettings ⟨true, "n1", "t1", "box", ⟨false, [], "", "", ""⟩, ⟨0, 0, 0⟩, true, true⟩

/-- The token is not known any more, and the node registers again. -/
def renewed : List ClientAction :=
  [.pullReads, .pullFails "pull 401 Unauthorized: \x7b\"error\":\"bad token\"\x7d", .loopReads,
    .registers "n2" "t2", .rereads, .announces]

theorem settings_kept_iff_renewed :
    ∃ last, exec step (start sharing) renewed = some last ∧ last.writes.length = 2 ∧
      (last.Keeps ↔ Run step (fun client action => client.current action = true) (start sharing)
        renewed last) := by
  have ran : (exec step (start sharing) renewed).any (·.writes.length = 2) = true := by
    decide
  rcases (Option.any_eq_true _ _).mp ran with ⟨last, executed, writes⟩
  exact ⟨last, executed, by simpa using writes, settings_kept_iff executed⟩

/-- The admin leaves the hub while a pull is under way, which then fails. -/
def undone : List ClientAction :=
  [.pullReads, .save ⟨false, "n1", "t1", "box", ⟨false, [], "", "", ""⟩, ⟨0, 0, 0⟩, false, false⟩,
    .pullFails "pull 401 Unauthorized: \x7b\"error\":\"bad token\"\x7d"]

theorem not_settings_kept :
    ¬∀ (row : SettingsRow) (actions : List ClientAction) (last : Client),
      exec step (start row) actions = some last → last.Keeps := by
  intro claim
  have ran : (exec step (start sharing) undone).any (fun last => last.writes.any fun write =>
      write.1.settings.enabled && !write.2.settings.enabled) = true := by
    decide
  rcases (Option.any_eq_true _ _).mp ran with ⟨last, executed, back⟩
  rcases List.any_eq_true.mp back with ⟨write, listed, differs⟩
  have same := congrArg HubSettings.enabled (claim sharing undone last executed write listed)
  simp only [HubSettings.ofAdmin] at same
  simp [same] at differs

end Trials

end Client

end MikroLLM.Hub
