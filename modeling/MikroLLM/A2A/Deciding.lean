import Mathlib.Data.List.Perm.Basic
import MikroLLM.A2A.Isolation
import MikroLLM.Library.Runs

/-!
# Concurrent decisions

Any number of admin requests confirm and reject messages at the same time. A
handler reads the message, updates its status, reads the group and pushes the
line, and the statements of other handlers fall between. Only the condition of
the `UPDATE`, and the count of the rows it affected, say who may push.
-/

namespace MikroLLM.A2A

open Domain Go Library Store

/-- Where the handler of a request stands: the message is to be read, to be updated, its group is
to be read, it is to be pushed; or it was posted by an agent and is to be pushed. -/
inductive Handling
  | read (id : MessageId) (status : A2AStatus)
  | update (message : A2AMessage) (status : A2AStatus)
  | group (message : A2AMessage)
  | push (message : A2AMessage) (group : String)
  | send (message : A2AMessage) (group sender : String) (target : Option A2AUpstream)

/-- A call of `ForwardPosted`. -/
structure Forwarded where
  message : A2AMessage
  group : String
  targets : List A2AUpstream

/-- The store and the requests under way. As a history: the updates that affected a row, the calls
of `ForwardPosted`, and the ids of the messages that went with their group. -/
structure Deciding where
  tables : A2ATables
  requests : List Handling
  taken : List (MessageId × A2AStatus)
  forwarded : List Forwarded
  removed : List MessageId

/-- A step: a request to confirm, to reject or to post, the next statement of a handler, one that
fails, a group that is deleted, and any statement that leaves the messages alone. -/
inductive DecidingAction
  | confirm (id : MessageId)
  | reject (id : MessageId)
  | post (bearer : String) (req : MsgReq) (now : String)
  | continue (request : ℕ)
  | fail (request : ℕ)
  | deleteGroup (id : GroupId)
  | otherwise (tables : A2ATables)

namespace Deciding

section System

variable (env : Env)

/-- The handler makes its next statement. -/
def handle (state : Deciding) : Handling → Deciding
  | .read id status =>
      match state.tables.getA2AMessage id with
      | some message =>
          if message.status = .pending then
            { state with requests := state.requests ++ [.update message status] }
          else state
      | none => state
  | .update message status =>
      match state.tables.setA2AMessageStatus message.id status with
      | .ok decided => { state with
          tables := decided
          taken := state.taken ++ [(message.id, status)]
          requests := state.requests ++
            if status = .posted then [.group { message with status := .posted }] else [] }
      | .error _ => state
  | .group message =>
      match state.tables.getA2AGroup message.groupId with
      | some group => { state with requests := state.requests ++ [.push message group.name] }
      | none => state
  | .push message group => { state with
      forwarded := state.forwarded ++ [⟨message, group, messageTargets env state.tables message⟩] }
  | .send message group sender target => { state with
      forwarded := state.forwarded ++
        [⟨message, group, destinations state.tables message.groupId sender target⟩] }

/-- The request is no longer under way. -/
def leave (state : Deciding) (request : ℕ) : Deciding :=
  { state with requests := state.requests.eraseIdx request }

def step (state : Deciding) : DecidingAction → Option Deciding
  | .confirm id => some { state with requests := state.requests ++ [.read id .posted] }
  | .reject id => some { state with requests := state.requests ++ [.read id .rejected] }
  | .post bearer req now =>
      match caller env state.tables bearer, postMessage env state.tables bearer req now with
      | .ok self, .ok posting => some { state with
          tables := posting.tables
          requests := state.requests ++
            if posting.message.status = .posted then
              [.send posting.message posting.group self.name posting.target]
            else [] }
      | _, _ => some state
  | .continue request =>
      (state.requests[request]?).map ((state.leave request).handle env)
  | .fail request => some (state.leave request)
  | .deleteGroup id => some { state with
      tables := state.tables.deleteA2AGroup id
      removed := state.removed ++
        (state.tables.messages.filter (·.groupId = id)).map (·.id) }
  | .otherwise tables =>
      if tables.messages = state.tables.messages ∧
          tables.nextMessage = state.tables.nextMessage then
        some { state with tables := tables }
      else none

/-- No request is under way. -/
def start (tables : A2ATables) : Deciding :=
  ⟨tables, [], [], [], []⟩

end System

/-- Each message has one turn at most, the status it took stays, and a message is pushed once at
most, when it is posted. -/
structure DecidedOnce (state : Deciding) : Prop where
  one_turn : (state.taken.map Prod.fst).Nodup
  turns : ∀ turn ∈ state.taken, (turn.2 = .posted ∨ turn.2 = .rejected) ∧
    ∀ row ∈ state.tables.messages, row.id = turn.1 → row.status = turn.2
  one_push : (state.forwarded.map (·.message.id)).Nodup
  pushes : ∀ push ∈ state.forwarded, push.message.id ∈ state.removed ∨
    ∃ row ∈ state.tables.messages, row.id = push.message.id ∧ row.status = .posted
  rejected : ∀ row ∈ state.tables.messages, row.status = .rejected →
    row.id ∉ state.forwarded.map (·.message.id)

/-- A row keeps its status, unless it is pending and has its turn. -/
def Stays (state later : Deciding) : Prop :=
  ∀ row ∈ state.tables.messages, row.id ∈ later.removed ∨
    ∃ next ∈ later.tables.messages, next.id = row.id ∧
      (next.status = row.status ∨ row.status = .pending ∧ (row.id, next.status) ∈ later.taken)

/-- The message that a handler is about to push. -/
@[simp]
def holder : Handling → Option MessageId
  | .read _ _ => none
  | .update _ _ => none
  | .group message => some message.id
  | .push message _ => some message.id
  | .send message _ _ _ => some message.id

/-- The messages that are pushed, or were. -/
def claims (state : Deciding) : List MessageId :=
  state.requests.filterMap holder ++ state.forwarded.map (·.message.id)

/-- The invariant: a claim is on a posted message and there is one at most, and a turn stays. -/
structure Settled (tables : A2ATables) (claims : List MessageId)
    (taken : List (MessageId × A2AStatus)) (removed : List MessageId) : Prop where
  one_claim : claims.Nodup
  known : ∀ id ∈ claims, id < tables.nextMessage ∧
    (id ∈ removed ∨ ∃ row ∈ tables.messages, row.id = id)
  posted : ∀ row ∈ tables.messages, row.id ∈ claims → row.status = .posted
  one_turn : (taken.map Prod.fst).Nodup
  turns : ∀ turn ∈ taken, turn.1 < tables.nextMessage ∧ turn.2 ≠ .pending
  stays : ∀ row ∈ tables.messages, ∀ turn ∈ taken, row.id = turn.1 → row.status = turn.2

section Invariant

variable {tables saved : A2ATables} {claimed : List MessageId}
  {taken : List (MessageId × A2AStatus)} {removed : List MessageId}

theorem Settled.of_subperm {fewer : List MessageId} (settled : Settled tables claimed taken removed)
    (sub : fewer.Subperm claimed) : Settled tables fewer taken removed := by
  rcases sub with ⟨same, perm, inside⟩
  refine ⟨?_, ?_, ?_, settled.one_turn, settled.turns, settled.stays⟩
  · apply perm.nodup_iff.mp
    exact settled.one_claim.sublist inside
  · intro id listed
    exact settled.known id (inside.subset (perm.mem_iff.mpr listed))
  · intro row isRow listed
    exact settled.posted row isRow (inside.subset (perm.mem_iff.mpr listed))

theorem Settled.same_messages (settled : Settled tables claimed taken removed)
    (messages : saved.messages = tables.messages) (next : saved.nextMessage = tables.nextMessage) :
    Settled saved claimed taken removed := by
  refine ⟨settled.one_claim, ?_, ?_, settled.one_turn, ?_, ?_⟩
  · simpa only [messages, next] using settled.known
  · simpa only [messages] using settled.posted
  · simpa only [next] using settled.turns
  · simpa only [messages] using settled.stays

/-- A new message has a new id. -/
theorem Settled.insert (settled : Settled tables claimed taken removed) {message row : A2AMessage}
    (inserts : tables.insertA2AMessage message = .ok (saved, row)) :
    Settled saved (claimed ++ if row.status = .posted then [row.id] else []) taken removed := by
  rcases A2ATables.insertA2AMessage_messages inserts with ⟨messages, newId, next⟩
  have old : ∀ id ∈ claimed, id < row.id := by
    intro id listed
    rw [newId]
    exact (settled.known id listed).1
  have oldTurn : ∀ turn ∈ taken, turn.1 < row.id := by
    intro turn listed
    rw [newId]
    exact (settled.turns turn listed).1
  have claims : ∀ id ∈ claimed ++ (if row.status = .posted then [row.id] else []),
      id ∈ claimed ∨ (id = row.id ∧ row.status = .posted) := by
    intro id listed
    rcases List.mem_append.mp listed with claim | isNew
    · exact Or.inl claim
    · split at isNew
      · rename_i isPosted
        exact Or.inr ⟨List.mem_singleton.mp isNew, isPosted⟩
      · simp at isNew
  refine ⟨?_, ?_, ?_, settled.one_turn, ?_, ?_⟩
  · split
    · apply List.Nodup.append settled.one_claim (List.nodup_singleton _)
      rw [List.disjoint_singleton]
      intro listed
      exact Nat.lt_irrefl _ (old row.id listed)
    · simpa using settled.one_claim
  · intro id listed
    rw [next, messages]
    rcases claims id listed with claim | ⟨rfl, _⟩
    · rcases settled.known id claim with ⟨less, gone | ⟨kept, isRow, sameId⟩⟩
      · exact ⟨Nat.lt_succ_of_lt less, Or.inl gone⟩
      · exact ⟨Nat.lt_succ_of_lt less, Or.inr ⟨kept, List.mem_append_left _ isRow, sameId⟩⟩
    · exact ⟨by simp [newId], Or.inr ⟨row, by simp, rfl⟩⟩
  · intro line isLine listed
    rw [messages] at isLine
    rcases claims line.id listed with claim | ⟨sameId, isPosted⟩
    · rcases List.mem_append.mp isLine with isOld | isNew
      · exact settled.posted line isOld claim
      · rw [List.mem_singleton.mp isNew] at claim
        exact absurd (old row.id claim) (Nat.lt_irrefl _)
    · rcases List.mem_append.mp isLine with isOld | isNew
      · have less := tables.messages_id_lt line isOld
        rw [sameId, newId] at less
        exact absurd less (Nat.lt_irrefl _)
      · rwa [List.mem_singleton.mp isNew]
  · intro turn listed
    rw [next]
    exact ⟨Nat.lt_succ_of_lt (settled.turns turn listed).1, (settled.turns turn listed).2⟩
  · intro line isLine turn listed sameId
    rw [messages] at isLine
    rcases List.mem_append.mp isLine with isOld | isNew
    · exact settled.stays line isOld turn listed sameId
    · rw [List.mem_singleton.mp isNew] at sameId
      exact absurd (oldTurn turn listed) (Nat.not_lt.mpr (Nat.le_of_eq sameId))

/-- The `UPDATE` affects a row only when the message is pending: it had no turn and no claim. -/
theorem Settled.update (settled : Settled tables claimed taken removed) {id : MessageId}
    {status : A2AStatus} (sets : tables.setA2AMessageStatus id status = .ok saved) :
    Settled saved (claimed ++ if status = .posted then [id] else []) (taken ++ [(id, status)])
      removed := by
  rcases A2ATables.setA2AMessageStatus_messages sets with
    ⟨messages, next, decides, pending, isPending, rfl, wasPending⟩
  have noClaim : pending.id ∉ claimed := by
    intro listed
    have isPosted := settled.posted pending isPending listed
    rw [wasPending] at isPosted
    exact nomatch isPosted
  have noTurn : ∀ turn ∈ taken, pending.id ≠ turn.1 := by
    intro turn listed sameId
    have decided := settled.stays pending isPending turn listed sameId
    rw [wasPending] at decided
    exact (settled.turns turn listed).2 decided.symm
  have rows : ∀ line ∈ saved.messages, line.id ≠ pending.id → line ∈ tables.messages := by
    intro line isLine other
    rw [messages] at isLine
    rcases A2ATables.mem_decideMessage isLine with ⟨old, isOld, sameId, _, _, decided | rfl⟩
    · exact absurd (sameId.trans decided.1) other
    · exact isOld
  have decidedRow : ∀ line ∈ saved.messages, line.id = pending.id → line.status = status := by
    intro line isLine same
    rw [messages] at isLine
    rcases List.mem_map.mp isLine with ⟨old, isOld, becomes⟩
    have sameId : old.id = pending.id := by
      rw [← same, ← becomes]
      split <;> rfl
    rw [A2ATables.message_ext isOld isPending sameId, if_pos ⟨rfl, wasPending⟩] at becomes
    rw [← becomes]
  have claims : ∀ id ∈ claimed ++ (if status = .posted then [pending.id] else []),
      id ∈ claimed ∨ (id = pending.id ∧ status = .posted) := by
    intro id listed
    rcases List.mem_append.mp listed with claim | isNew
    · exact Or.inl claim
    · split at isNew
      · rename_i isPosted
        exact Or.inr ⟨List.mem_singleton.mp isNew, isPosted⟩
      · simp at isNew
  have keeps : ∀ old ∈ tables.messages, ∃ line ∈ saved.messages, line.id = old.id := by
    intro old isOld
    rw [messages]
    rcases A2ATables.exists_mem_decideMessage isOld with ⟨line, isLine, sameId, _⟩
    exact ⟨line, isLine, sameId⟩
  refine ⟨?_, ?_, ?_, ?_, ?_, ?_⟩
  · split
    · apply List.Nodup.append settled.one_claim (List.nodup_singleton _)
      rwa [List.disjoint_singleton]
    · simpa using settled.one_claim
  · intro id listed
    rw [next]
    rcases claims id listed with claim | ⟨rfl, _⟩
    · rcases settled.known id claim with ⟨less, gone | ⟨old, isOld, rfl⟩⟩
      · exact ⟨less, Or.inl gone⟩
      · exact ⟨less, Or.inr (keeps old isOld)⟩
    · exact ⟨tables.messages_id_lt pending isPending, Or.inr (keeps pending isPending)⟩
  · intro line isLine listed
    rcases claims line.id listed with claim | ⟨sameId, isPosted⟩
    · apply settled.posted line _ claim
      apply rows line isLine
      intro same
      exact noClaim (same ▸ claim)
    · rw [decidedRow line isLine sameId, isPosted]
  · rw [List.map_append]
    apply List.Nodup.append settled.one_turn (List.nodup_singleton _)
    rw [List.disjoint_singleton]
    intro listed
    rcases List.mem_map.mp listed with ⟨turn, isTurn, sameId⟩
    exact noTurn turn isTurn sameId.symm
  · intro turn listed
    rw [next]
    rcases List.mem_append.mp listed with isOld | isNew
    · exact settled.turns turn isOld
    · rw [List.mem_singleton.mp isNew]
      exact ⟨tables.messages_id_lt pending isPending, decides⟩
  · intro line isLine turn listed sameId
    rcases List.mem_append.mp listed with isOld | isNew
    · apply settled.stays line _ turn isOld sameId
      apply rows line isLine
      intro same
      exact noTurn turn isOld (same.symm.trans sameId)
    · rw [List.mem_singleton.mp isNew] at sameId ⊢
      exact decidedRow line isLine sameId

theorem Settled.delete (settled : Settled tables claimed taken removed) (id : GroupId) :
    Settled (tables.deleteA2AGroup id) claimed taken
      (removed ++ (tables.messages.filter (·.groupId = id)).map (·.id)) := by
  refine ⟨settled.one_claim, ?_, ?_, settled.one_turn, settled.turns, ?_⟩
  · intro claim listed
    rcases settled.known claim listed with ⟨less, gone | ⟨row, isRow, rfl⟩⟩
    · exact ⟨less, Or.inl (List.mem_append_left _ gone)⟩
    · by_cases inGroup : row.groupId = id
      · refine ⟨less, Or.inl (List.mem_append_right _ ?_)⟩
        apply List.mem_map_of_mem
        simpa [inGroup] using isRow
      · refine ⟨less, Or.inr ⟨row, ?_, rfl⟩⟩
        simpa [A2ATables.deleteA2AGroup, inGroup] using isRow
  · intro row isRow
    exact settled.posted row (List.mem_of_mem_filter isRow)
  · intro row isRow
    exact settled.stays row (List.mem_of_mem_filter isRow)

variable {env : Env} {state next : Deciding}

/-- A state meets the invariant. -/
def IsSettled (state : Deciding) : Prop :=
  Settled state.tables state.claims state.taken state.removed

/-- A handler has its claim until it leaves. -/
theorem claims_perm {request : ℕ} {handling : Handling}
    (isRequest : state.requests[request]? = some handling) :
    ((holder handling).toList ++ (state.leave request).claims).Perm state.claims := by
  rcases List.getElem?_eq_some_iff.mp isRequest with ⟨inside, isHandling⟩
  have perm := (List.getElem_cons_eraseIdx_perm inside).filterMap holder
  rw [isHandling] at perm
  have split : ((holder handling).toList ++ (state.requests.eraseIdx request).filterMap holder) =
      (handling :: state.requests.eraseIdx request).filterMap holder := by
    cases handling <;> rfl
  rw [← split] at perm
  simpa only [claims, leave, List.append_assoc] using perm.append_right _

theorem claims_append (state : Deciding) (requests : List Handling) (tables : A2ATables)
    (taken : List (MessageId × A2AStatus)) :
    (claims { state with
      tables := tables, taken := taken, requests := state.requests ++ requests }).Perm
      (state.claims ++ requests.filterMap holder) := by
  simp only [claims, List.filterMap_append, List.append_assoc]
  exact List.Perm.append_left _ List.perm_append_comm

theorem IsSettled.request (settled : state.IsSettled) {handling : Handling}
    (free : holder handling = none) :
    IsSettled { state with requests := state.requests ++ [handling] } := by
  have perm := claims_append state [handling] state.tables state.taken
  rw [List.filterMap_cons_none free, List.filterMap_nil, List.append_nil] at perm
  exact Settled.of_subperm settled perm.subperm

/-- One statement of a handler that has left the list of requests. -/
theorem IsSettled.handle {handling : Handling}
    (settled : Settled state.tables ((holder handling).toList ++ state.claims) state.taken
      state.removed) : (state.handle env handling).IsSettled := by
  have dropped : state.IsSettled := settled.of_subperm (List.sublist_append_right _ _).subperm
  cases handling with
  | read id status =>
      simp only [Deciding.handle]
      split
      · split
        · exact dropped.request rfl
        · exact dropped
      · exact dropped
  | update message status =>
      simp only [Deciding.handle]
      split
      · rename_i decided sets
        apply (Settled.update dropped sets).of_subperm
        apply (claims_append state _ decided _).subperm.trans
        split <;> simp [List.Subperm.refl]
      · exact dropped
  | group message =>
      simp only [Deciding.handle]
      split
      · apply settled.of_subperm
        apply (claims_append state [.push message _] state.tables state.taken).subperm.trans
        simpa using (List.perm_append_singleton message.id state.claims).subperm
      · exact dropped
  | push message group =>
      apply settled.of_subperm
      simpa [claims, Deciding.handle, ← List.append_assoc] using
        (List.perm_append_singleton message.id state.claims).subperm
  | send message group sender target =>
      apply settled.of_subperm
      simpa [claims, Deciding.handle, ← List.append_assoc] using
        (List.perm_append_singleton message.id state.claims).subperm

theorem IsSettled.leave (settled : state.IsSettled) (request : ℕ) :
    (state.leave request).IsSettled := by
  apply Settled.of_subperm settled
  apply List.Sublist.subperm
  exact ((List.eraseIdx_sublist _ _).filterMap holder).append_right _

theorem IsSettled.step (settled : state.IsSettled) {action : DecidingAction}
    (fires : state.step env action = some next) : next.IsSettled := by
  cases action with
  | confirm id =>
      cases fires
      exact settled.request rfl
  | reject id =>
      cases fires
      exact settled.request rfl
  | post bearer req now =>
      simp only [Deciding.step] at fires
      split at fires
      · rename_i poster posting isCaller posts
        cases fires
        rcases postMessage_inserts posts with ⟨message, inserts⟩
        apply (Settled.insert settled inserts).of_subperm
        apply (claims_append state _ posting.tables state.taken).subperm.trans
        split <;> simp [List.Subperm.refl]
      · cases fires
        exact settled
  | «continue» request =>
      rcases Option.map_eq_some_iff.mp fires with ⟨handling, isRequest, rfl⟩
      apply IsSettled.handle
      exact Settled.of_subperm settled (claims_perm isRequest).subperm
  | fail request =>
      cases fires
      exact settled.leave request
  | deleteGroup id =>
      cases fires
      exact Settled.delete settled id
  | otherwise tables =>
      simp only [Deciding.step] at fires
      split at fires
      · rename_i same
        cases fires
        exact Settled.same_messages settled same.1 same.2
      · cases fires

theorem IsSettled.start (tables : A2ATables) : (start tables).IsSettled := by
  refine ⟨List.nodup_nil, ?_, ?_, List.nodup_nil, ?_, ?_⟩ <;> simp [claims, Deciding.start]

theorem IsSettled.decidedOnce (settled : state.IsSettled) : state.DecidedOnce := by
  have pushed : ∀ id ∈ state.forwarded.map (·.message.id), id ∈ state.claims := by
    intro id listed
    exact List.mem_append_right _ listed
  refine ⟨settled.one_turn, ?_, ?_, ?_, ?_⟩
  · intro turn listed
    refine ⟨?_, fun row isRow => settled.stays row isRow turn listed⟩
    rcases turn with ⟨id, status⟩
    cases status with
    | posted => exact Or.inl rfl
    | rejected => exact Or.inr rfl
    | pending => exact absurd rfl (settled.turns _ listed).2
  · exact settled.one_claim.sublist (List.sublist_append_right _ _)
  · intro push listed
    have claimed := pushed push.message.id (List.mem_map_of_mem listed)
    rcases (settled.known _ claimed).2 with gone | ⟨row, isRow, sameId⟩
    · exact Or.inl gone
    · refine Or.inr ⟨row, isRow, sameId, ?_⟩
      apply settled.posted row isRow
      rwa [sameId]
  · intro row isRow isRejected listed
    have isPosted := settled.posted row isRow (pushed row.id listed)
    rw [isRejected] at isPosted
    exact nomatch isPosted

theorem Stays.of_same (same : next.tables.messages = state.tables.messages) : Stays state next := by
  intro row isRow
  exact Or.inr ⟨row, same ▸ isRow, rfl, Or.inl rfl⟩

theorem Stays.trans {later : Deciding} (first : Stays state next) (second : Stays next later)
    (taken : next.taken ⊆ later.taken) (removed : next.removed ⊆ later.removed) :
    Stays state later := by
  intro row isRow
  rcases first row isRow with gone | ⟨middle, isMiddle, sameId, turned⟩
  · exact Or.inl (removed gone)
  · rcases second middle isMiddle with gone | ⟨last, isLast, lastId, turns⟩
    · exact Or.inl (sameId ▸ gone)
    · refine Or.inr ⟨last, isLast, lastId.trans sameId, ?_⟩
      rw [sameId] at turns
      rcases turned with same | ⟨wasPending, hadTurn⟩
      · rwa [same] at turns
      · rcases turns with same | ⟨_, hasTurn⟩
        · rw [same]
          exact Or.inr ⟨wasPending, taken hadTurn⟩
        · exact Or.inr ⟨wasPending, hasTurn⟩

/-- What a step leaves as it is. -/
structure Extends (state next : Deciding) : Prop where
  stays : Stays state next
  taken : state.taken ⊆ next.taken
  removed : state.removed ⊆ next.removed

theorem Extends.of_same (messages : next.tables.messages = state.tables.messages)
    (taken : next.taken = state.taken) (removed : next.removed = state.removed) :
    Extends state next :=
  ⟨Stays.of_same messages, taken ▸ List.Subset.refl _, removed ▸ List.Subset.refl _⟩

theorem Extends.handle (env : Env) (state : Deciding) (handling : Handling) :
    Extends state (state.handle env handling) := by
  cases handling with
  | update message status =>
      simp only [Deciding.handle]
      split
      · rename_i decided sets
        refine ⟨?_, List.subset_append_left _ _, List.Subset.refl _⟩
        rcases A2ATables.setA2AMessageStatus_messages sets with ⟨messages, _⟩
        intro row isRow
        refine Or.inr ?_
        simp only [messages]
        refine ⟨_, List.mem_map_of_mem isRow, ?_⟩
        by_cases turns : row.id = message.id ∧ row.status = .pending
        · rw [if_pos turns]
          exact ⟨rfl, Or.inr ⟨turns.2, by simp [turns.1]⟩⟩
        · rw [if_neg turns]
          exact ⟨rfl, Or.inl rfl⟩
      · exact Extends.of_same rfl rfl rfl
  | read id status =>
      simp only [Deciding.handle]
      split
      · split <;> exact Extends.of_same rfl rfl rfl
      · exact Extends.of_same rfl rfl rfl
  | group message =>
      simp only [Deciding.handle]
      split <;> exact Extends.of_same rfl rfl rfl
  | push message group => exact Extends.of_same rfl rfl rfl
  | send message group sender target => exact Extends.of_same rfl rfl rfl

theorem Extends.step {action : DecidingAction} (fires : state.step env action = some next) :
    Extends state next := by
  cases action with
  | post bearer req now =>
      simp only [Deciding.step] at fires
      split at fires
      · rename_i poster posting isCaller posts
        cases fires
        rcases postMessage_inserts posts with ⟨message, inserts⟩
        rcases A2ATables.insertA2AMessage_messages inserts with ⟨messages, _⟩
        refine ⟨?_, List.Subset.refl _, List.Subset.refl _⟩
        intro row isRow
        refine Or.inr ⟨row, ?_, rfl, Or.inl rfl⟩
        rw [messages]
        exact List.mem_append_left _ isRow
      · cases fires
        exact Extends.of_same rfl rfl rfl
  | «continue» request =>
      rcases Option.map_eq_some_iff.mp fires with ⟨handling, _, rfl⟩
      have handled := Extends.handle env (state.leave request) handling
      exact ⟨handled.stays, handled.taken, handled.removed⟩
  | deleteGroup id =>
      cases fires
      refine ⟨?_, List.Subset.refl _, List.subset_append_left _ _⟩
      intro row isRow
      by_cases inGroup : row.groupId = id
      · refine Or.inl (List.mem_append_right _ (List.mem_map_of_mem ?_))
        simpa [inGroup] using isRow
      · refine Or.inr ⟨row, ?_, rfl, Or.inl rfl⟩
        simpa [A2ATables.deleteA2AGroup, inGroup] using isRow
  | otherwise tables =>
      simp only [Deciding.step] at fires
      split at fires
      · rename_i same
        cases fires
        exact Extends.of_same same.1 rfl rfl
      · cases fires
  | confirm id =>
      cases fires
      exact Extends.of_same rfl rfl rfl
  | reject id =>
      cases fires
      exact Extends.of_same rfl rfl rfl
  | fail request =>
      cases fires
      exact Extends.of_same rfl rfl rfl

theorem Extends.run {actions : List DecidingAction} {last : Deciding}
    (run : Run (Deciding.step env) (fun _ _ => True) state actions last) : Extends state last := by
  apply run.invariant (Extends state)
  · exact Extends.of_same rfl rfl rfl
  · intro before after action extended _ fires
    have more := Extends.step fires
    exact ⟨extended.stays.trans more.stays more.taken more.removed,
      List.Subset.trans extended.taken more.taken, List.Subset.trans extended.removed more.removed⟩

end Invariant

/-- However the requests interleave, a message is decided once, stays so, and is pushed once. -/
theorem decided_once_of_run {env : Env} {tables : A2ATables} {before after : List DecidingAction}
    {state last : Deciding} (early : Run (step env) (fun _ _ => True) (start tables) before state)
    (late : Run (step env) (fun _ _ => True) state after last) :
    last.DecidedOnce ∧ Stays state last := by
  have run := early.append late
  have settled : last.IsSettled := by
    apply run.invariant IsSettled
    · exact IsSettled.start tables
    · intro first next action settled _ fires
      exact settled.step fires
  exact ⟨settled.decidedOnce, (Extends.run late).stays⟩

/-- A confirmation that nothing comes between is `decideA2AMessage`. -/
theorem exec_confirm {env : Env} {state : Deciding} {id : MessageId} {posting : Posting}
    {group : A2AGroup} (idle : state.requests = [])
    (decides : decideA2AMessage env state.tables id .posted = some posting)
    (hasGroup : posting.tables.getA2AGroup posting.message.groupId = some group) :
    exec (step env) state (.confirm id :: List.replicate 4 (.continue 0)) =
      some { state with
        tables := posting.tables
        taken := state.taken ++ [(id, .posted)]
        forwarded := state.forwarded ++ [⟨posting.message, posting.group, posting.targets⟩] } := by
  unfold decideA2AMessage at decides
  split at decides
  · cases decides
  · rename_i message found
    have sameId : message.id = id := by
      simpa using List.find?_some found
    split at decides
    · cases decides
    · rename_i isPending
      split at decides
      · cases decides
      · rename_i decided sets
        simp only at decides
        split at decides
        · rename_i row isRow
          cases decides
          simp [exec, step, leave, handle, idle, found, not_not.mp isPending, sameId, sets, isRow]
        · rename_i missing
          cases decides
          rw [missing] at hasGroup
          cases hasGroup

section Trials

/-- Two requests confirm a message and one rejects it, and all three read it as pending. -/
def raced : List DecidingAction :=
  [.post "agt-2" ⟨"orders", "", "Ready", true⟩ "", .confirm 2, .confirm 2, .reject 2,
    .continue 0, .continue 0, .continue 0]

def settledRace : List DecidingAction :=
  [.continue 1, .continue 0, .continue 0, .continue 0, .continue 0]

theorem decided_once_of_run_raced :
    ∃ state last, Run (step plainEnv) (fun _ _ => True) (start ordersTables) raced state ∧
      Run (step plainEnv) (fun _ _ => True) state settledRace last ∧
      last.taken = [(2, .posted)] ∧ last.forwarded.map (·.message.id) = [2] ∧
      last.DecidedOnce ∧ Stays state last := by
  have ran : ((exec (step plainEnv) (start ordersTables) raced).any fun state =>
      (exec (step plainEnv) state settledRace).any fun last =>
        last.taken = [(2, .posted)] && last.forwarded.map (·.message.id) = [2]) = true := by
    decide +kernel
  rcases (Option.any_eq_true _ _).mp ran with ⟨state, early, more⟩
  rcases (Option.any_eq_true _ _).mp more with ⟨last, late, facts⟩
  simp only [Bool.and_eq_true, decide_eq_true_eq] at facts
  exact ⟨state, last, run_of_exec early, run_of_exec late, facts.1, facts.2,
    decided_once_of_run (run_of_exec early) (run_of_exec late)⟩

end Trials

end Deciding

end MikroLLM.A2A
