import Mathlib.Data.Nat.Count
import Mathlib.Logic.Function.Basic
import Mathlib.Tactic.Simps.Basic
import MikroLLM.Library.Counting

/-!
# The mailbox of a poll-only agent

An agent without a URL holds `GET /a2a/connect` open. Pushes go to its waiting
connection, or into a queue of at most `agentQueueMax` entries; its replies find
the caller by the JSON-RPC id. The critical sections of the mailbox lock are the
steps, together with the sends and receives on the channels outside of it.

Every push copies its body into a buffer of its own, so a body is known by the
number of its push. A `TakeAgent` call and its channel have one number, and so
have a caller and its reply channel.
-/

namespace MikroLLM.A2A

open Library

abbrev PushId := ℕ

abbrev TakeId := ℕ

abbrev CallerId := ℕ

/-- A request body: a JSON object with the raw text of its members, or anything else. -/
inductive Body
  | object (members : List (String × String))
  | text (content : String)
  deriving DecidableEq

def Body.isEmpty : Body → Bool
  | .object _ => false
  | .text content => content.isEmpty

/-- The member names that `encoding/json` reads into the field `id`. -/
def idNames : List String :=
  ["id", "Id", "iD", "ID"]

/-- The raw text of the id of a JSON-RPC body, empty when there is none. -/
def rpcID : Body → String
  | .object members =>
      match members.reverse.find? fun member => member.1 ∈ idNames with
      | some member => if member.2 = "null" then "" else member.2
      | none => ""
  | .text _ => ""

def agentQueueMax : ℕ := 32

structure QueuedCall where
  id : String
  body : PushId
  reply : Option CallerId
  deriving DecidableEq

structure AgentBox where
  q : List QueuedCall
  waiter : Option TakeId
  waitReply : String → Option CallerId

namespace AgentBox

/-- `delete(b.waitReply, id)`. -/
@[simps -fullyApplied]
def forget (box : AgentBox) (id : String) : AgentBox :=
  { box with waitReply := Function.update box.waitReply id none }

/-- The caller waits for the reply with its id. -/
def register (box : AgentBox) (id : String) : Option CallerId → AgentBox
  | some c =>
      if id ≠ "" then { box with waitReply := Function.update box.waitReply id (some c) } else box
  | none => box

/-- The entry that a push drops, when the queue is full. -/
def overflow (box : AgentBox) : Option QueuedCall :=
  if agentQueueMax ≤ box.q.length then box.q.head? else none

/-- The end of `PushAgent`, without a waiter. -/
def enqueue (box : AgentBox) (call : QueuedCall) : AgentBox :=
  match box.overflow with
  | some dropped =>
      { box with
        q := box.q.tail ++ [call]
        waitReply :=
          if dropped.reply.isSome ∧ dropped.id ≠ "" then
            Function.update box.waitReply dropped.id none
          else box.waitReply }
  | none => { box with q := box.q ++ [call] }

/-- Put a late body back at the front. -/
@[simps -fullyApplied]
def requeue (box : AgentBox) (call : QueuedCall) : AgentBox :=
  { box with q := call :: box.q }

/-- A `TakeAgent` call that is the waiter stops being it. -/
@[simps -fullyApplied]
def leave (box : AgentBox) (t : TakeId) : AgentBox :=
  { box with waiter := if box.waiter = some t then none else box.waiter }

/-- The entries that `CancelAgent` drops. -/
def cancels (id : String) (item : QueuedCall) : Bool :=
  item.reply.isSome && item.id = id

/-- The queue after `CancelAgent`. -/
@[simps -fullyApplied]
def cancel (box : AgentBox) (id : String) : AgentBox :=
  { box with
    q := box.q.filter fun item => !cancels id item
    waitReply := Function.update box.waitReply id none }

@[simp]
theorem register_waiter (box : AgentBox) (id : String) (reply : Option CallerId) :
    (box.register id reply).waiter = box.waiter := by
  unfold AgentBox.register
  split
  · split <;> rfl
  · rfl

@[simp]
theorem register_q (box : AgentBox) (id : String) (reply : Option CallerId) :
    (box.register id reply).q = box.q := by
  unfold AgentBox.register
  split
  · split <;> rfl
  · rfl

@[simp]
theorem enqueue_waiter (box : AgentBox) (call : QueuedCall) :
    (box.enqueue call).waiter = box.waiter := by
  unfold AgentBox.enqueue
  split <;> rfl

theorem register_waitReply_cases {box : AgentBox} {id id' : String} {reply : Option CallerId}
    {c : CallerId} (registered : (box.register id reply).waitReply id' = some c) :
    (reply = some c ∧ id' = id ∧ id ≠ "") ∨ box.waitReply id' = some c := by
  unfold register at registered
  split at registered
  · split at registered
    · rename_i hasId
      simp only at registered
      rcases eq_or_ne id' id with rfl | other
      · left
        rw [Function.update_self, Option.some.injEq] at registered
        exact ⟨by rw [registered], rfl, hasId⟩
      · right
        rwa [Function.update_of_ne other] at registered
    · exact Or.inr registered
  · exact Or.inr registered

@[simp]
theorem register_overflow (box : AgentBox) (id : String) (reply : Option CallerId) :
    (box.register id reply).overflow = box.overflow := by
  simp only [overflow, register_q]

theorem register_waitReply_of_ne {box : AgentBox} {id id' : String} {reply : Option CallerId}
    (other : reply = none ∨ id' ≠ id) : (box.register id reply).waitReply id' = box.waitReply id' := by
  unfold register
  split
  · split
    · rcases other with absent | distinct
      · cases absent
      · simp [distinct]
    · rfl
  · rfl

theorem register_waitReply_self (box : AgentBox) {id : String} (hasId : id ≠ "") (c : CallerId) :
    (box.register id (some c)).waitReply id = some c := by
  simp [register, hasId]

theorem enqueue_waitReply_of_ne {box : AgentBox} {call : QueuedCall} {id : String}
    (kept : ∀ dropped, box.overflow = some dropped → dropped.reply.isSome → dropped.id ≠ "" →
      dropped.id ≠ id) : (box.enqueue call).waitReply id = box.waitReply id := by
  unfold enqueue
  split
  · rename_i dropped overflow
    simp only
    split
    · rename_i waits
      exact Function.update_of_ne (kept dropped overflow waits.1 waits.2).symm _ _
    · rfl
  · rfl

theorem enqueue_waitReply_of_eq_some {box : AgentBox} {call : QueuedCall} {id : String}
    {c : CallerId} (registered : (box.enqueue call).waitReply id = some c) :
    box.waitReply id = some c := by
  unfold enqueue at registered
  split at registered
  · simp only at registered
    split at registered
    · rename_i dropped _ _
      rcases eq_or_ne id dropped.id with rfl | other
      · simp at registered
      · rwa [Function.update_of_ne other] at registered
    · exact registered
  · exact registered

/-- The queue after a push: longer by the call, and when it was full shorter by its head. -/
theorem enqueue_q_cases (box : AgentBox) (call : QueuedCall) :
    (∃ dropped rest, agentQueueMax ≤ box.q.length ∧ box.q = dropped :: rest ∧
        box.overflow = some dropped ∧ (box.enqueue call).q = rest ++ [call]) ∨
      (box.q.length < agentQueueMax ∧ box.overflow = none ∧
        (box.enqueue call).q = box.q ++ [call]) := by
  by_cases full : agentQueueMax ≤ box.q.length
  · left
    cases q : box.q with
    | nil => simp [q, agentQueueMax] at full
    | cons dropped rest =>
        have overflow : box.overflow = some dropped := by
          rw [AgentBox.overflow, if_pos full, q, List.head?_cons]
        refine ⟨dropped, rest, by simpa [q] using full, rfl, overflow, ?_⟩
        simp [enqueue, overflow, q]
  · right
    have overflow : box.overflow = none := by simp [AgentBox.overflow, full]
    exact ⟨by omega, overflow, by simp [enqueue, overflow]⟩

theorem mem_enqueue_q {box : AgentBox} {call item : QueuedCall}
    (queued : item ∈ (box.enqueue call).q) : item ∈ box.q ∨ item = call := by
  rcases box.enqueue_q_cases call with ⟨dropped, rest, _, q, _, after⟩ | ⟨_, _, after⟩
  · rw [after, List.mem_append, List.mem_singleton] at queued
    rw [q, List.mem_cons]
    exact queued.imp_left Or.inr
  · rwa [after, List.mem_append, List.mem_singleton] at queued

theorem mem_of_overflow {box : AgentBox} {dropped : QueuedCall}
    (overflow : box.overflow = some dropped) : dropped ∈ box.q := by
  unfold AgentBox.overflow at overflow
  split at overflow
  · exact List.mem_of_head? overflow
  · cases overflow

theorem enqueue_mem {box : AgentBox} {call item : QueuedCall} (queued : item ∈ box.q)
    (kept : box.overflow ≠ some item) : item ∈ (box.enqueue call).q := by
  rcases box.enqueue_q_cases call with ⟨dropped, rest, _, q, overflow, after⟩ | ⟨_, _, after⟩
  · rw [after]
    rw [q] at queued
    rcases List.mem_cons.mp queued with rfl | listed
    · exact absurd overflow kept
    · exact List.mem_append_left _ listed
  · rw [after]
    exact List.mem_append_left _ queued

end AgentBox

/-- Where a `TakeAgent` call stands. -/
inductive TakePc
  | absent
  | waiting
  | returned (body : Option PushId) (busy : Bool)
  deriving DecidableEq

/-- A body that the agent posted to `POST /a2a/connect`, and the delivered call it is the reply to. -/
structure Answer where
  body : Body
  answers : Option PushId
  deriving DecidableEq

/-- Where a caller with a reply channel stands. -/
inductive CallerPc
  | idle
  | awaiting (call : PushId)
  | answered (call : PushId) (answer : Answer)
  | timedOut (call : PushId)
  deriving DecidableEq

/-- The mailbox and everything that holds one of its bodies. `sends` are the replies that
`ReplyAgent` has taken the channel for and not yet sent; `owner`, the caller whose channel a push
came with, and `discarded` are histories. -/
structure Mailbox where
  box : AgentBox
  bodies : PushId → Body
  owner : PushId → Option CallerId
  pushed : ℕ
  takes : TakeId → TakePc
  channels : TakeId → Option PushId
  taken : ℕ
  discarded : List PushId
  callers : CallerId → CallerPc
  replies : CallerId → Option Answer
  sends : List (CallerId × Answer)

namespace Mailbox

/-- The mailbox that `box` makes for a name. -/
def empty : Mailbox where
  box := ⟨[], none, fun _ => none⟩
  bodies := fun _ => .text ""
  owner := fun _ => none
  pushed := 0
  takes := fun _ => .absent
  channels := fun _ => none
  taken := 0
  discarded := []
  callers := fun _ => .idle
  replies := fun _ => none
  sends := []

/-- The body is copied, and its caller waits from now on. -/
@[simps -fullyApplied]
def allocate (state : Mailbox) (body : Body) (reply : Option CallerId) : Mailbox :=
  { state with
    bodies := Function.update state.bodies state.pushed body
    owner := Function.update state.owner state.pushed reply
    pushed := state.pushed + 1
    callers :=
      match reply with
      | some c => Function.update state.callers c (.awaiting state.pushed)
      | none => state.callers }

/-- Send a body on the channel of the waiter. -/
@[simps -fullyApplied]
def hand (state : Mailbox) (t : TakeId) (n : PushId) : Mailbox :=
  { state with
    box := { state.box with waiter := none }
    channels := Function.update state.channels t (some n) }

/-- Put a call into the queue, the oldest one giving way when it is full. -/
@[simps -fullyApplied]
def enqueue (state : Mailbox) (call : QueuedCall) : Mailbox :=
  { state with
    box := state.box.enqueue call
    discarded := state.discarded ++ (state.box.overflow.map QueuedCall.body).toList }

@[simps -fullyApplied]
def setBox (state : Mailbox) (box : AgentBox) : Mailbox :=
  { state with box := box }

/-- A `TakeAgent` call that is waiting goes on, and its channel is read. -/
@[simps -fullyApplied]
def finishTake (state : Mailbox) (t : TakeId) (body : Option PushId) : Mailbox :=
  { state with
    takes := Function.update state.takes t (.returned body false)
    channels := Function.update state.channels t none }

/-- A `TakeAgent` call begins. -/
@[simps -fullyApplied]
def beginTake (state : Mailbox) (box : AgentBox) (pc : TakePc) : Mailbox :=
  { state with
    box := box
    takes := Function.update state.takes state.taken pc
    taken := state.taken + 1 }

/-- `PushAgent`; `none` when the send on the channel of the waiter blocks. -/
def pushAgent (state : Mailbox) (body : Body) (reply : Option CallerId) : Option Mailbox :=
  if body.isEmpty then some state
  else
    let id := rpcID body
    let next := (state.allocate body reply).setBox (state.box.register id reply)
    match state.box.waiter with
    | some t =>
        match state.channels t with
        | some _ => none
        | none => some (next.hand t state.pushed)
    | none => some (next.enqueue ⟨id, state.pushed, reply⟩)

/-- `TakeAgent` up to its first unlock. -/
def takeAgent (state : Mailbox) : Mailbox :=
  match state.box.q with
  | item :: rest => state.beginTake { state.box with q := rest } (.returned (some item.body) false)
  | [] =>
      match state.box.waiter with
      | some _ => state.beginTake state.box (.returned none true)
      | none => state.beginTake { state.box with waiter := some state.taken } .waiting

/-- `TakeAgent` receives from its channel. -/
def receive (state : Mailbox) (t : TakeId) : Option Mailbox :=
  match state.takes t, state.channels t with
  | .waiting, some n => some (state.finishTake t (some n))
  | _, _ => none

/-- The branch of `TakeAgent` after its context is done. -/
def takeDone (state : Mailbox) (t : TakeId) : Option Mailbox :=
  if state.takes t = .waiting then
    match state.channels t with
    | some late =>
        some ((state.setBox
          ((state.box.leave t).requeue ⟨rpcID (state.bodies late), late, none⟩)).finishTake t none)
    | none => some ((state.setBox (state.box.leave t)).finishTake t none)
  else none

/-- A `TakeAgent` call has returned the body. -/
def delivered (state : Mailbox) (n : PushId) : Bool :=
  (List.range state.taken).any fun t => state.takes t = .returned (some n) false

/-- The critical section of `ReplyAgent`. The agent answers calls that it was delivered, each
with the id of the call. -/
def replyAgent (state : Mailbox) (answer : Answer) : Option Mailbox :=
  let id := rpcID answer.body
  if answer.answers.all fun n => state.delivered n && rpcID (state.bodies n) = id then
    if id = "" then some state
    else
      match state.box.waitReply id with
      | some c =>
          some { state.setBox (state.box.forget id) with sends := state.sends ++ [(c, answer)] }
      | none => some (state.setBox (state.box.forget id))
  else none

/-- `ReplyAgent` sends on the reply channel, unless it is full. -/
def send (state : Mailbox) (k : ℕ) : Option Mailbox :=
  (state.sends[k]?).map fun pending =>
    { state with
      sends := state.sends.eraseIdx k
      replies :=
        if state.replies pending.1 = none then
          Function.update state.replies pending.1 (some pending.2)
        else state.replies }

/-- `connected` receives the reply. -/
def hear (state : Mailbox) (c : CallerId) : Option Mailbox :=
  match state.callers c, state.replies c with
  | .awaiting n, some answer =>
      some { state with
        callers := Function.update state.callers c (.answered n answer)
        replies := Function.update state.replies c none }
  | _, _ => none

/-- `CancelAgent`. -/
def cancelAgent (state : Mailbox) (id : String) : Mailbox :=
  if id = "" then state
  else
    { state.setBox (state.box.cancel id) with
      discarded :=
        state.discarded ++ (state.box.q.filter (AgentBox.cancels id)).map QueuedCall.body }

/-- `connected` gives up after 60 seconds. -/
def timeout (state : Mailbox) (c : CallerId) : Option Mailbox :=
  match state.callers c with
  | .awaiting n =>
      some { state.cancelAgent (rpcID (state.bodies n)) with
        callers := Function.update state.callers c (.timedOut n) }
  | _ => none

/-- A critical section of the mailbox, or an access to a channel outside of it. -/
inductive Action
  | pushAgent (body : Body) (reply : Option CallerId)
  | takeAgent
  | receive (t : TakeId)
  | takeDone (t : TakeId)
  | replyAgent (answer : Answer)
  | send (k : ℕ)
  | hear (c : CallerId)
  | timeout (c : CallerId)
  | cancelAgent (id : String)

/-- One step. A caller makes one call, on a reply channel of its own. -/
def step (state : Mailbox) : Action → Option Mailbox
  | .pushAgent body reply =>
      if reply.all fun c => state.callers c = .idle then state.pushAgent body reply else none
  | .takeAgent => some state.takeAgent
  | .receive t => state.receive t
  | .takeDone t => state.takeDone t
  | .replyAgent answer => state.replyAgent answer
  | .send k => state.send k
  | .hear c => state.hear c
  | .timeout c => state.timeout c
  | .cancelAgent id => some (state.cancelAgent id)

section Cases

variable {state next : Mailbox}

/-- What `PushAgent` does: nothing, or hand the body to the waiter, or put it into the queue. -/
theorem pushAgent_cases {body : Body} {reply : Option CallerId}
    (pushes : state.pushAgent body reply = some next) :
    (body.isEmpty = true ∧ next = state) ∨
      (body.isEmpty = false ∧ ∃ t, state.box.waiter = some t ∧ state.channels t = none ∧
        next = ((state.allocate body reply).setBox (state.box.register (rpcID body) reply)).hand t
          state.pushed) ∨
      (body.isEmpty = false ∧ state.box.waiter = none ∧
        next = ((state.allocate body reply).setBox
          (state.box.register (rpcID body) reply)).enqueue ⟨rpcID body, state.pushed, reply⟩) := by
  unfold pushAgent at pushes
  cases isEmpty : body.isEmpty with
  | true =>
      simp only [isEmpty, if_true, Option.some.injEq] at pushes
      exact Or.inl ⟨rfl, pushes.symm⟩
  | false =>
      simp only [isEmpty, Bool.false_eq_true, if_false] at pushes
      right
      cases waiter : state.box.waiter with
      | none =>
          simp only [waiter, Option.some.injEq] at pushes
          exact Or.inr ⟨rfl, rfl, pushes.symm⟩
      | some t =>
          left
          cases channel : state.channels t with
          | none =>
              simp only [waiter, channel, Option.some.injEq] at pushes
              exact ⟨rfl, t, rfl, channel, pushes.symm⟩
          | some n => simp [waiter, channel] at pushes

/-- What a `TakeAgent` call does first: take the oldest entry, find another waiter, or wait. -/
theorem takeAgent_cases (state : Mailbox) :
    (∃ item rest, state.box.q = item :: rest ∧
        state.takeAgent =
          state.beginTake { state.box with q := rest } (.returned (some item.body) false)) ∨
      (state.box.q = [] ∧ state.box.waiter ≠ none ∧
        state.takeAgent = state.beginTake state.box (.returned none true)) ∨
      (state.box.q = [] ∧ state.box.waiter = none ∧
        state.takeAgent = state.beginTake { state.box with waiter := some state.taken }
          .waiting) := by
  unfold takeAgent
  cases q : state.box.q with
  | cons item rest => exact Or.inl ⟨item, rest, rfl, rfl⟩
  | nil =>
      right
      cases waiter : state.box.waiter with
      | some t => exact Or.inl ⟨rfl, by simp, rfl⟩
      | none => exact Or.inr ⟨rfl, rfl, rfl⟩

/-- A receive takes the body out of the channel of a call that waits. -/
theorem receive_cases {t : TakeId} (receives : state.receive t = some next) :
    ∃ n, state.takes t = .waiting ∧ state.channels t = some n ∧
      next = state.finishTake t (some n) := by
  unfold receive at receives
  split at receives
  · rename_i n waits holds
    exact ⟨n, waits, holds, (Option.some.inj receives).symm⟩
  · cases receives

/-- A call that gives up puts back what its channel holds. -/
theorem takeDone_cases {t : TakeId} (done : state.takeDone t = some next) :
    state.takes t = .waiting ∧
      ((∃ late, state.channels t = some late ∧
          next = (state.setBox ((state.box.leave t).requeue
            ⟨rpcID (state.bodies late), late, none⟩)).finishTake t none) ∨
        (state.channels t = none ∧
          next = (state.setBox (state.box.leave t)).finishTake t none)) := by
  unfold takeDone at done
  split at done
  · rename_i waits
    refine ⟨waits, ?_⟩
    split at done
    · rename_i late holds
      exact Or.inl ⟨late, holds, (Option.some.inj done).symm⟩
    · rename_i holds
      exact Or.inr ⟨holds, (Option.some.inj done).symm⟩
  · cases done

/-- `ReplyAgent` takes at most one reply channel out of the map. -/
theorem replyAgent_cases {answer : Answer} (replies : state.replyAgent answer = some next) :
    (answer.answers.all fun n =>
        state.delivered n && rpcID (state.bodies n) = rpcID answer.body) = true ∧
      ((rpcID answer.body = "" ∧ next = state) ∨
        (rpcID answer.body ≠ "" ∧ ∃ c, state.box.waitReply (rpcID answer.body) = some c ∧
          next = { state.setBox (state.box.forget (rpcID answer.body)) with
            sends := state.sends ++ [(c, answer)] }) ∨
        (rpcID answer.body ≠ "" ∧ state.box.waitReply (rpcID answer.body) = none ∧
          next = state.setBox (state.box.forget (rpcID answer.body)))) := by
  unfold replyAgent at replies
  simp only at replies
  split at replies
  · rename_i honest
    refine ⟨honest, ?_⟩
    split at replies
    · rename_i noId
      exact Or.inl ⟨noId, (Option.some.inj replies).symm⟩
    · rename_i hasId
      right
      split at replies
      · rename_i c registered
        exact Or.inl ⟨hasId, c, registered, (Option.some.inj replies).symm⟩
      · rename_i registered
        exact Or.inr ⟨hasId, registered, (Option.some.inj replies).symm⟩
  · cases replies

theorem send_cases {k : ℕ} (sends : state.send k = some next) :
    ∃ c answer, state.sends[k]? = some (c, answer) ∧
      next = { state with
        sends := state.sends.eraseIdx k
        replies :=
          if state.replies c = none then Function.update state.replies c (some answer)
          else state.replies } := by
  unfold send at sends
  rcases Option.map_eq_some_iff.mp sends with ⟨⟨c, answer⟩, listed, result⟩
  exact ⟨c, answer, listed, result.symm⟩

theorem hear_cases {c : CallerId} (hears : state.hear c = some next) :
    ∃ n answer, state.callers c = .awaiting n ∧ state.replies c = some answer ∧
      next = { state with
        callers := Function.update state.callers c (.answered n answer)
        replies := Function.update state.replies c none } := by
  unfold hear at hears
  split at hears
  · rename_i n answer awaits holds
    exact ⟨n, answer, awaits, holds, (Option.some.inj hears).symm⟩
  · cases hears

theorem timeout_cases {c : CallerId} (expires : state.timeout c = some next) :
    ∃ n, state.callers c = .awaiting n ∧
      next = { state.cancelAgent (rpcID (state.bodies n)) with
        callers := Function.update state.callers c (.timedOut n) } := by
  unfold timeout at expires
  split at expires
  · rename_i n awaits
    exact ⟨n, awaits, (Option.some.inj expires).symm⟩
  · cases expires

theorem cancelAgent_cases (state : Mailbox) (id : String) :
    (id = "" ∧ state.cancelAgent id = state) ∨
      (id ≠ "" ∧ state.cancelAgent id = { state.setBox (state.box.cancel id) with
        discarded := state.discarded ++
          (state.box.q.filter (AgentBox.cancels id)).map QueuedCall.body }) := by
  unfold cancelAgent
  split
  · exact Or.inl ⟨by assumption, rfl⟩
  · exact Or.inr ⟨by assumption, rfl⟩

@[simp]
theorem cancelAgent_pushed (state : Mailbox) (id : String) :
    (state.cancelAgent id).pushed = state.pushed := by
  unfold cancelAgent
  split <;> rfl

/-- Pushes are never taken back. -/
theorem pushed_le_step {action : Action} (fires : state.step action = some next) :
    state.pushed ≤ next.pushed := by
  cases action with
  | pushAgent body reply =>
      simp only [step] at fires
      split at fires
      · rcases pushAgent_cases fires with ⟨_, rfl⟩ | ⟨_, _, _, _, rfl⟩ | ⟨_, _, rfl⟩
        · exact le_rfl
        · exact Nat.le_succ _
        · exact Nat.le_succ _
      · cases fires
  | takeAgent =>
      rw [step, Option.some.injEq] at fires
      subst fires
      rcases takeAgent_cases state with ⟨_, _, _, taken⟩ | ⟨_, _, taken⟩ | ⟨_, _, taken⟩
      all_goals
        rw [taken]
        exact le_rfl
  | receive t =>
      rcases receive_cases fires with ⟨_, _, _, rfl⟩
      exact le_rfl
  | takeDone t =>
      rcases (takeDone_cases fires).2 with ⟨_, _, rfl⟩ | ⟨_, rfl⟩
      · exact le_rfl
      · exact le_rfl
  | replyAgent answer =>
      rcases (replyAgent_cases fires).2 with ⟨_, rfl⟩ | ⟨_, _, _, rfl⟩ | ⟨_, _, rfl⟩
      all_goals exact le_rfl
  | send k =>
      rcases send_cases fires with ⟨_, _, _, rfl⟩
      exact le_rfl
  | hear c =>
      rcases hear_cases fires with ⟨_, _, _, _, rfl⟩
      exact le_rfl
  | timeout c =>
      rcases timeout_cases fires with ⟨m, _, rfl⟩
      exact (cancelAgent_pushed state (rpcID (state.bodies m))).ge
  | cancelAgent id =>
      rw [step, Option.some.injEq] at fires
      subst fires
      exact (cancelAgent_pushed state id).ge

/-- A body that is not empty gets the next number. -/
theorem pushAgent_pushed {body : Body} {reply : Option CallerId} (notEmpty : body.isEmpty = false)
    (pushes : state.pushAgent body reply = some next) : next.pushed = state.pushed + 1 := by
  rcases pushAgent_cases pushes with ⟨isEmpty, _⟩ | ⟨_, _, _, _, rfl⟩ | ⟨_, _, rfl⟩
  · rw [notEmpty] at isEmpty
    cases isEmpty
  · rfl
  · rfl

end Cases

end Mailbox

end MikroLLM.A2A
