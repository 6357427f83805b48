import MikroLLM.Domain.Security
import MikroLLM.Go.Bodies
import MikroLLM.Go.Strings
import MikroLLM.Go.Text
import MikroLLM.Go.Writer

/-!
# Guard policies on a body

`guard.Apply` walks over the texts of a request or of a reply, once for every
policy of the phase. What a policy does to one text is a function of the policy:
it gives the text that takes its place, or the reason of a refusal. A policy
without such a function, such as one whose pattern does not compile, does
nothing.
-/

namespace MikroLLM.Guard

open Domain Go

structure Block where
  policy : String
  kind : GuardKind
  message : String
  deriving DecidableEq

/-- What the policies do to a text. -/
abbrev Filters := Policy → Option (String → Except String String)

def reject (policy : Policy) (why : String) : Block where
  policy := policy.name
  kind := policy.kind
  message := "Отклонено фильтром «" ++ policy.name ++ "» (" ++ why ++ ")."

/-- `Dedup`, after these ids. -/
def dedupFrom : List PolicyId → List Policy → List Policy
  | _, [] => []
  | seen, policy :: rest =>
      if policy.id ≠ 0 ∧ policy.id ∈ seen then dedupFrom seen rest
      else
        let seen := if policy.id ≠ 0 then policy.id :: seen else seen
        if policy.enabled then policy :: dedupFrom seen rest else dedupFrom seen rest

def dedup (policies : List Policy) : List Policy :=
  dedupFrom [] policies

def applies (policy : Policy) (phase : GuardPhase) : Bool :=
  if policy.kind = .systemPrompt then phase = .pre
  else
    match policy.mode with
    | .both => true
    | .post => phase = .post
    | .pre => phase = .pre

def hasPost (policies : List Policy) : Bool :=
  (dedup policies).any fun policy => policy.kind ≠ .systemPrompt && applies policy .post

section Walking

variable (rewrite : String → Except Block String)

/-- One part of a content list. -/
def rewritePart : Json → Except Block Json
  | .object part =>
      match field part "text" with
      | .string text => (rewrite text).map fun next =>
          if next ≠ text then .object (setField part "text" (.string next)) else .object part
      | _ => .ok (.object part)
  | part => .ok part

def rewriteContent : Json → Except Block Json
  | .string text => (rewrite text).map .string
  | .array parts => (parts.mapM (rewritePart rewrite)).map .array
  | content => .ok content

/-- A content member, and whether it changed. -/
def rewriteMember (fields : Fields) (key : String) : Except Block (Fields × Bool) :=
  (rewriteContent rewrite (field fields key)).map fun next =>
    if next = field fields key then (fields, false) else (setField fields key next, true)

/-- A member that is a text. -/
def walkText (fields : Fields) (key : String) : Except Block (Fields × Bool) :=
  match field fields key with
  | .string text => (rewrite text).map fun next =>
      if next ≠ text then (setField fields key (.string next), true) else (fields, false)
  | _ => .ok (fields, false)

/-- A member that is an object. -/
def walkObject (walk : Fields → Except Block (Fields × Bool)) (fields : Fields) (key : String) :
    Except Block (Fields × Bool) :=
  match field fields key with
  | .object inner => (walk inner).map fun next =>
      if next.2 then (setField fields key (.object next.1), true) else (fields, false)
  | _ => .ok (fields, false)

/-- The items of a list that are objects. -/
def walkItems (walk : Fields → Except Block (Fields × Bool)) :
    List Json → Except Block (List Json × Bool)
  | [] => .ok ([], false)
  | .object item :: rest => do
      let next ← walk item
      let others ← walkItems walk rest
      .ok (.object next.1 :: others.1, next.2 || others.2)
  | item :: rest => (walkItems walk rest).map fun others => (item :: others.1, others.2)

/-- A member that is a list of objects. -/
def walkArray (walk : Fields → Except Block (Fields × Bool)) (fields : Fields) (key : String) :
    Except Block (Fields × Bool) :=
  match field fields key with
  | .array items => (walkItems walk items).map fun next =>
      if next.2 then (setField fields key (.array next.1), true) else (fields, false)
  | _ => .ok (fields, false)

/-- One choice of a reply. -/
def walkChoice (choice : Fields) : Except Block (Fields × Bool) := do
  let message ← walkObject (rewriteMember rewrite · "content") choice "message"
  let text ← walkText rewrite message.1 "text"
  .ok (text.1, message.2 || text.2)

def phaseChoices (raw : Fields) : Except Block (Fields × Bool) := do
  let choices ← walkArray (walkChoice rewrite) raw "choices"
  let message ← walkObject (rewriteMember rewrite · "content") choices.1 "message"
  .ok (message.1, choices.2 || message.2)

def walk (raw : Fields) : Except Block (Fields × Bool) := do
  let messages ← walkArray (rewriteMember rewrite · "content") raw "messages"
  let prompt ← walkText rewrite messages.1 "prompt"
  let choices ← phaseChoices rewrite prompt.1
  .ok (choices.1, messages.2 || prompt.2 || choices.2)

end Walking

section Applying

variable (text : TextLibrary) (filters : Filters)

def applyPolicy (raw : Fields) (policy : Policy) : Except Block (Fields × Bool) :=
  match filters policy with
  | none => .ok (raw, false)
  | some rewrite => walk (fun content => (rewrite content).mapError (reject policy)) raw

/-- The distinct prompts of the system prompt policies. -/
def joinSystem (policies : List Policy) : String :=
  let prompts := (policies.filter fun policy =>
    policy.kind = .systemPrompt && applies policy .pre).map fun policy =>
      trimSpace policy.config.prompt
  join (prompts.foldl (fun parts prompt =>
    if prompt = "" ∨ prompt ∈ parts then parts else parts ++ [prompt]) []) "\n\n"

/-- A system message with the prompt before its own content. -/
def prependPrompt (prompt : String) : Json → Json
  | .string content => .string (prompt ++ "\n\n" ++ content)
  | .array parts =>
      .array (.object [("type", .string "text"), ("text", .string prompt)] :: parts)
  | _ => .string (prompt ++ "\n\n")

/-- The message is one of the system. -/
def isSystem (message : Fields) : Bool :=
  match field message "role" with
  | .string role => text.equalFold role "system"
  | _ => false

def injectSystem (raw : Fields) (prompt : String) : Fields :=
  let messages :=
    match field raw "messages" with
    | .array items => items
    | _ => []
  let fresh : Json := .object [("role", .string "system"), ("content", .string prompt)]
  match messages with
  | .object first :: rest =>
      if isSystem text first then
        setField raw "messages" (.array (.object (setField first "content"
          (prependPrompt prompt (field first "content"))) :: rest))
      else setField raw "messages" (.array (fresh :: messages))
  | _ => setField raw "messages" (.array (fresh :: messages))

/-- What `Apply` returns; `ran` is a history of the policies that were applied to the body. -/
structure Result where
  body : Bytes
  block : Option Block
  changed : Bool
  ran : List Policy

/-- The loop of `Apply` over the policies of the phase. -/
def applyAll : Fields → List Policy → Except Block (Fields × Bool)
  | raw, [] => .ok (raw, false)
  | raw, policy :: rest => do
      let first ← if policy.kind = .systemPrompt then .ok (raw, false)
        else applyPolicy filters raw policy
      let others ← applyAll first.1 rest
      .ok (others.1, first.2 || others.2)

/-- The body after the prompts are written into it, before the phase `pre`. -/
def prompted (raw : Fields) (policies : List Policy) (phase : GuardPhase) : Fields × Bool :=
  let prompt := joinSystem policies
  if phase = .pre ∧ prompt ≠ "" then (injectSystem text raw prompt, true) else (raw, false)

def apply (codec : Codec) (body : Bytes) (policies : List Policy) (phase : GuardPhase) : Result :=
  let policies := dedup policies
  let due := policies.filter fun policy => applies policy phase
  if due = [] then ⟨body, none, false, []⟩
  else
    match codec.decode body with
    | none => ⟨body, none, false, []⟩
    | some raw =>
        let begun := prompted text raw policies phase
        match applyAll filters begun.1 due with
        | .error block => ⟨body, some block, false, []⟩
        | .ok done =>
            if begun.2 || done.2 then ⟨codec.marshal done.1, none, true, due⟩
            else ⟨body, none, false, due⟩

/-- `IsStream`. -/
def isStream (codec : Codec) (body : Bytes) : Bool :=
  match codec.decode body with
  | none => false
  | some raw =>
      match field raw "stream" with
      | .bool value => value
      | .string value => value = "true" || value = "1"
      | _ => false

/-- `WriteError`. -/
def writeError (block : Block) : Fields :=
  [("error", .object [
    ("message", .string (if block.message = "" then "Rejected by guardrail" else block.message)),
    ("type", .string "content_filter"), ("param", .string block.kind.text),
    ("code", .string "guardrail_intervened"), ("policy", .string block.policy)])]

end Applying

end MikroLLM.Guard
