import MikroLLM.Hub.Envelope

/-!
# Collapsed completions

The hub gets the result of a chat job as one JSON object. `ParseChat` merges a
plain completion, or the chunks of an event stream, and `CollapseChat` writes what
came of it.
-/

namespace MikroLLM.Hub

open Go

/-- The function of a call and its arguments. -/
structure ToolFunction where
  name : String := ""
  arguments : String := ""
  deriving DecidableEq

/-- A call of a tool. -/
structure ToolCall where
  id : String := ""
  index : ℤ
  type : String := ""
  function : ToolFunction := {}
  deriving DecidableEq

/-- The function of a call as it is sent, with any document as its arguments. -/
structure FunctionRaw where
  name : String := ""
  arguments : Option Doc := none

/-- A call, or a part of a call, as it is sent. -/
structure ToolCallRaw where
  id : String := ""
  index : Option ℤ := none
  type : String := ""
  function : FunctionRaw := {}

namespace ToolCallRaw

def idx (call : ToolCallRaw) : ℤ :=
  call.index.getD 0

/-- The arguments as a text. `Marshal` will replace the bytes that are none. -/
def arguments (call : ToolCallRaw) : String :=
  match call.function.arguments with
  | none => ""
  | some (.string inner) => unquote inner
  | some doc => decodeText doc.print

end ToolCallRaw

/-- A message or a delta. -/
structure Message where
  content : Json := .null
  reasoning : Json := .null
  reasoningContent : Json := .null
  toolCalls : Slice ToolCallRaw := {}

structure Choice where
  finishReason : Option String := none
  message : Message := {}
  delta : Message := {}

/-- A completion, or a chunk of one, as `mergeChunk` decodes it. -/
structure Chunk where
  id : String := ""
  model : String := ""
  usage : Option Doc := none
  choices : Slice Choice := {}

def storeFunction : Store FunctionRaw :=
  storeStruct fun members held => do
    let name ← storeField storeString members "name" held.name
    let arguments ← storeField storeRaw members "arguments" held.arguments
    some { name, arguments }

def storeCall : Store ToolCallRaw :=
  storeStruct fun members held => do
    let id ← storeField storeString members "id" held.id
    let index ← storeField (storePointer 0 storeInt) members "index" held.index
    let type ← storeField storeString members "type" held.type
    let function ← storeField storeFunction members "function" held.function
    some { id, index, type, function }

def storeMessage : Store Message :=
  storeStruct fun members held => do
    let content ← storeField storeAny members "content" held.content
    let reasoning ← storeField storeAny members "reasoning" held.reasoning
    let reasoningContent ← storeField storeAny members "reasoning_content" held.reasoningContent
    let toolCalls ← storeField (storeItems {} storeCall) members "tool_calls" held.toolCalls
    some { content, reasoning, reasoningContent, toolCalls }

def storeChoice : Store Choice :=
  storeStruct fun members held => do
    let finishReason ←
      storeField (storePointer "" storeString) members "finish_reason" held.finishReason
    let message ← storeField storeMessage members "message" held.message
    let delta ← storeField storeMessage members "delta" held.delta
    some { finishReason, message, delta }

def storeChunk : Store Chunk :=
  storeStruct fun members held => do
    let id ← storeField storeString members "id" held.id
    let model ← storeField storeString members "model" held.model
    let usage ← storeField storeRaw members "usage" held.usage
    let choices ← storeField (storeItems {} storeChoice) members "choices" held.choices
    some { id, model, usage, choices }

/-- The text of a part of a content. -/
def partText : Json → String
  | .object fields =>
      match field fields "text" with
      | .string text => text
      | _ => ""
  | .string text => text
  | _ => ""

def anyText : Json → String
  | .string text => text
  | .array parts => String.join (parts.map partText)
  | _ => ""

/-- What was merged so far. -/
structure ChatResult where
  id : String := ""
  model : String := ""
  content : String := ""
  reasoning : String := ""
  toolCalls : List ToolCall := []
  finishReason : String := ""
  usage : Option Doc := none
  found : Bool := false
  callPos : Option (List (ℤ × ℕ)) := none

/-- The part of a call goes into the call. -/
def ToolCall.merge (call : ToolCall) (raw : ToolCallRaw) : ToolCall where
  id := if raw.id ≠ "" then raw.id else call.id
  index := call.index
  type := if raw.type ≠ "" then raw.type else call.type
  function :=
    { name :=
        if raw.function.name = "" then call.function.name
        else if call.function.name = "" then raw.function.name
        else if raw.function.name ≠ call.function.name then
          call.function.name ++ raw.function.name
        else call.function.name
      arguments := call.function.arguments ++ raw.arguments }

namespace ChatResult

def mergeIndexInit (result : ChatResult) : ChatResult :=
  match result.callPos with
  | some _ => result
  | none =>
      let places := result.toolCalls.zipIdx.map fun placed => (placed.1.index, placed.2)
      { result with callPos := some places.reverse }

/-- The body of the loop of `mergeCalls`. -/
def mergeCall (result : ChatResult) (call : ToolCallRaw) : ChatResult :=
  let places := result.callPos.getD []
  match places.lookup call.idx with
  | some pos => { result with toolCalls := result.toolCalls.modify pos (·.merge call) }
  | none =>
      let pos := result.toolCalls.length
      let opened : ToolCall := { index := call.idx }
      { result with
        toolCalls := (result.toolCalls ++ [opened]).modify pos (·.merge call)
        callPos := some ((call.idx, pos) :: places) }

def mergeCalls (result : ChatResult) (calls : List ToolCallRaw) : ChatResult :=
  calls.foldl mergeCall result.mergeIndexInit

/-- What `mergeChunk` takes from a chunk besides its choice. -/
def addMeta (result : ChatResult) (chunk : Chunk) : ChatResult :=
  { result with
    id := if chunk.id ≠ "" ∧ result.id = "" then chunk.id else result.id
    model := if chunk.model ≠ "" ∧ result.model = "" then chunk.model else result.model
    usage := if chunk.usage.isSome then chunk.usage else result.usage }

/-- The texts that `mergeChunk` takes from the choice. -/
def addText (result : ChatResult) (message delta : Message) : ChatResult :=
  { result with
    found := true
    content := result.content ++ (anyText message.content ++ anyText delta.content)
    reasoning := result.reasoning ++
      (anyText message.reasoning ++ anyText message.reasoningContent ++
        anyText delta.reasoning ++ anyText delta.reasoningContent) }

/-- `mergeChunk`, once the chunk is decoded. -/
def add (result : ChatResult) (chunk : Chunk) : ChatResult :=
  let result := result.addMeta chunk
  match chunk.choices.items with
  | [] => result
  | choice :: _ =>
      let result := result.addText choice.message choice.delta
      let result := (result.mergeCalls choice.message.toolCalls.items).mergeCalls
        choice.delta.toolCalls.items
      let reason := choice.finishReason.getD ""
      { result with finishReason := if reason ≠ "" then reason else result.finishReason }

def mergeChunk (result : ChatResult) (raw : Bytes) : ChatResult :=
  match (parseDoc maxNestingDepth raw).bind fun doc => storeChunk doc {} with
  | some chunk => result.add chunk
  | none => result

/-- The body of the loop of `ParseChat`. -/
def mergeLine (result : ChatResult) (line : Bytes) : ChatResult :=
  let line := trimBytes line
  if ¬dataField <+: line then result
  else
    let data := trimBytes (line.drop 5)
    if data = bytesOf "[DONE]" ∨ data = [] then result else result.mergeChunk data

end ChatResult

def parseChat (body : Bytes) : ChatResult :=
  let trim := trimBytes body
  if trim = [] then {}
  else if validJSON trim ∧ ¬dataField <+: trim then ChatResult.mergeChunk {} trim
  else (body.splitOn 0x0a).foldl ChatResult.mergeLine {}

/-- `Marshal` of a call. -/
def ToolCall.doc (call : ToolCall) : Doc :=
  .object (textMemberOmit "id" (bytesOf call.id) ++
    (bytesOf "index", .number (intLiteral call.index)) ::
      (textMemberOmit "type" (bytesOf call.type) ++
        [(bytesOf "function", .object [textMember "name" (bytesOf call.function.name),
          textMember "arguments" (bytesOf call.function.arguments)])]))

namespace ChatResult

/-- The map `msg`, as `Marshal` writes it. -/
def messageDoc (result : ChatResult) : Doc :=
  .object (textMember "content" (bytesOf result.content) ::
    (textMemberOmit "reasoning" (bytesOf result.reasoning) ++
      textMember "role" (bytesOf "assistant") ::
        (if result.toolCalls = [] then []
          else [(bytesOf "tool_calls", .array (result.toolCalls.map ToolCall.doc))])))

/-- The map `choice`. -/
def choiceDoc (result : ChatResult) : Doc :=
  .object (textMemberOmit "finish_reason" (bytesOf result.finishReason) ++
    [(bytesOf "index", .number (intLiteral 0)), (bytesOf "message", result.messageDoc)])

/-- The map `resp`. -/
def doc (result : ChatResult) : Doc :=
  .object ((bytesOf "choices", .array [result.choiceDoc]) ::
    (textMemberOmit "id" (bytesOf result.id) ++ textMemberOmit "model" (bytesOf result.model) ++
      textMember "object" (bytesOf "chat.completion") ::
        (result.usage.map fun usage => (bytesOf "usage", usage.compact)).toList))

end ChatResult

def collapseChat (body : Bytes) : Bytes :=
  let result := parseChat body
  if result.found then result.doc.print else trimBytes body

end MikroLLM.Hub
