import MikroLLM.Go.Unmarshal

/-!
# Requests for Codex

`toResponses`: the body of a chat completion becomes one of the Responses API.
-/

namespace MikroLLM.Codex

open Go

/-- A message as `toResponses` decodes it. -/
structure Message where
  role : String := ""
  content : Option Doc := none

/-- The body of a chat completion, as `toResponses` decodes it. -/
structure ChatRequest where
  model : String := ""
  stream : Bool := false
  tools : Slice (Option Doc) := {}
  messages : Slice Message := {}

/-- The function of a tool. -/
structure ToolFunction where
  name : String := ""
  description : String := ""
  parameters : Option Doc := none

/-- A tool as `chatTools` decodes it. -/
structure Tool where
  type : String := ""
  function : ToolFunction := {}

def storeMessage : Store Message :=
  storeStruct fun members held => do
    let role ← storeField storeString members "role" held.role
    let content ← storeField storeRaw members "content" held.content
    some { role, content }

def storeRequest : Store ChatRequest :=
  storeStruct fun members held => do
    let model ← storeField storeString members "model" held.model
    let stream ← storeField storeBool members "stream" held.stream
    let tools ← storeField (storeItems none storeRaw) members "tools" held.tools
    let messages ← storeField (storeItems {} storeMessage) members "messages" held.messages
    some { model, stream, tools, messages }

def storeToolFunction : Store ToolFunction :=
  storeStruct fun members held => do
    let name ← storeField storeString members "name" held.name
    let description ← storeField storeString members "description" held.description
    let parameters ← storeField storeRaw members "parameters" held.parameters
    some { name, description, parameters }

def storeTool : Store Tool :=
  storeStruct fun members held => do
    let type ← storeField storeString members "type" held.type
    let function ← storeField storeToolFunction members "function" held.function
    some { type, function }

/-- `contentText`: a string, or the texts of the parts one after another. -/
def contentText : Option Doc → String
  | some (.string inner) => unquote inner
  | some (.array items) =>
      match items.mapM mapOf with
      | none => ""
      | some parts => String.join (parts.map fun part => stringAt part "text")
  | _ => ""

/-- A tool of the Responses API. -/
structure FunctionTool where
  name : String
  description : String
  parameters : Doc

/-- The parameters of a function without any. -/
def noParameters : Doc :=
  .object [(bytesOf "type", .string (bytesOf "object")), (bytesOf "properties", .object [])]

/-- `chatTools`, for one tool. -/
def functionTool (raw : Option Doc) : Option FunctionTool :=
  match raw.bind fun doc => storeTool doc {} with
  | none => none
  | some tool =>
      if tool.function.name = "" then none
      else some {
        name := tool.function.name
        description := tool.function.description
        parameters := tool.function.parameters.getD noParameters }

/-- `chatTools`. -/
def chatTools (raw : List (Option Doc)) : List FunctionTool :=
  raw.filterMap functionTool

/-- An element of `input`, with the type of its content and its text. -/
structure InputMessage where
  role : String
  type : String
  text : String
  deriving DecidableEq, Repr

/-- The roles whose texts become instructions. -/
def instructs (role : String) : Bool :=
  role = "system" || role = "developer"

/-- What a message adds to `input`. -/
def Message.input (message : Message) : List InputMessage :=
  let text := contentText message.content
  if instructs message.role then []
  else if message.role = "assistant" then [⟨"assistant", "output_text", text⟩]
  else [⟨"user", "input_text", text⟩]

/-- What a message adds to `instructions`. -/
def Message.instructions (message : Message) : List String :=
  let text := contentText message.content
  if instructs message.role && text ≠ "" then [text] else []

/-- The payload that `toResponses` marshals. -/
structure Payload where
  model : String
  input : List InputMessage
  instructions : Option String
  tools : Option (List FunctionTool)

/-- The payload of a request. -/
def ChatRequest.payload (request : ChatRequest) (defaultModel : String) : Payload where
  model :=
    let model := trimSpace request.model
    if model = "" ∨ model = "codex" then defaultModel else model
  input := request.messages.items.flatMap Message.input
  instructions :=
    let instructions := request.messages.items.flatMap Message.instructions
    if instructions = [] then none else some (join instructions "\n\n")
  tools := if request.tools.items = [] then none else some (chatTools request.tools.items)

/-- `Unmarshal` of the body. -/
def readRequest (chat : Bytes) : Option ChatRequest :=
  (parseDoc maxNestingDepth chat).bind fun doc => storeRequest doc {}

/-- `toResponses`: the payload and whether the client wants a stream; none for its error. -/
def toResponses (chat : Bytes) (defaultModel : String) : Option (Payload × Bool) :=
  (readRequest chat).map fun request => (request.payload defaultModel, request.stream)

section Marshalling

/-- `Marshal` of a string. -/
def textDoc (text : String) : Doc :=
  .string (quote (bytesOf text))

/-- `Marshal` of a slice, null when it is nil. -/
def sliceDoc (items : List Doc) : Doc :=
  if items = [] then .null else .array items

def InputMessage.doc (message : InputMessage) : Doc :=
  .object [
    (bytesOf "content", .array [.object [
      (bytesOf "text", textDoc message.text), (bytesOf "type", textDoc message.type)]]),
    (bytesOf "role", textDoc message.role)]

def FunctionTool.doc (tool : FunctionTool) : Doc :=
  .object [
    (bytesOf "description", textDoc tool.description), (bytesOf "name", textDoc tool.name),
    (bytesOf "parameters", tool.parameters.compact), (bytesOf "type", textDoc "function")]

/-- `Marshal` of the payload, with its keys in order. -/
def Payload.doc (payload : Payload) : Doc :=
  .object ([(bytesOf "input", sliceDoc (payload.input.map InputMessage.doc))] ++
    (payload.instructions.map fun text => (bytesOf "instructions", textDoc text)).toList ++
    [(bytesOf "model", textDoc payload.model), (bytesOf "store", .bool false),
      (bytesOf "stream", .bool false)] ++
    (payload.tools.map fun tools => (bytesOf "tools", sliceDoc (tools.map FunctionTool.doc))).toList)

end Marshalling

end MikroLLM.Codex
