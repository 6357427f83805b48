import MikroLLM.Codex.Answer
import MikroLLM.Go.Marshal
import MikroLLM.Hub.Collapse

/-!
# Codex answers to a client

An answer is a completion, or for a client that wants a stream two chunks of one.
Both are read here as the hub client reads completions.
-/

namespace MikroLLM.Codex

open Go Library

/-- An integer in a variable of type `int`, after an addition. -/
def wrapped (number : ℤ) : ℤ :=
  (number + 2 ^ 63) % 2 ^ 64 - 2 ^ 63

/-- The value that is kept where a document has another type. -/
def storeIfTyped {α : Type} (store : Store α) (doc : Doc) (held : α) : α :=
  (store doc held).getD held

/-- The number of tokens under a name. -/
def tokensIn (members : List (Bytes × Doc)) (name : String) (held : ℤ) : ℤ :=
  (valuesOf members name).foldl (fun held doc => storeIfTyped storeInt doc held) held

/-- What `Unmarshal` stores in `usage`, also where another part of the answer has a wrong type. -/
def readUsage (raw : Bytes) : Usage :=
  match parseDoc maxNestingDepth raw with
  | some (.object members) =>
      (valuesOf members "usage").foldl (fun held doc =>
        match doc with
        | .object inner =>
            { inputTokens := tokensIn inner "input_tokens" held.inputTokens
              outputTokens := tokensIn inner "output_tokens" held.outputTokens }
        | _ => held) {}
  | _ => {}

def Usage.doc (usage : Usage) : Doc :=
  .object [
    (bytesOf "completion_tokens", .number (intLiteral usage.outputTokens)),
    (bytesOf "prompt_tokens", .number (intLiteral usage.inputTokens)),
    (bytesOf "total_tokens", .number (intLiteral (wrapped (usage.inputTokens + usage.outputTokens))))]

def finishReason (outputs : List Output) : String :=
  if outputs.filter Output.isCall = [] then "stop" else "tool_calls"

/-- The completion that `toChat` returns. -/
def chatCompletion (raw : Bytes) (model : String) : Bytes :=
  Doc.print (.object [
    (bytesOf "choices", .array [.object [
      (bytesOf "finish_reason", textDoc (finishReason (readOutputs raw))),
      (bytesOf "index", .number (intLiteral 0)), (bytesOf "message", toChat raw)]]),
    (bytesOf "id", textDoc "codex"), (bytesOf "model", textDoc model),
    (bytesOf "object", textDoc "chat.completion"), (bytesOf "usage", (readUsage raw).doc)])

/-- A message as `toSSE` decodes it. -/
structure SSEMessage where
  content : Json := .null
  toolCalls : Slice Json := {}

structure SSEChoice where
  message : SSEMessage := {}
  finishReason : String := ""

/-- A completion as `toSSE` decodes it. -/
structure SSEDoc where
  id : String := ""
  model : String := ""
  choices : Slice SSEChoice := {}

def storeSSEMessage : Store SSEMessage :=
  storeStruct fun members held => do
    let content ← storeField storeAny members "content" held.content
    let toolCalls ← storeField (storeItems .null storeAny) members "tool_calls" held.toolCalls
    some { content, toolCalls }

def storeSSEChoice : Store SSEChoice :=
  storeStruct fun members held => do
    let message ← storeField storeSSEMessage members "message" held.message
    let finishReason ← storeField storeString members "finish_reason" held.finishReason
    some { message, finishReason }

def storeSSEDoc : Store SSEDoc :=
  storeStruct fun members held => do
    let id ← storeField storeString members "id" held.id
    let model ← storeField storeString members "model" held.model
    let choices ← storeField (storeItems {} storeSSEChoice) members "choices" held.choices
    some { id, model, choices }

/-- A chunk with its delta. -/
def chunkDoc (doc : SSEDoc) (delta : List (Bytes × Doc)) (finish : Doc) : Doc :=
  .object [
    (bytesOf "choices", .array [.object [
      (bytesOf "delta", .object delta), (bytesOf "finish_reason", finish),
      (bytesOf "index", .number (intLiteral 0))]]),
    (bytesOf "id", textDoc doc.id), (bytesOf "model", textDoc doc.model),
    (bytesOf "object", textDoc "chat.completion.chunk")]

/-- The map `delta`. -/
def firstDelta (number : Decimal → Bytes) (doc : SSEDoc) : List (Bytes × Doc) :=
  match doc.choices.items with
  | [] => [(bytesOf "role", textDoc "assistant")]
  | choice :: _ =>
      let calls := choice.message.toolCalls.items
      [(bytesOf "content", choice.message.content.marshal number),
        (bytesOf "role", textDoc "assistant")] ++
        if calls = [] then []
        else [(bytesOf "tool_calls", .array (calls.map (Json.marshal number)))]

def lastFinish (doc : SSEDoc) : String :=
  match doc.choices.items with
  | [] => "stop"
  | choice :: _ => if choice.finishReason = "" then "stop" else choice.finishReason

/-- `toSSE`, once the completion is decoded. -/
def SSEDoc.stream (number : Decimal → Bytes) (doc : SSEDoc) : Bytes :=
  let first := chunkDoc doc (firstDelta number doc) .null
  let second := chunkDoc doc [] (textDoc (lastFinish doc))
  bytesOf "data: " ++ (first.print ++ (bytesOf "\n\ndata: " ++
    (second.print ++ bytesOf "\n\ndata: [DONE]\n\n")))

/-- `toSSE`. -/
def toSSE (number : Decimal → Bytes) (chat : Bytes) : Bytes :=
  (((parseDoc maxNestingDepth chat).bind fun doc => storeSSEDoc doc {}).getD {}).stream number

end MikroLLM.Codex
