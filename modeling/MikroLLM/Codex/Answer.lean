import MikroLLM.Codex.Conversation

/-!
# Answers of Codex

`toChat` gives the calls of an answer to the client, in a message that the client
sends back with their outputs. The request for the next turn has lost them.
-/

namespace MikroLLM.Codex

open Go Library

/-- A part of the content of an output. -/
structure OutputContent where
  type : String := ""
  text : String := ""

/-- An element of `output`. -/
structure Output where
  type : String := ""
  name : String := ""
  arguments : String := ""
  callID : String := ""
  content : Slice OutputContent := {}

def storeOutputContent : Store OutputContent :=
  storeStruct fun members held => do
    let type ← storeField storeString members "type" held.type
    let text ← storeField storeString members "text" held.text
    some { type, text }

def storeOutput : Store Output :=
  storeStruct fun members held => do
    let type ← storeField storeString members "type" held.type
    let name ← storeField storeString members "name" held.name
    let arguments ← storeField storeString members "arguments" held.arguments
    let callID ← storeField storeString members "call_id" held.callID
    let content ← storeField (storeItems {} storeOutputContent) members "content" held.content
    some { type, name, arguments, callID, content }

/-- The tokens of an answer. -/
structure Usage where
  inputTokens : ℤ := 0
  outputTokens : ℤ := 0

/-- An answer as `toChat` decodes it. -/
structure Answer where
  output : Slice Output := {}
  usage : Usage := {}

def storeUsage : Store Usage :=
  storeStruct fun members held => do
    let inputTokens ← storeField storeInt members "input_tokens" held.inputTokens
    let outputTokens ← storeField storeInt members "output_tokens" held.outputTokens
    some { inputTokens, outputTokens }

def storeAnswer : Store Answer :=
  storeStruct fun members held => do
    let output ← storeField (storeItems {} storeOutput) members "output" held.output
    let usage ← storeField storeUsage members "usage" held.usage
    some { output, usage }

/-- The outputs of an answer, none where it is no such document. -/
def readOutputs (raw : Bytes) : List Output :=
  match (parseDoc maxNestingDepth raw).bind fun doc => storeAnswer doc {} with
  | none => []
  | some answer => answer.output.items

/-- The output is the call of a function. -/
def Output.isCall (output : Output) : Bool :=
  output.type = "function_call" && output.name ≠ ""

/-- The id of a call, made up when the answer has none. -/
def Output.id (output : Output) : String :=
  if output.callID = "" then "call_" ++ output.name else output.callID

/-- A call as the client gets it. -/
def Output.callDoc (output : Output) : Doc :=
  .object [
    (bytesOf "function", .object [
      (bytesOf "arguments", textDoc output.arguments), (bytesOf "name", textDoc output.name)]),
    (bytesOf "id", textDoc output.id), (bytesOf "type", textDoc "function")]

/-- The message that `toChat` makes of the outputs. -/
def chatMessage (outputs : List Output) : Doc :=
  let calls := outputs.filter Output.isCall
  let text := String.join ((outputs.filter fun output => !output.isCall).flatMap fun output =>
    output.content.items.map OutputContent.text)
  let content := if calls ≠ [] ∧ text = "" then Doc.null else textDoc text
  let toolCalls :=
    if calls = [] then [] else [(bytesOf "tool_calls", Doc.array (calls.map Output.callDoc))]
  .object ([(bytesOf "content", content), (bytesOf "role", textDoc "assistant")] ++ toolCalls)

/-- The message of the completion that `toChat` makes of an answer. -/
def toChat (raw : Bytes) : Doc :=
  chatMessage (readOutputs raw)

section Sending

variable {outputs : List Output} {output : Output} {message : FullMessage}

theorem unquote_textDoc (text : String) : unquote (quote (bytesOf text)) = text := by
  rw [unquote_quote, decodeText_bytesOf]

/-- The call that the client sends back is that of the answer. -/
theorem callOf_callDoc (output : Output) :
    callOf output.callDoc = .call output.id output.name output.arguments := by
  have keys : isField "id" (bytesOf "function") = false ∧ isField "id" (bytesOf "id") = true ∧
      isField "id" (bytesOf "type") = false ∧ isField "function" (bytesOf "function") = true ∧
      isField "function" (bytesOf "id") = false ∧ isField "function" (bytesOf "type") = false ∧
      isField "name" (bytesOf "arguments") = false ∧ isField "name" (bytesOf "name") = true ∧
      isField "arguments" (bytesOf "arguments") = true ∧
      isField "arguments" (bytesOf "name") = false := by
    decide
  simp only [callOf, textIn, memberOf, Output.callDoc, textDoc, valuesOf, keys, List.filter_cons,
    List.filter_nil, if_true, if_false, Bool.false_eq_true, List.map_cons, List.map_nil,
    List.getLastD_cons, List.getLastD_nil, unquote_textDoc]

/-- The message is decoded with the calls of the answer. -/
theorem toolCalls_chatMessage (calls : outputs.filter Output.isCall ≠ [])
    (stored : storeFull (chatMessage outputs) {} = some message) :
    message.toolCalls = some (.array ((outputs.filter Output.isCall).map Output.callDoc)) := by
  have keys : isField "tool_calls" (bytesOf "content") = false ∧
      isField "tool_calls" (bytesOf "role") = false ∧
      isField "tool_calls" (bytesOf "tool_calls") = true := by
    decide
  have notNone : ¬outputs.filter Output.isCall = [] := calls
  simp only [chatMessage, if_neg notNone, List.cons_append, List.nil_append, storeFull, storeStruct,
    Option.bind_eq_bind, Option.bind_eq_some_iff] at stored
  rcases stored with ⟨role, _, content, _, toolCalls, areCalls, toolCallID, _, same⟩
  cases same
  rw [storeField] at areCalls
  simp only [valuesOf, List.filter_cons, keys, Bool.false_eq_true, if_false, if_true,
    List.filter_nil, List.map_cons, List.map_nil] at areCalls
  cases areCalls
  rfl

/-- A call of the answer is part of the message that is sent back, and not of the request that is
made of it. -/
theorem call_lost {raw : Bytes} (inside : output ∈ readOutputs raw) (isCall : output.isCall = true)
    (stored : storeFull (toChat raw) {} = some message) :
    .call output.id output.name output.arguments ∈ message.items ∧
      .call output.id output.name output.arguments ∉
        message.brief.input.map InputMessage.item := by
  have listed : output ∈ (readOutputs raw).filter Output.isCall :=
    List.mem_filter.mpr ⟨inside, isCall⟩
  have hasCalls := toolCalls_chatMessage (List.ne_nil_of_mem listed) stored
  constructor
  · have isItem : .call output.id output.name output.arguments ∈ callsOf message.toolCalls := by
      rw [hasCalls, ← callOf_callDoc]
      exact List.mem_map_of_mem (List.mem_map_of_mem listed)
    rw [FullMessage.items, FullMessage.besides]
    simp [isItem]
  · intro kept
    rcases List.mem_map.mp kept with ⟨input, _, same⟩
    cases same

end Sending

end MikroLLM.Codex
