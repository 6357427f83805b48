import MikroLLM.Codex.Streaming

/-!
# Plain and streamed answers

A client that puts the chunks of an answer together has the completion that a
client without a stream gets, except for its usage.
-/

namespace MikroLLM.Codex

open Go Library Hub

variable {number : Decimal → Bytes} {output : Output} {outputs : List Output} {raw : Bytes}
  {model kind : String}

/-- A call in an `any`. -/
def Output.callJson (output : Output) : Json :=
  .object [
    ("function", .object [("arguments", .string output.arguments), ("name", .string output.name)]),
    ("id", .string output.id), ("type", .string "function")]

/-- A call goes through an `any` as it is. -/
theorem callDoc_value : output.callDoc.value = output.callJson := by
  have keys : unquote (bytesOf "function") = "function" ∧ unquote (bytesOf "id") = "id" ∧
      unquote (bytesOf "type") = "type" ∧ unquote (bytesOf "arguments") = "arguments" ∧
      unquote (bytesOf "name") = "name" := by
    decide
  simp [Output.callDoc, Output.callJson, Doc.value, membersValue, textDoc, keys,
    unquote_textDoc]

theorem callJson_load : output.callJson.load = some output.callJson := by
  simp [Output.callJson, Json.load, loadFields]

theorem marshal_callJson : output.callJson.marshal number = output.callDoc := by
  have keys : quote (bytesOf "function") = bytesOf "function" ∧ quote (bytesOf "id") = bytesOf "id" ∧
      quote (bytesOf "type") = bytesOf "type" ∧
      quote (bytesOf "arguments") = bytesOf "arguments" ∧ quote (bytesOf "name") = bytesOf "name" := by
    decide
  have inner (arguments name : Doc) : sortKeys [("arguments", arguments), ("name", name)] =
      [("arguments", arguments), ("name", name)] :=
    sortKeys_of_sorted (by simp)
  have outer (function id type : Doc) :
      sortKeys [("function", function), ("id", id), ("type", type)] =
        [("function", function), ("id", id), ("type", type)] :=
    sortKeys_of_sorted (by simp)
  simp [Output.callJson, Output.callDoc, Json.marshal, marshalFields, inner, outer, writtenMember,
    keys, textDoc]

/-- The text of the outputs that are no calls. -/
def outputText (outputs : List Output) : String :=
  String.join ((outputs.filter fun output => !output.isCall).flatMap fun output =>
    output.content.items.map OutputContent.text)

/-- The content of the message, null when there are only calls. -/
def chatContent (outputs : List Output) : Given :=
  if outputs.filter Output.isCall ≠ [] ∧ outputText outputs = "" then .null
  else .literal (quote (bytesOf (outputText outputs)))

def Given.doc : Given → Doc
  | .absent | .null => .null
  | .literal inner => .string inner

/-- The members `tool_calls` of the message. -/
def callMembers (outputs : List Output) : List (Bytes × Doc) :=
  let calls := outputs.filter Output.isCall
  if calls = [] then [] else [(bytesOf "tool_calls", .array (calls.map Output.callDoc))]

/-- The message of a completion and the delta of a first chunk. -/
def messageMembers (outputs : List Output) : List (Bytes × Doc) :=
  [(bytesOf "content", Given.doc (chatContent outputs)), (bytesOf "role", textDoc "assistant")] ++
    callMembers outputs

theorem chatMessage_eq : chatMessage outputs = .object (messageMembers outputs) := by
  have text : String.join ((outputs.filter fun output => !output.isCall).flatMap fun output =>
      output.content.items.map OutputContent.text) = outputText outputs := rfl
  rw [chatMessage, messageMembers, chatContent]
  simp only [text]
  split <;> rfl

def Output.fragment (output : Output) : Fragment where
  index := none
  id := .literal (quote (bytesOf output.id))
  type := .literal (quote (bytesOf "function"))
  name := .literal (quote (bytesOf output.name))
  arguments := .literal (quote (bytesOf output.arguments))

section Writing

variable {room : ℕ}

theorem readable_textDoc (text : String) : Readable room (textDoc text) :=
  .string room (isInner_quote _)

theorem readable_callDoc : Readable (room + 2) output.callDoc := by
  have name : Entries room [(bytesOf "name", textDoc output.name)] :=
    entries_nil.cons "name" (by decide) (readable_textDoc _)
  have function := (name.cons "arguments" (by decide) (readable_textDoc output.arguments)).object
  have type : Entries (room + 1) [(bytesOf "type", textDoc "function")] :=
    entries_nil.cons "type" (by decide) (readable_textDoc _)
  have id := type.cons "id" (by decide) (readable_textDoc output.id)
  exact (id.cons "function" (by decide) function).object

theorem entries_callMembers : Entries (room + 3) (callMembers outputs) := by
  rw [callMembers]
  split
  · exact entries_nil
  · apply entries_nil.cons "tool_calls" (by decide)
    apply Readable.array
    intro doc inside
    rcases List.mem_map.mp inside with ⟨output, _, rfl⟩
    exact readable_callDoc

theorem readable_content : Readable room (Given.doc (chatContent outputs)) := by
  rw [chatContent]
  split
  · exact .null room
  · exact readable_textDoc _

variable (room outputs) in
theorem entries_message : Entries (room + 3) (messageMembers outputs) :=
  (entries_callMembers.cons "role" (by decide) (readable_textDoc _)).cons "content" (by decide)
    readable_content

theorem writesFragment_callDoc : ∃ members function, output.callDoc = .object members ∧
    WritesFragment members function output.fragment := by
  refine ⟨_, [(bytesOf "arguments", textDoc output.arguments), (bytesOf "name", textDoc output.name)],
    rfl, ?_⟩
  constructor
  · simpa (disch := decide) [valuesOf_member, valuesOf_nil, Output.fragment] using
      GivesIndex.absent
  · simp (disch := decide) [valuesOf_member, valuesOf_nil, Output.fragment, Given.values, textDoc]
  · simp (disch := decide) [valuesOf_member, valuesOf_nil, Output.fragment, Given.values, textDoc]
  · simpa (disch := decide) [valuesOf_member, valuesOf_nil] using GivesObject.object _
  · simp (disch := decide) [valuesOf_member, valuesOf_nil, Output.fragment, Given.values, textDoc]
  · simp (disch := decide) [valuesOf_member, valuesOf_nil, Output.fragment, Given.values, textDoc]

/-- The message, with the finish reason of its choice. -/
def messagePiece (outputs : List Output) (finish : Given) : Piece where
  content := chatContent outputs
  reasoning := .absent
  reasoningContent := .absent
  finishReason := finish
  fragments := (outputs.filter Output.isCall).map Output.fragment

theorem valuesOf_callMembers {name : String} (small : SmallName name) :
    valuesOf (callMembers outputs) name =
      if name = "tool_calls" ∧ outputs.filter Output.isCall ≠ [] then
        [.array ((outputs.filter Output.isCall).map Output.callDoc)]
      else [] := by
  rw [callMembers]
  split
  · rename_i noCalls
    rw [if_neg (fun both => both.2 noCalls), valuesOf_nil]
  · rename_i calls
    rw [valuesOf_member small (by decide), valuesOf_nil]
    simp [eq_comm, calls]

theorem givesFragments_calls : GivesFragments (valuesOf (callMembers outputs) "tool_calls")
    ((outputs.filter Output.isCall).map Output.fragment) := by
  rw [valuesOf_callMembers (by decide)]
  by_cases noCalls : outputs.filter Output.isCall = []
  · rw [if_neg (fun both => both.2 noCalls), noCalls]
    exact .absent
  · rw [if_pos ⟨rfl, noCalls⟩]
    apply GivesFragments.array
    rw [List.forall₂_map_left_iff, List.forall₂_map_right_iff, List.forall₂_same]
    exact fun output _ => writesFragment_callDoc

theorem values_content : [Given.doc (chatContent outputs)] = (chatContent outputs).values := by
  rw [chatContent]
  split <;> rfl

theorem writesPiece_message {form : Form} {choice : List (Bytes × Doc)} {finish : Given}
    (finishReason : valuesOf choice "finish_reason" = finish.values)
    (noOther : valuesOf choice form.other = [])
    (message : valuesOf choice form.name = [.object (messageMembers outputs)]) :
    WritesPiece form choice (messageMembers outputs) (messagePiece outputs finish) := by
  refine ⟨finishReason, noOther, ?_, ?_, ?_, ?_, ?_⟩
  · rw [message]
    exact .object _
  · simp (disch := decide) [messageMembers, valuesOf_member, valuesOf_callMembers, messagePiece,
      values_content]
  · simp (disch := decide) [messageMembers, valuesOf_member, valuesOf_callMembers, messagePiece,
      Given.values]
  · simp (disch := decide) [messageMembers, valuesOf_member, valuesOf_callMembers, messagePiece,
      Given.values]
  · simpa (disch := decide) [messageMembers, valuesOf_member, messagePiece] using
      givesFragments_calls

end Writing

section Telling

variable {piece : Piece} {form : Form}

/-- A completion or a chunk with one choice. -/
def partMembers (choice : List (Bytes × Doc)) (model kind : String) (usage : Option Doc) :
    List (Bytes × Doc) :=
  [(bytesOf "choices", .array [.object choice]), (bytesOf "id", textDoc "codex"),
    (bytesOf "model", textDoc model), (bytesOf "object", textDoc kind)] ++
    (usage.map fun usage => (bytesOf "usage", usage)).toList

def codexPart (model : String) (usage : Option Doc) (piece : Piece) :
    Hub.Part where
  id := .literal (quote (bytesOf "codex"))
  model := .literal (quote (bytesOf model))
  usage := usage
  piece := some piece

theorem entries_part {choice : List (Bytes × Doc)} {usage : Option Doc} {room : ℕ}
    (readable : Readable room (.object choice)) (room' : ∀ doc ∈ usage, Readable (room + 1) doc) :
    Entries (room + 1) (partMembers choice model kind usage) := by
  have tail : Entries (room + 1) (usage.map fun usage => (bytesOf "usage", usage)).toList := by
    cases usage with
    | none => exact entries_nil
    | some doc => exact entries_nil.cons "usage" (by decide) (room' doc rfl)
  have choices := Readable.array (List.forall_mem_singleton.mpr readable)
  exact (((tail.cons "object" (by decide) (readable_textDoc kind)).cons "model" (by decide)
    (readable_textDoc model)).cons "id" (by decide) (readable_textDoc "codex")).cons "choices"
      (by decide) choices

theorem valuesOf_usage {usage : Option Doc} {name : String} (small : SmallName name) :
    valuesOf (usage.map fun usage => (bytesOf "usage", usage)).toList name =
      if name = "usage" then usage.toList else [] := by
  cases usage with
  | none => simp [valuesOf_nil]
  | some doc =>
      rw [Option.map_some, Option.toList_some, valuesOf_member small (by decide), valuesOf_nil]
      simp [eq_comm]

theorem parseDoc_part {choice : List (Bytes × Doc)} {usage : Option Doc}
    (readable : Readable (maxNestingDepth - 2) (.object choice))
    (usageReadable : ∀ doc ∈ usage, Readable (maxNestingDepth - 1) doc) :
    parseDoc maxNestingDepth (Doc.object (partMembers choice model kind usage)).print =
      some (.object (partMembers choice model kind usage)) :=
  parseDoc_print (entries_part readable usageReadable).object

theorem tells_part {choice message : List (Bytes × Doc)} {usage : Option Doc}
    (readable : Readable (maxNestingDepth - 2) (.object choice))
    (usageReadable : ∀ doc ∈ usage, Readable (maxNestingDepth - 1) doc)
    (writes : WritesPiece form choice message piece) :
    Tells form (Doc.object (partMembers choice model kind usage)).print
      (codexPart model usage piece) := by
  refine ⟨_, parseDoc_part readable usageReadable, ?_⟩
  constructor
  · simp (disch := decide) [partMembers, codexPart, valuesOf_member, valuesOf_usage, Given.values,
      textDoc]
  · simp (disch := decide) [partMembers, codexPart, valuesOf_member, valuesOf_usage, Given.values,
      textDoc]
  · simp (disch := decide) [partMembers, codexPart, valuesOf_member, valuesOf_usage]
  · simpa (disch := decide) [partMembers, codexPart, valuesOf_member, valuesOf_usage] using
      GivesPiece.choice writes

end Telling

section Chunks

def plainChoice (outputs : List Output) : List (Bytes × Doc) :=
  [(bytesOf "finish_reason", textDoc (finishReason outputs)),
    (bytesOf "index", .number (intLiteral 0)), (bytesOf "message", .object (messageMembers outputs))]

def deltaChoice (delta : List (Bytes × Doc)) (finish : Doc) : List (Bytes × Doc) :=
  [(bytesOf "delta", .object delta), (bytesOf "finish_reason", finish),
    (bytesOf "index", .number (intLiteral 0))]

theorem chatCompletion_eq : chatCompletion raw model =
    (Doc.object (partMembers (plainChoice (readOutputs raw)) model "chat.completion"
      (readUsage raw).doc)).print := by
  rw [chatCompletion, toChat, chatMessage_eq]
  rfl

theorem readable_usageDoc (room : ℕ) (usage : Usage) : Readable (room + 1) usage.doc :=
  (((entries_nil.cons "total_tokens" (by decide) (.number room (isNumber_intLiteral _))).cons
    "prompt_tokens" (by decide) (.number room (isNumber_intLiteral _))).cons "completion_tokens"
      (by decide) (.number room (isNumber_intLiteral _))).object

variable (raw) in
theorem readable_usage : ∀ doc ∈ some (readUsage raw).doc, Readable (maxNestingDepth - 1) doc := by
  intro doc isUsage
  cases isUsage
  exact readable_usageDoc 9998 _

theorem readable_plainChoice (room : ℕ) : Readable (room + 5) (.object (plainChoice outputs)) := by
  have message := (entries_message outputs room).object
  exact (((entries_nil.cons "message" (by decide) message).cons "index" (by decide)
    (.number _ (isNumber_intLiteral 0))).cons "finish_reason" (by decide)
      (readable_textDoc _)).object

theorem readable_deltaChoice (room : ℕ) {delta : List (Bytes × Doc)} {finish : Doc}
    (readable : Entries (room + 3) delta) (finishReadable : Readable (room + 4) finish) :
    Readable (room + 5) (.object (deltaChoice delta finish)) :=
  (((entries_nil.cons "index" (by decide) (.number _ (isNumber_intLiteral 0))).cons "finish_reason"
    (by decide) finishReadable).cons "delta" (by decide) readable.object).object

theorem tells_plain : Tells .message (chatCompletion raw model)
    (codexPart model (readUsage raw).doc (messagePiece (readOutputs raw)
      (.literal (quote (bytesOf (finishReason (readOutputs raw))))))) := by
  rw [chatCompletion_eq]
  refine tells_part (readable_plainChoice 9993) (readable_usage raw) (writesPiece_message ?_ ?_ ?_)
  · simp (disch := decide) [plainChoice, valuesOf_member, valuesOf_nil, Given.values, textDoc]
  · simp (disch := decide) [plainChoice, valuesOf_member, valuesOf_nil, Form.other]
  · simp (disch := decide) [plainChoice, valuesOf_member, valuesOf_nil, Form.name]

theorem marshal_content : (chatContent outputs).json.marshal number =
    Given.doc (chatContent outputs) := by
  rw [chatContent]
  split
  · rfl
  · rw [Given.json, unquote_textDoc]
    rfl

theorem storeAny_calls (outputs : List Output) :
    storeEach .null storeAny (outputs.map Output.callDoc) [] =
      some (outputs.map Output.callJson) := by
  induction outputs with
  | nil => rfl
  | cons output rest ih =>
      rw [List.map_cons, storeEach, storeAny, callDoc_value, callJson_load, List.tail_nil, ih]
      rfl

/-- The message of the completion as `toSSE` decodes it. -/
def sseMessage (outputs : List Output) : SSEMessage where
  content := (chatContent outputs).json
  toolCalls := { items := (outputs.filter Output.isCall).map Output.callJson }

theorem storeSSEMessage_message : storeSSEMessage (.object (messageMembers outputs)) {} =
    some (sseMessage outputs) := by
  have content : valuesOf (messageMembers outputs) "content" = (chatContent outputs).values := by
    simp (disch := decide) [messageMembers, valuesOf_member, valuesOf_callMembers, values_content]
  have calls : storeField (storeItems .null storeAny) (messageMembers outputs) "tool_calls" {} =
      some { items := (outputs.filter Output.isCall).map Output.callJson } := by
    have values : valuesOf (messageMembers outputs) "tool_calls" =
        valuesOf (callMembers outputs) "tool_calls" := by
      simp (disch := decide) [messageMembers, valuesOf_member]
    rw [valuesOf_callMembers (by decide)] at values
    split at values
    · rw [storeField_once values, storeItems_array, storeAny_calls, Option.map_some]
    · rename_i noCalls
      rw [storeField_absent values]
      simp_all
  rw [storeSSEMessage, storeStruct, storeAny_given content, calls]
  rfl

theorem storeSSEChoice_plain : storeSSEChoice (.object (plainChoice outputs)) {} =
    some ⟨sseMessage outputs, finishReason outputs⟩ := by
  have message : valuesOf (plainChoice outputs) "message" = [.object (messageMembers outputs)] := by
    simp (disch := decide) [plainChoice, valuesOf_member, valuesOf_nil]
  have finish : valuesOf (plainChoice outputs) "finish_reason" =
      [.string (quote (bytesOf (finishReason outputs)))] := by
    simp (disch := decide) [plainChoice, valuesOf_member, valuesOf_nil, textDoc]
  rw [storeSSEChoice, storeStruct, storeField_once message, storeSSEMessage_message,
    storeField_text finish]
  rfl

/-- `toSSE` decodes what `toChat` has written. -/
theorem decoded_chatCompletion :
    ((parseDoc maxNestingDepth (chatCompletion raw model)).bind fun doc => storeSSEDoc doc {}) =
      some ⟨"codex", model,
        { items := [⟨sseMessage (readOutputs raw), finishReason (readOutputs raw)⟩] }⟩ := by
  have parses : parseDoc maxNestingDepth (chatCompletion raw model) =
      some (.object (partMembers (plainChoice (readOutputs raw)) model "chat.completion"
        (readUsage raw).doc)) := by
    rw [chatCompletion_eq]
    exact parseDoc_part (readable_plainChoice 9993) (readable_usage raw)
  have choices : valuesOf (partMembers (plainChoice (readOutputs raw)) model "chat.completion"
      (readUsage raw).doc) "choices" = [.array [.object (plainChoice (readOutputs raw))]] := by
    simp (disch := decide) [partMembers, valuesOf_member, valuesOf_nil]
  have id : valuesOf (partMembers (plainChoice (readOutputs raw)) model "chat.completion"
      (readUsage raw).doc) "id" = [.string (quote (bytesOf "codex"))] := by
    simp (disch := decide) [partMembers, valuesOf_member, valuesOf_nil, textDoc]
  have isModel : valuesOf (partMembers (plainChoice (readOutputs raw)) model "chat.completion"
      (readUsage raw).doc) "model" = [.string (quote (bytesOf model))] := by
    simp (disch := decide) [partMembers, valuesOf_member, valuesOf_nil, textDoc]
  rw [parses, Option.bind_some, storeSSEDoc, storeStruct, storeField_text id,
    storeField_text isModel, storeField_once choices, storeItems_array, storeEach, List.headD_nil,
    storeSSEChoice_plain]
  rfl

/-- What `toSSE` makes of it. -/
theorem toSSE_chatCompletion : toSSE number (chatCompletion raw model) =
    bytesOf "data: " ++ ((Doc.object (partMembers (deltaChoice (messageMembers (readOutputs raw))
      .null) model "chat.completion.chunk" none)).print ++ (bytesOf "\n\ndata: " ++
        ((Doc.object (partMembers (deltaChoice [] (textDoc (finishReason (readOutputs raw)))) model
          "chat.completion.chunk" none)).print ++ bytesOf "\n\ndata: [DONE]\n\n"))) := by
  have first : firstDelta number ⟨"codex", model,
      { items := [⟨sseMessage (readOutputs raw), finishReason (readOutputs raw)⟩] }⟩ =
        messageMembers (readOutputs raw) := by
    simp only [firstDelta, sseMessage, messageMembers, callMembers, marshal_content, List.map_eq_nil_iff,
      List.map_map]
    simp only [Function.comp_def, marshal_callJson]
  have last : (if finishReason (readOutputs raw) = "" then "stop" else finishReason (readOutputs raw)) =
      finishReason (readOutputs raw) := by
    rw [finishReason]
    split <;> rfl
  rw [toSSE, decoded_chatCompletion, Option.getD_some, SSEDoc.stream]
  simp only [first, lastFinish, last]
  rfl

theorem no_usage {room : ℕ} : ∀ doc ∈ (none : Option Doc), Readable room doc := by
  intro doc isUsage
  cases isUsage

theorem tells_first : Tells .delta (Doc.object (partMembers (deltaChoice (messageMembers outputs)
    .null) model "chat.completion.chunk" none)).print
      (codexPart model none (messagePiece outputs .null)) := by
  refine tells_part (readable_deltaChoice 9993 (entries_message outputs 9993) (.null _)) no_usage
    (writesPiece_message ?_ ?_ ?_)
  · simp (disch := decide) [deltaChoice, valuesOf_member, valuesOf_nil, Given.values]
  · simp (disch := decide) [deltaChoice, valuesOf_member, valuesOf_nil, Form.other]
  · simp (disch := decide) [deltaChoice, valuesOf_member, valuesOf_nil, Form.name]

def lastPiece (finish : String) : Piece :=
  ⟨.absent, .absent, .absent, .literal (quote (bytesOf finish)), []⟩

theorem tells_last {finish : String} : Tells .delta (Doc.object (partMembers (deltaChoice []
    (textDoc finish)) model "chat.completion.chunk" none)).print
      (codexPart model none (lastPiece finish)) := by
  suffices writes : WritesPiece .delta (deltaChoice [] (textDoc finish)) [] (lastPiece finish) from
    tells_part (readable_deltaChoice 9993 entries_nil (readable_textDoc _)) no_usage writes
  refine ⟨?_, ?_, ?_, rfl, rfl, rfl, .absent⟩
  · simp (disch := decide) [deltaChoice, valuesOf_member, valuesOf_nil, Given.values, lastPiece,
      textDoc]
  · simp (disch := decide) [deltaChoice, valuesOf_member, valuesOf_nil, Form.other]
  · simpa (disch := decide) [deltaChoice, valuesOf_member, valuesOf_nil, Form.name] using
      GivesObject.object []

theorem tells_blank {form : Form} {text : Bytes} {part : Hub.Part} (tells : Tells form text part) :
    Tells form (0x20 :: text) part :=
  tells

theorem newline_not_mem_chunk {delta : List (Bytes × Doc)} {finish : Doc}
    (readable : Entries (9993 + 3) delta) (finishReadable : Readable (9993 + 4) finish) :
    0x0a ∉ (Doc.object (partMembers (deltaChoice delta finish) model kind none)).print := by
  have choice : Readable 9998 (.object (deltaChoice delta finish)) :=
    readable_deltaChoice 9993 readable finishReadable
  exact newline_not_mem_print (entries_part choice no_usage).object

theorem splitOn_chunks {first last : Bytes} (noFirst : 0x0a ∉ first) (noLast : 0x0a ∉ last) :
    (bytesOf "data: " ++ (first ++ (bytesOf "\n\ndata: " ++ (last ++
      bytesOf "\n\ndata: [DONE]\n\n")))).splitOn 0x0a =
        [dataField ++ 0x20 :: first, [], dataField ++ 0x20 :: last, [],
          dataField ++ bytesOf " [DONE]", [], []] := by
  have begins : bytesOf "data: " = dataField ++ [0x20] := by decide
  have goesOn : bytesOf "\n\ndata: " = 0x0a :: 0x0a :: (dataField ++ [0x20]) := by decide
  have ends : bytesOf "\n\ndata: [DONE]\n\n" =
      0x0a :: 0x0a :: (dataField ++ (bytesOf " [DONE]" ++ [0x0a, 0x0a])) := by decide
  have text : bytesOf "data: " ++ (first ++ (bytesOf "\n\ndata: " ++ (last ++
      bytesOf "\n\ndata: [DONE]\n\n"))) =
      (dataField ++ 0x20 :: first) ++ 0x0a :: ([] ++ 0x0a :: ((dataField ++ 0x20 :: last) ++
        0x0a :: ([] ++ 0x0a :: ((dataField ++ bytesOf " [DONE]") ++ 0x0a :: ([] ++ 0x0a :: []))))) := by
    rw [begins, goesOn, ends]
    simp
  have noField : 0x0a ∉ dataField := by decide
  have noFirstLine : 0x0a ∉ dataField ++ 0x20 :: first := by simp [noField, noFirst]
  have noLastLine : 0x0a ∉ dataField ++ 0x20 :: last := by simp [noField, noLast]
  have noDone : 0x0a ∉ dataField ++ bytesOf " [DONE]" := by decide
  rw [text]
  simp only [List.splitOn_append_cons_self, List.splitOn_eq_singleton noFirstLine,
    List.splitOn_eq_singleton noLastLine, List.splitOn_eq_singleton noDone, List.splitOn_nil,
    List.singleton_append]

/-- The lines of the stream. -/
theorem lines_toSSE : List.Forall₂ StreamLine
    ((toSSE number (chatCompletion raw model)).splitOn 0x0a)
    [some (codexPart model none (messagePiece (readOutputs raw) .null)), none,
      some (codexPart model none (lastPiece (finishReason (readOutputs raw)))), none, none, none,
      none] := by
  have blank : StreamLine [] none := .other (by decide)
  have done : StreamLine (dataField ++ bytesOf " [DONE]") none :=
    .done ⟨[0x20], [], by simp [Blanks, Scanner.isBlank], by simp [Blanks], by decide⟩
  rw [toSSE_chatCompletion, splitOn_chunks
    (newline_not_mem_chunk (entries_message _ 9993) (.null _))
    (newline_not_mem_chunk entries_nil (readable_textDoc _))]
  exact .cons (.chunk (tells_blank tells_first)) (.cons blank
    (.cons (.chunk (tells_blank tells_last)) (.cons blank (.cons done (.cons blank
      (.cons blank .nil))))))

end Chunks

theorem text_chatContent : (chatContent outputs).text = outputText outputs := by
  rw [chatContent]
  split
  · rename_i noText
    exact noText.2.symm
  · exact unquote_textDoc _

/-- What a client reads in the answer. The calls have no indexes, and those that the hub client
reads without an index are one call to it. -/
def answerChat (raw : Bytes) (model : String) : Chat where
  id := "codex"
  model := model
  content := outputText (readOutputs raw)
  reasoning := ""
  finishReason := finishReason (readOutputs raw)
  usage := some (readUsage raw).doc.value
  calls :=
    let fragments := ((readOutputs raw).filter Output.isCall).map Output.fragment
    (fragments.map Fragment.idx).eraseDups.map (gatheredCall fragments)

theorem idx_fragments : ∀ fragment ∈ (outputs.filter Output.isCall).map Output.fragment,
    -2 ^ 63 ≤ fragment.idx ∧ fragment.idx < 2 ^ 63 := by
  intro fragment inside
  rcases List.mem_map.mp inside with ⟨output, _, rfl⟩
  have zero : output.fragment.idx = 0 := rfl
  omega

/-- A call that is the only one is read as it is. -/
theorem calls_of_one (one : (readOutputs raw).filter Output.isCall = [output]) :
    (answerChat raw model).calls =
      [⟨output.id, 0, "function", ⟨output.name, output.arguments⟩⟩] := by
  let call : ToolCall := ⟨output.id, 0, "function", ⟨output.name, output.arguments⟩⟩
  have is : output.fragment.Is call :=
    ⟨Or.inl rfl, unquote_textDoc _, unquote_textDoc _, unquote_textDoc _, unquote_textDoc _⟩
  have mine : [output.fragment].filter (fun fragment => fragment.idx = call.index) =
      [output.fragment] := rfl
  have whole : gatheredCall [output.fragment] call.index = call := by
    rw [gatheredCall_iff (by rw [mine]; exact assembles_of_is is), mine]
    intro fragment inside
    rw [List.mem_singleton.mp inside]
    rfl
  rw [answerChat, one]
  exact congrArg List.singleton whole

/-- The plain answer and the streamed one are read as the same completion, but for the usage,
which is in the plain answer only. -/
theorem streamed_as_plain (number : Decimal → Bytes) (raw : Bytes) (model : String) :
    readChat (collapseChat (chatCompletion raw model)) = some (answerChat raw model) ∧
      readChat (collapseChat (toSSE number (chatCompletion raw model))) =
        some { answerChat raw model with usage := none } := by
  have literal (inner : Bytes) : (Given.literal inner).text = unquote inner := rfl
  have absent : Given.absent.text = "" := rfl
  have null : Given.null.text = "" := rfl
  have isUsage : usageOf (some (readUsage raw).doc) = some (readUsage raw).doc.value := rfl
  have noUsage : usageOf none = none := rfl
  constructor
  · rw [readChat_parts (parseChat_plain tells_plain) ⟨_, List.mem_singleton_self _, rfl⟩ ?_ ?_,
      (mergedParts_spec _ _).1]
    · simp [answerChat, codexPart, messagePiece, Part.content, Part.reasoning, Part.finishReason,
        Part.fragments, literal, absent, text_chatContent, unquote_textDoc, keepFirst, keepLast,
        isUsage]
    · intro part isPart usage given
      rw [List.mem_singleton.mp isPart] at given
      exact readable_usage raw usage given
    · rw [List.flatMap_singleton]
      exact idx_fragments
  · rw [readChat_parts (parseChat_stream lines_toSSE List.mem_cons_self)
      ⟨_, List.mem_cons_self, rfl⟩ ?_ ?_, (mergedParts_spec _ _).1]
    · simp [answerChat, codexPart, messagePiece, lastPiece, Part.content, Part.reasoning,
        Part.finishReason, Part.fragments, literal, absent, null, text_chatContent,
        unquote_textDoc, keepFirst, keepLast, noUsage, List.reduceOption]
    · intro part isPart usage given
      simp only [List.reduceOption, List.filterMap_cons, List.filterMap_nil, id, List.mem_cons,
        List.not_mem_nil, or_false] at isPart
      rcases isPart with rfl | rfl <;> cases given
    · have same : [some (codexPart model none (messagePiece (readOutputs raw) .null)), none,
          some (codexPart model none (lastPiece (finishReason (readOutputs raw)))), none, none,
          none, none].reduceOption.flatMap Part.fragments =
            ((readOutputs raw).filter Output.isCall).map Output.fragment := by
        simp [List.reduceOption, codexPart, messagePiece, lastPiece, Part.fragments]
      rw [same]
      exact idx_fragments

end MikroLLM.Codex
