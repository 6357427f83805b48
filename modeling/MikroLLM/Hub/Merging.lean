import MikroLLM.Hub.Completion
import MikroLLM.Library.Slots

/-!
# Merged chunks

What is in a completion after any chunks were merged, and how a client reads the
object that is written then.
-/

namespace MikroLLM.Hub

open Go Library

/-- A completion with one choice. -/
@[ext]
structure Chat where
  id : String
  model : String
  content : String
  reasoning : String
  finishReason : String
  usage : Option Json
  calls : List ToolCall

/-- The usage that a document says, none where it is null. -/
def usageOf : Option Doc → Option Json
  | some .null => none
  | some doc => some doc.value
  | none => none

def storeToolFunction : Store ToolFunction :=
  storeStruct fun members held => do
    let name ← storeField storeString members "name" held.name
    let arguments ← storeField storeString members "arguments" held.arguments
    some { name, arguments }

def storeToolCall : Store ToolCall :=
  storeStruct fun members held => do
    let id ← storeField storeString members "id" held.id
    let index ← storeField storeInt members "index" held.index
    let type ← storeField storeString members "type" held.type
    let function ← storeField storeToolFunction members "function" held.function
    some { id, index, type, function }

/-- The completion in an object that `CollapseChat` has written, as a client decodes it. -/
def readChat (text : Bytes) : Option Chat :=
  match parseDoc maxNestingDepth text with
  | some (.object members) =>
      match valuesOf members "choices" with
      | [.array [.object choice]] =>
          match valuesOf choice "message" with
          | [.object message] => do
              let id ← storeField storeString members "id" ""
              let model ← storeField storeString members "model" ""
              let content ← storeField storeString message "content" ""
              let reasoning ← storeField storeString message "reasoning" ""
              let finishReason ← storeField storeString choice "finish_reason" ""
              let usage ← storeField storeRaw members "usage" none
              let zero : ToolCall := { index := 0 }
              let toolCalls ← storeField (storeItems zero storeToolCall) message "tool_calls" {}
              let calls := toolCalls.items
              some { id, model, content, reasoning, finishReason, usage := usageOf usage, calls }
          | _ => none
      | _ => none
  | _ => none

/-- The completion that was merged. -/
def ChatResult.chat (result : ChatResult) : Chat where
  id := result.id
  model := result.model
  content := result.content
  reasoning := result.reasoning
  finishReason := result.finishReason
  usage := usageOf result.usage
  calls := result.toolCalls

section Members

variable {name key content : String} {members more : List (Bytes × Doc)} {doc : Doc} {room : ℕ}

theorem bytesOf_eq_nil : bytesOf content = [] ↔ content = "" := by
  constructor
  · intro empty
    exact bytesOf_injective empty
  · rintro rfl
    rfl

theorem valuesOf_member (small : SmallName name) (smallKey : SmallName key) (doc : Doc)
    (members : List (Bytes × Doc)) :
    valuesOf ((bytesOf key, doc) :: members) name =
      if key = name then doc :: valuesOf members name else valuesOf members name := by
  simp only [valuesOf_cons, isField_small small smallKey, decide_eq_true_eq]

theorem valuesOf_textMember (small : SmallName name) (smallKey : SmallName key) (text : Bytes)
    (members : List (Bytes × Doc)) :
    valuesOf (textMember key text :: members) name =
      if key = name then .string (quote text) :: valuesOf members name
      else valuesOf members name :=
  valuesOf_member small smallKey _ members

theorem valuesOf_omit (small : SmallName name) (smallKey : SmallName key) (text : Bytes)
    (members : List (Bytes × Doc)) :
    valuesOf (textMemberOmit key text ++ members) name =
      if key = name then (textMemberOmit key text).map Prod.snd ++ valuesOf members name
      else valuesOf members name := by
  rw [textMemberOmit]
  split
  · simp
  · rw [List.singleton_append, valuesOf_textMember small smallKey]
    rfl

/-- A text that is left out when it is empty is read as it was. -/
theorem storeField_omit (given : valuesOf members name =
    (textMemberOmit key (bytesOf content)).map Prod.snd) :
    storeField storeString members name "" = some content := by
  rw [textMemberOmit] at given
  split at given
  · rename_i empty
    rw [storeField_absent given, bytesOf_eq_nil.mp empty]
  · rw [storeField_once given]
    simp [textMember, storeString, unquote_quote, decodeText_bytesOf]

theorem storeField_text (given : valuesOf members name = [.string (quote (bytesOf content))]) :
    storeField storeString members name "" = some content := by
  rw [storeField_once given]
  simp [storeString, unquote_quote, decodeText_bytesOf]

/-- Members that can be written. -/
def Entries (room : ℕ) (members : List (Bytes × Doc)) : Prop :=
  ∀ member ∈ members, IsInner member.1 ∧ Readable room member.2

theorem Entries.object (entries : Entries room members) : Readable (room + 1) (.object members) :=
  .object (fun member inside => (entries member inside).1)
    fun member inside => (entries member inside).2

theorem Entries.cons (key : String) (small : SmallName key) (readable : Readable room doc)
    (entries : Entries room members) : Entries room ((bytesOf key, doc) :: members) := by
  rw [Entries, List.forall_mem_cons]
  exact ⟨⟨isInner_small small, readable⟩, entries⟩

theorem Entries.textMember (key : String) (small : SmallName key) (text : Bytes) (entries : Entries room members) :
    Entries room (textMember key text :: members) :=
  entries.cons key small (.string room (isInner_quote text))

theorem Entries.omit (key : String) (small : SmallName key) (text : Bytes) (entries : Entries room members) :
    Entries room (textMemberOmit key text ++ members) := by
  rw [textMemberOmit]
  split
  · exact entries
  · exact entries.textMember key small text

theorem entries_nil : Entries room [] :=
  fun _ inside => nomatch inside

end Members

section Reading

variable {result : ChatResult}

theorem valuesOf_nil (name : String) : valuesOf [] name = [] :=
  rfl

theorem storeToolFunction_doc (function : ToolFunction) :
    storeToolFunction (.object [textMember "name" (bytesOf function.name),
      textMember "arguments" (bytesOf function.arguments)]) {} = some function := by
  have name : valuesOf [textMember "name" (bytesOf function.name),
      textMember "arguments" (bytesOf function.arguments)] "name" =
      [.string (quote (bytesOf function.name))] := by
    simp (disch := decide) [valuesOf_textMember, valuesOf_nil]
  have arguments : valuesOf [textMember "name" (bytesOf function.name),
      textMember "arguments" (bytesOf function.arguments)] "arguments" =
      [.string (quote (bytesOf function.arguments))] := by
    simp (disch := decide) [valuesOf_textMember, valuesOf_nil]
  rw [storeToolFunction, storeStruct, storeField_text name, storeField_text arguments]
  rfl

/-- A call with an index of 64 bits is read as it was written. -/
theorem storeToolCall_doc {call : ToolCall} (low : -2 ^ 63 ≤ call.index)
    (high : call.index < 2 ^ 63) : storeToolCall call.doc { index := 0 } = some call := by
  have members : ∃ members, call.doc = .object members ∧
      valuesOf members "id" = (textMemberOmit "id" (bytesOf call.id)).map Prod.snd ∧
      valuesOf members "index" = [.number (intLiteral call.index)] ∧
      valuesOf members "type" = (textMemberOmit "type" (bytesOf call.type)).map Prod.snd ∧
      valuesOf members "function" = [.object [textMember "name" (bytesOf call.function.name),
        textMember "arguments" (bytesOf call.function.arguments)]] := by
    refine ⟨_, rfl, ?_, ?_, ?_, ?_⟩ <;>
      simp (disch := decide) [valuesOf_member, valuesOf_omit, valuesOf_nil]
  rcases members with ⟨members, isDoc, id, index, type, function⟩
  rw [isDoc, storeToolCall, storeStruct, storeField_omit id, storeField_once index,
    storeField_omit type, storeField_once function, storeToolFunction_doc, storeInt,
    integerOf_intLiteral low high]
  rfl

theorem storeEach_docs {calls : List ToolCall}
    (inRange : ∀ call ∈ calls, -2 ^ 63 ≤ call.index ∧ call.index < 2 ^ 63) :
    storeEach { index := 0 } storeToolCall (calls.map ToolCall.doc) [] = some calls := by
  induction calls with
  | nil => rfl
  | cons call rest ih =>
      rw [List.forall_mem_cons] at inRange
      rw [List.map_cons, storeEach, List.headD_nil, storeToolCall_doc inRange.1.1 inRange.1.2,
        List.tail_nil, ih inRange.2]
      rfl

theorem storeField_calls {members : List (Bytes × Doc)}
    (inRange : ∀ call ∈ result.toolCalls, -2 ^ 63 ≤ call.index ∧ call.index < 2 ^ 63)
    (given : valuesOf members "tool_calls" =
      if result.toolCalls = [] then [] else [.array (result.toolCalls.map ToolCall.doc)]) :
    storeField (storeItems { index := 0 } storeToolCall) members "tool_calls" {} =
      some { items := result.toolCalls } := by
  split at given
  · rename_i empty
    rw [storeField_absent given, empty]
  · rw [storeField_once given, storeItems_array, storeEach_docs inRange, Option.map_some]

theorem usageOf_compact {room : ℕ} {usage : Doc} (readable : Readable room usage) :
    usageOf (some usage.compact) = usageOf (some usage) := by
  have same := (compact_reads readable).2
  cases usage with
  | null => rfl
  | _ => exact congrArg some same

theorem readable_call (room : ℕ) (call : ToolCall) : Readable (room + 2) call.doc := by
  have function : Readable (room + 1) (.object [textMember "name" (bytesOf call.function.name),
      textMember "arguments" (bytesOf call.function.arguments)]) :=
    ((entries_nil.textMember "arguments" (by decide) _).textMember "name" (by decide) _).object
  have functionEntry := entries_nil.cons "function" (by decide) function
  have typeEntries := functionEntry.omit "type" (by decide) (bytesOf call.type)
  have index := Readable.number (room + 1) (isNumber_intLiteral call.index)
  exact ((typeEntries.cons "index" (by decide) index).omit "id" (by decide) _).object

theorem readable_message (room : ℕ) (result : ChatResult) :
    Readable (room + 4) result.messageDoc := by
  have calls : Entries (room + 3) (if result.toolCalls = [] then []
      else [(bytesOf "tool_calls", .array (result.toolCalls.map ToolCall.doc))]) := by
    split
    · exact entries_nil
    · apply entries_nil.cons "tool_calls" (by decide)
      apply Readable.array
      intro doc inside
      rcases List.mem_map.mp inside with ⟨call, _, rfl⟩
      exact readable_call room call
  have roleEntries := calls.textMember "role" (by decide) (bytesOf "assistant")
  exact ((roleEntries.omit "reasoning" (by decide) _).textMember "content" (by decide) _).object

theorem readable_doc {room : ℕ}
    (usage : ∀ doc, result.usage = some doc → Readable (room + 6) doc) :
    Readable (room + 7) result.doc := by
  have message := entries_nil.cons "message" (by decide) (readable_message room result)
  have index := Readable.number (room + 4) (isNumber_intLiteral 0)
  have choice := ((message.cons "index" (by decide) index).omit "finish_reason" (by decide)
    (bytesOf result.finishReason)).object
  have choices : Readable (room + 6) (.array [result.choiceDoc]) := by
    apply Readable.array
    intro doc inside
    rw [List.mem_singleton.mp inside]
    exact choice
  have usageEntry : Entries (room + 6)
      (result.usage.map fun usage => (bytesOf "usage", usage.compact)).toList := by
    cases isUsage : result.usage with
    | none => exact entries_nil
    | some doc =>
        exact entries_nil.cons "usage" (by decide) (compact_reads (usage doc isUsage)).1
  have object := usageEntry.textMember "object" (by decide) (bytesOf "chat.completion")
  have model := object.omit "model" (by decide) (bytesOf result.model)
  have whole := (model.omit "id" (by decide) (bytesOf result.id)).cons "choices" (by decide) choices
  rw [ChatResult.doc, List.append_assoc]
  exact whole.object

/-- A merged completion is read as it was. -/
theorem readChat_doc
    (inRange : ∀ call ∈ result.toolCalls, -2 ^ 63 ≤ call.index ∧ call.index < 2 ^ 63)
    (usage : ∀ doc, result.usage = some doc → Readable (maxNestingDepth - 1) doc) :
    readChat result.doc.print = some result.chat := by
  have reads : parseDoc maxNestingDepth result.doc.print = some result.doc :=
    parseDoc_print (readable_doc usage)
  have message : ∃ members, result.messageDoc = .object members ∧
      valuesOf members "content" = [.string (quote (bytesOf result.content))] ∧
      valuesOf members "reasoning" =
        (textMemberOmit "reasoning" (bytesOf result.reasoning)).map Prod.snd ∧
      valuesOf members "tool_calls" =
        if result.toolCalls = [] then [] else [.array (result.toolCalls.map ToolCall.doc)] := by
    by_cases noCalls : result.toolCalls = []
    · refine ⟨_, rfl, ?_, ?_, ?_⟩ <;>
        simp (disch := decide) [noCalls, valuesOf_textMember, valuesOf_omit, valuesOf_nil]
    · refine ⟨_, rfl, ?_, ?_, ?_⟩ <;>
        simp (disch := decide) [noCalls, valuesOf_textMember, valuesOf_omit, valuesOf_member,
          valuesOf_nil]
  have choice : ∃ members, result.choiceDoc = .object members ∧
      valuesOf members "finish_reason" =
        (textMemberOmit "finish_reason" (bytesOf result.finishReason)).map Prod.snd ∧
      valuesOf members "message" = [result.messageDoc] := by
    refine ⟨_, rfl, ?_, ?_⟩ <;>
      simp (disch := decide) [valuesOf_omit, valuesOf_member, valuesOf_nil]
  have completion : ∃ members, result.doc = .object members ∧
      valuesOf members "choices" = [.array [result.choiceDoc]] ∧
      valuesOf members "id" = (textMemberOmit "id" (bytesOf result.id)).map Prod.snd ∧
      valuesOf members "model" = (textMemberOmit "model" (bytesOf result.model)).map Prod.snd ∧
      valuesOf members "usage" = (result.usage.map Doc.compact).toList := by
    refine ⟨_, rfl, ?_, ?_, ?_, ?_⟩ <;> cases result.usage <;>
      simp (disch := decide) [valuesOf_textMember, valuesOf_omit, valuesOf_member, valuesOf_nil]
  rcases message with ⟨messageMembers, isMessage, content, reasoning, calls⟩
  rcases choice with ⟨choiceMembers, isChoice, finishReason, hasMessage⟩
  rcases completion with ⟨members, isDoc, choices, id, model, usages⟩
  have usageReads : ∃ read, storeField storeRaw members "usage" none = some read ∧
      usageOf read = usageOf result.usage := by
    cases isUsage : result.usage with
    | none =>
        rw [isUsage] at usages
        exact ⟨none, storeField_absent usages, rfl⟩
    | some doc =>
        rw [isUsage] at usages
        exact ⟨_, storeField_once usages, usageOf_compact (usage doc isUsage)⟩
  rcases usageReads with ⟨read, usageReads, sameUsage⟩
  rw [isMessage] at hasMessage
  rw [isChoice] at choices
  rw [isDoc] at reads ⊢
  rw [readChat, reads]
  simp only [choices, hasMessage, storeField_omit id, storeField_omit model,
    storeField_text content, storeField_omit reasoning, storeField_omit finishReason, usageReads,
    storeField_calls inRange calls, Option.bind_eq_bind, Option.bind_some, sameUsage]
  rfl

end Reading

namespace Chunk

variable (chunk : Chunk)

/-- The text that `mergeChunk` takes from a chunk. -/
def content : String :=
  match chunk.choices.items with
  | [] => ""
  | choice :: _ => anyText choice.message.content ++ anyText choice.delta.content

def reasoning : String :=
  match chunk.choices.items with
  | [] => ""
  | choice :: _ =>
      anyText choice.message.reasoning ++ anyText choice.message.reasoningContent ++
        anyText choice.delta.reasoning ++ anyText choice.delta.reasoningContent

def calls : List ToolCallRaw :=
  match chunk.choices.items with
  | [] => []
  | choice :: _ => choice.message.toolCalls.items ++ choice.delta.toolCalls.items

def finishReason : String :=
  match chunk.choices.items with
  | [] => ""
  | choice :: _ => choice.finishReason.getD ""

end Chunk

/-- The first text that is not empty stays. -/
def keepFirst (held text : String) : String :=
  if text ≠ "" ∧ held = "" then text else held

/-- The last text that is not empty stays. -/
def keepLast (held text : String) : String :=
  if text ≠ "" then text else held

/-- A call of which nothing has come. -/
def freshCall (index : ℤ) : ToolCall :=
  { index }

namespace ChatResult

/-- The calls in their slots. -/
def slots (result : ChatResult) : Slots ℤ ToolCall :=
  ⟨result.toolCalls, result.callPos.getD []⟩

/-- What is merged after these chunks. -/
structure Merged (result : ChatResult) (chunks : List Chunk) : Prop where
  id : result.id = (chunks.map Chunk.id).foldl keepFirst ""
  model : result.model = (chunks.map Chunk.model).foldl keepFirst ""
  content : result.content = String.join (chunks.map Chunk.content)
  reasoning : result.reasoning = String.join (chunks.map Chunk.reasoning)
  finishReason : result.finishReason = (chunks.map Chunk.finishReason).foldl keepLast ""
  usage : result.usage = (chunks.filterMap Chunk.usage).getLast?
  found : result.found = chunks.any fun chunk => !chunk.choices.items.isEmpty
  calls : result.slots.Holds ToolCallRaw.idx freshCall ToolCall.merge (chunks.flatMap Chunk.calls)

end ChatResult

section Run

open ChatResult

variable {result : ChatResult} {chunk : Chunk} {chunks : List Chunk} {before : List ToolCallRaw}

theorem slots_mergeCall (result : ChatResult) (call : ToolCallRaw) :
    (result.mergeCall call).slots =
      result.slots.put ToolCallRaw.idx freshCall ToolCall.merge call := by
  simp only [mergeCall, Slots.put, slots]
  cases (result.callPos.getD []).lookup call.idx with
  | some pos => rfl
  | none =>
      rw [List.modify_eq_take_drop, List.take_left, List.drop_left]
      rfl

/-- Only the calls change. -/
def SameText (result after : ChatResult) : Prop :=
  after = { result with toolCalls := after.toolCalls, callPos := after.callPos }

theorem sameText_mergeCall (result : ChatResult) (call : ToolCallRaw) :
    SameText result (result.mergeCall call) := by
  simp only [SameText, mergeCall]
  split <;> rfl

theorem SameText.trans {middle after : ChatResult} (first : SameText result middle)
    (second : SameText middle after) : SameText result after := by
  rw [SameText, second, first]

theorem mergeCalls_spec (holds : result.slots.Holds ToolCallRaw.idx freshCall ToolCall.merge before)
    (calls : List ToolCallRaw) :
    SameText result (result.mergeCalls calls) ∧
      (result.mergeCalls calls).slots.Holds ToolCallRaw.idx freshCall ToolCall.merge
        (before ++ calls) := by
  have steps : ∀ (calls : List ToolCallRaw) (result : ChatResult),
      SameText result (calls.foldl mergeCall result) ∧ (calls.foldl mergeCall result).slots =
        calls.foldl (Slots.put ToolCallRaw.idx freshCall ToolCall.merge) result.slots := by
    intro calls
    induction calls with
    | nil => exact fun result => ⟨rfl, rfl⟩
    | cons call rest ih =>
        intro result
        rcases ih (result.mergeCall call) with ⟨sameText, sameSlots⟩
        rw [List.foldl_cons, List.foldl_cons, sameSlots, slots_mergeCall]
        exact ⟨(sameText_mergeCall result call).trans sameText, rfl⟩
  have starts : SameText result result.mergeIndexInit ∧
      result.mergeIndexInit.slots = result.slots := by
    unfold mergeIndexInit
    cases isPos : result.callPos with
    | some places => exact ⟨rfl, rfl⟩
    | none =>
        -- without a table there is no call yet
        have noPlaces : result.slots.places = [] := by
          simp [slots, isPos]
        have noKeys : before.map ToolCallRaw.idx = [] := by
          rw [List.eq_nil_iff_forall_not_mem]
          intro index
          rw [← holds.lookup_eq_none, noPlaces]
          rfl
        have noCalls : result.toolCalls = [] := by
          have same := holds.slots
          rwa [noKeys, List.eraseDups_nil, List.map_nil] at same
        simp [SameText, slots, noCalls, isPos]
  rcases steps calls result.mergeIndexInit with ⟨sameText, sameSlots⟩
  refine ⟨starts.1.trans sameText, ?_⟩
  rw [mergeCalls, sameSlots, starts.2]
  exact holds.foldl calls

theorem ChatResult.Merged.add (merged : result.Merged chunks) (chunk : Chunk) :
    (result.add chunk).Merged (chunks ++ [chunk]) := by
  have id : keepFirst result.id chunk.id =
      ((chunks ++ [chunk]).map Chunk.id).foldl keepFirst "" := by
    rw [List.map_append, List.foldl_append, ← merged.id]
    rfl
  have model : keepFirst result.model chunk.model =
      ((chunks ++ [chunk]).map Chunk.model).foldl keepFirst "" := by
    rw [List.map_append, List.foldl_append, ← merged.model]
    rfl
  have content : result.content ++ chunk.content =
      String.join ((chunks ++ [chunk]).map Chunk.content) := by
    rw [List.map_append, List.map_singleton, String.join_append, String.join_cons, String.join_nil,
      String.append_empty, merged.content]
  have reasoning : result.reasoning ++ chunk.reasoning =
      String.join ((chunks ++ [chunk]).map Chunk.reasoning) := by
    rw [List.map_append, List.map_singleton, String.join_append, String.join_cons, String.join_nil,
      String.append_empty, merged.reasoning]
  have finishReason : keepLast result.finishReason chunk.finishReason =
      ((chunks ++ [chunk]).map Chunk.finishReason).foldl keepLast "" := by
    rw [List.map_append, List.foldl_append, ← merged.finishReason]
    rfl
  have usage : (if chunk.usage.isSome then chunk.usage else result.usage) =
      ((chunks ++ [chunk]).filterMap Chunk.usage).getLast? := by
    rw [List.filterMap_append, merged.usage]
    cases isUsage : chunk.usage with
    | none => simp [isUsage]
    | some doc => simp [isUsage]
  have found : (result.found || !chunk.choices.items.isEmpty) =
      (chunks ++ [chunk]).any fun chunk => !chunk.choices.items.isEmpty := by
    rw [List.any_append, ← merged.found]
    simp
  have calls : (chunks ++ [chunk]).flatMap Chunk.calls = chunks.flatMap Chunk.calls ++ chunk.calls := by
    simp
  cases choices : chunk.choices.items with
  | nil =>
      have noContent : chunk.content = "" := by simp [Chunk.content, choices]
      have noReasoning : chunk.reasoning = "" := by simp [Chunk.reasoning, choices]
      have noReason : chunk.finishReason = "" := by simp [Chunk.finishReason, choices]
      have noCalls : chunk.calls = [] := by simp [Chunk.calls, choices]
      rw [noContent, String.append_empty] at content
      rw [noReasoning, String.append_empty] at reasoning
      rw [noReason] at finishReason
      rw [noCalls, List.append_nil] at calls
      rw [choices, List.isEmpty_nil, Bool.not_true, Bool.or_false] at found
      simp only [ChatResult.add, choices]
      refine ⟨id, model, content, reasoning, finishReason, usage, found, ?_⟩
      rw [calls]
      exact merged.calls
  | cons choice others =>
      have isContent : chunk.content =
          anyText choice.message.content ++ anyText choice.delta.content := by
        simp [Chunk.content, choices]
      have isReasoning : chunk.reasoning =
          anyText choice.message.reasoning ++ anyText choice.message.reasoningContent ++
            anyText choice.delta.reasoning ++ anyText choice.delta.reasoningContent := by
        simp [Chunk.reasoning, choices]
      have isReason : chunk.finishReason = choice.finishReason.getD "" := by
        simp [Chunk.finishReason, choices]
      have isCalls : chunk.calls = choice.message.toolCalls.items ++ choice.delta.toolCalls.items := by
        simp [Chunk.calls, choices]
      rw [isContent] at content
      rw [isReasoning] at reasoning
      rw [isReason] at finishReason
      rw [isCalls, ← List.append_assoc] at calls
      rw [choices, List.isEmpty_cons, Bool.not_false, Bool.or_true] at found
      simp only [ChatResult.add, choices]
      have textHolds : ((result.addMeta chunk).addText choice.message choice.delta).slots.Holds
          ToolCallRaw.idx freshCall ToolCall.merge (chunks.flatMap Chunk.calls) := merged.calls
      rcases mergeCalls_spec textHolds choice.message.toolCalls.items with ⟨messageText, messageHolds⟩
      rcases mergeCalls_spec messageHolds choice.delta.toolCalls.items with ⟨deltaText, deltaHolds⟩
      have sameText := messageText.trans deltaText
      rw [sameText] at deltaHolds ⊢
      rw [← calls] at deltaHolds
      exact ⟨id, model, content, reasoning, finishReason, usage, found, deltaHolds⟩

theorem merged_nil : Merged {} [] :=
  ⟨rfl, rfl, rfl, rfl, rfl, rfl, rfl, Slots.holds_nil⟩

/-- Any number of chunks. -/
theorem ChatResult.Merged.foldl (merged : result.Merged chunks) (more : List Chunk) :
    (more.foldl ChatResult.add result).Merged (chunks ++ more) := by
  induction more generalizing result chunks with
  | nil => simpa using merged
  | cons chunk rest ih =>
      have later := ih (merged.add chunk)
      rwa [List.append_assoc, List.singleton_append] at later

end Run

end MikroLLM.Hub
