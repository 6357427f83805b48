import Mathlib.Data.List.Flatten
import MikroLLM.Codex.Request
import MikroLLM.Library.Pieces

/-!
# Conversations for Codex

What the messages of a chat completion say, and what of it is left in the request
for Codex. `toResponses` reads the role and the texts of a message and nothing
else.
-/

namespace MikroLLM.Codex

open Go Library

def isNull : Doc → Bool
  | .null => true
  | _ => false

/-- A message with all that it has. -/
structure FullMessage where
  role : String := ""
  content : Option Doc := none
  toolCalls : Option Doc := none
  toolCallID : Option Doc := none
  rest : List (Bytes × Doc) := []

/-- The fields of a message that the translation has to do with. -/
def messageFields : List String :=
  ["role", "content", "tool_calls", "tool_call_id"]

/-- The message as `toResponses` decodes it. -/
def FullMessage.brief (message : FullMessage) : Message where
  role := message.role
  content := message.content

def storeFull : Store FullMessage :=
  storeStruct fun members held => do
    let role ← storeField storeString members "role" held.role
    let content ← storeField storeRaw members "content" held.content
    let toolCalls ← storeField storeRaw members "tool_calls" held.toolCalls
    let toolCallID ← storeField storeRaw members "tool_call_id" held.toolCallID
    let more := members.filter fun member =>
      !(messageFields.any fun name => isField name member.1) && !isNull member.2
    some { role, content, toolCalls, toolCallID, rest := held.rest ++ more }

/-- The messages of a body with all that they have. -/
def conversationOf (chat : Bytes) : Option (List FullMessage) :=
  ((parseDoc maxNestingDepth chat).bind fun doc =>
    storeStruct (fun members held => storeField (storeItems {} storeFull) members "messages" held)
      doc {}).map Slice.items

/-- A part of a content: a text, or something else. -/
inductive Part
  | text (text : String)
  | other (doc : Doc)

def partOf : Doc → Part
  | .object members =>
      match fieldOf (membersValue members) "text" with
      | some (.string text) => .text text
      | _ => .other (.object members)
  | doc => .other doc

def partsOf : Option Doc → List Part
  | none => []
  | some .null => []
  | some (.string inner) => [.text (unquote inner)]
  | some (.array items) => items.map partOf
  | some doc => [.other doc]

def Part.asText : Part → Option String
  | .text said => some said
  | .other _ => none

def Part.asOther : Part → Option Doc
  | .text _ => none
  | .other doc => some doc

/-- The text of a content. -/
def textOf (content : Option Doc) : String :=
  String.join ((partsOf content).filterMap Part.asText)

/-- What a content has besides texts. -/
def othersOf (content : Option Doc) : List Doc :=
  (partsOf content).filterMap Part.asOther

/-- The member of an object that counts. -/
def memberOf (doc : Doc) (name : String) : Doc :=
  match doc with
  | .object members => (valuesOf members name).getLastD .null
  | _ => .null

def textIn (doc : Doc) (name : String) : String :=
  match memberOf doc name with
  | .string inner => unquote inner
  | _ => ""

/-- What a conversation consists of. -/
inductive Item
  | text (role text : String)
  | part (role : String) (doc : Doc)
  | call (id name arguments : String)
  | output (id text : String)
  | member (role : String) (key : Bytes) (doc : Doc)

def callOf (doc : Doc) : Item :=
  .call (textIn doc "id") (textIn (memberOf doc "function") "name")
    (textIn (memberOf doc "function") "arguments")

def callsOf : Option Doc → List Item
  | none => []
  | some .null => []
  | some (.array items) => items.map callOf
  | some doc => [callOf doc]

namespace FullMessage

variable (message : FullMessage)

/-- The id of a call, of a message that is not its output. -/
def strayID : List Item :=
  match message.toolCallID with
  | none => []
  | some .null => []
  | some doc => [.member message.role (bytesOf "tool_call_id") doc]

/-- The id of the call that a message is the output of. -/
def outputID : String :=
  match message.toolCallID with
  | some (.string inner) => unquote inner
  | _ => ""

/-- What a message says, but for instructions. -/
def said : List Item :=
  if instructs message.role then []
  else if message.role = "tool" then [.output message.outputID (textOf message.content)]
  else [.text message.role (textOf message.content)]

/-- What a message has besides. -/
def besides : List Item :=
  (othersOf message.content).map (.part message.role) ++ callsOf message.toolCalls ++
    (if message.role = "tool" then [] else message.strayID) ++
    message.rest.map fun member => .member message.role member.1 member.2

/-- The items of a message. -/
def items : List Item :=
  message.said ++ message.besides

/-- The instructions of a message. -/
def instructions : List String :=
  if instructs message.role && textOf message.content ≠ "" then [textOf message.content] else []

/-- A message of a role that the request has, with texts and nothing else. A text is lost when a
number among its parts is out of range. -/
structure Plain : Prop where
  role : message.role ∈ ["system", "developer", "user", "assistant"]
  besides : message.besides = []
  numbers : textOf message.content = "" ∨
    ∀ doc ∈ message.content, (doc.value.load).isSome = true

end FullMessage

/-- An element of `input`, as an item. -/
def InputMessage.item (input : InputMessage) : Item :=
  .text input.role input.text

/-- The request has the items of the messages in their order, and no other, and their
instructions. -/
structure Keeps (messages : List FullMessage) (payload : Payload) : Prop where
  contains : (messages.flatMap FullMessage.items).Sublist (payload.input.map InputMessage.item)
  nothingElse : ∀ item ∈ payload.input.map InputMessage.item,
    item ∈ messages.flatMap FullMessage.items
  instructions : payload.instructions.getD "" =
    join (messages.flatMap FullMessage.instructions) "\n\n"

section Reading

variable {chat : Bytes} {request : ChatRequest}

theorem storeField_storeRaw (members : List (Bytes × Doc)) (name : String) (held : Option Doc) :
    ∃ last, storeField storeRaw members name held = some last := by
  rw [storeField]
  induction valuesOf members name generalizing held with
  | nil => exact ⟨held, rfl⟩
  | cons doc rest ih =>
      rw [List.foldlM_cons]
      exact ih (some doc)

theorem views_brief : Views FullMessage.brief storeFull storeMessage := by
  intro doc held
  cases doc with
  | object members =>
      rcases storeField_storeRaw members "content" held.content with ⟨content, isContent⟩
      rcases storeField_storeRaw members "tool_calls" held.toolCalls with ⟨toolCalls, areCalls⟩
      rcases storeField_storeRaw members "tool_call_id" held.toolCallID with ⟨toolCallID, isID⟩
      simp only [storeFull, storeMessage, storeStruct, FullMessage.brief, isContent, areCalls, isID]
      cases storeField storeString members "role" held.role <;> rfl
  | _ => rfl

/-- The messages that `toResponses` decodes are those of the conversation. -/
theorem conversationOf_eq_some (reads : readRequest chat = some request) :
    ∃ messages, conversationOf chat = some messages ∧
      messages.map FullMessage.brief = request.messages.items := by
  rcases Option.bind_eq_some_iff.mp reads with ⟨doc, parsed, stored⟩
  rw [conversationOf, parsed, Option.bind_some]
  cases doc with
  | null =>
      cases stored
      exact ⟨[], rfl, rfl⟩
  | object members =>
      have views := (views_brief.items {}).field members "messages" {}
      simp only [storeRequest, storeStruct, Option.bind_eq_bind, Option.bind_eq_some_iff] at stored
      rcases stored with ⟨model, _, stream, _, tools, _, messages, isMessages, same⟩
      cases same
      have zero : ({} : FullMessage).brief = ({} : Message) := rfl
      have nothing : Slice.map FullMessage.brief {} = {} := rfl
      rw [zero, nothing, isMessages] at views
      rcases Option.map_eq_some_iff.mp views with ⟨full, isFull, brief⟩
      refine ⟨full.items, ?_, congrArg Slice.items brief⟩
      rw [storeStruct, isFull]
      rfl
  | _ => cases stored

end Reading

section Texts

variable {content : Option Doc} {doc : Doc} {items : List Doc} {members : List (Bytes × Doc)}
  {fields : Fields} {text : String}

/-- The text of a part is what `contentText` writes for it. -/
theorem stringAt_mapOf (loads : mapOf doc = some fields) :
    stringAt fields "text" = (partOf doc).asText.getD "" := by
  cases doc with
  | null =>
      cases loads
      rfl
  | object members =>
      have same := fieldOf_loadFields loads "text"
      rw [stringAt, field, same, partOf]
      cases found : fieldOf (membersValue members) "text" with
      | none => rfl
      | some value =>
          cases value with
          | string text => rfl
          | number literal =>
              cases loaded : readBack literal <;> simp [Json.load, loaded, Part.asText]
          | array items =>
              cases loaded : loadItems items <;> simp [Json.load, loaded, Part.asText]
          | object fields =>
              cases loaded : loadFields fields <;> simp [Json.load, loaded, Part.asText]
          | _ => rfl
  | _ => cases loads

theorem texts_mapM {parts : List Fields} (loads : items.mapM mapOf = some parts) :
    String.join (parts.map fun part => stringAt part "text") =
      String.join ((items.map partOf).filterMap Part.asText) := by
  induction items generalizing parts with
  | nil =>
      cases loads
      rfl
  | cons item rest ih =>
      rw [List.mapM_cons] at loads
      simp only [Option.bind_eq_bind, Option.bind_eq_some_iff] at loads
      rcases loads with ⟨first, firstLoads, others, othersLoad, same⟩
      cases same
      apply String.ext
      have tail := congrArg String.toList (ih othersLoad)
      rw [String.toList_join, String.toList_join] at tail ⊢
      rw [List.map_cons, List.flatMap_cons, tail, stringAt_mapOf firstLoads, List.map_cons]
      cases isText : (partOf item).asText with
      | none => simp [isText]
      | some text => simp [isText]

/-- Where all parts are texts they load as maps exactly when they load at all. -/
theorem isSome_mapM (texts : (items.map partOf).filterMap Part.asOther = []) :
    (items.mapM mapOf).isSome = (loadItems (itemsValue items)).isSome := by
  induction items with
  | nil => rfl
  | cons item rest ih =>
      cases item with
      | object members =>
          have tail := ih (by
            rw [List.map_cons, List.filterMap_cons] at texts
            split at texts
            · exact texts
            · cases texts)
          rw [List.mapM_cons, itemsValue, Doc.value, loadItems, Json.load, mapOf]
          cases loadFields (membersValue members) with
          | none => rfl
          | some fields =>
              simp only [Option.bind_eq_bind, Option.bind_some, Option.map_some]
              cases first : rest.mapM mapOf with
              | none =>
                  rw [first] at tail
                  cases second : loadItems (itemsValue rest) with
                  | none => rfl
                  | some values =>
                      rw [second] at tail
                      cases tail
              | some parts =>
                  rw [first] at tail
                  cases second : loadItems (itemsValue rest) with
                  | none =>
                      rw [second] at tail
                      cases tail
                  | some values => rfl
      | _ => cases texts

/-- `contentText` gives the text or nothing. -/
theorem contentText_eq_or (content : Option Doc) :
    contentText content = textOf content ∨ contentText content = "" := by
  cases content with
  | none => exact Or.inr rfl
  | some doc =>
      cases doc with
      | string inner =>
          left
          apply String.ext
          rw [textOf, String.toList_join]
          simp [contentText, partsOf, Part.asText]
      | array items =>
          simp only [contentText]
          cases loads : items.mapM mapOf with
          | none => exact Or.inr rfl
          | some parts => exact Or.inl (texts_mapM loads)
      | _ => exact Or.inr rfl

/-- A content of texts is lost exactly when a number in it is out of range. -/
theorem contentText_eq_iff (texts : othersOf content = []) :
    contentText content = textOf content ↔
      textOf content = "" ∨ ∀ doc ∈ content, (doc.value.load).isSome = true := by
  cases content with
  | none => simp [contentText, textOf, partsOf]
  | some doc =>
      cases doc with
      | null => simp [contentText, textOf, partsOf]
      | string inner =>
          have same : contentText (some (.string inner)) = textOf (some (.string inner)) := by
            apply String.ext
            rw [textOf, String.toList_join]
            simp [contentText, partsOf, Part.asText]
          simp [same, Doc.value, Json.load]
      | array items =>
          have loadsToo := isSome_mapM texts
          have isLoaded : ((Doc.array items).value.load).isSome =
              (loadItems (itemsValue items)).isSome := by
            simp [Doc.value, Json.load]
          simp only [Option.mem_some_iff, forall_eq', isLoaded, ← loadsToo]
          cases loads : items.mapM mapOf with
          | none =>
              have lost : contentText (some (.array items)) = "" := by
                simp only [contentText, loads]
              rw [lost, eq_comm]
              simp
          | some parts =>
              have kept : contentText (some (.array items)) = textOf (some (.array items)) := by
                simp only [contentText, loads]
                exact texts_mapM loads
              simp [kept]
      | _ => cases texts

end Texts

section Keeping

variable {message : FullMessage} {messages : List FullMessage} {payload : Payload}

/-- What a message adds to `input`. -/
theorem input_brief (message : FullMessage) : message.brief.input.map InputMessage.item =
    if instructs message.role = true then []
    else [.text (if message.role = "assistant" then "assistant" else "user")
      (contentText message.content)] := by
  have items (message : Message) : message.input.map InputMessage.item =
      if instructs message.role = true then []
      else [.text (if message.role = "assistant" then "assistant" else "user")
        (contentText message.content)] := by
    simp only [Message.input]
    split_ifs <;> rfl
  exact items message.brief

/-- What a message adds to `instructions`. -/
theorem instructions_brief (message : FullMessage) : message.brief.instructions =
    if instructs message.role = true ∧ contentText message.content ≠ "" then
      [contentText message.content] else [] := by
  have texts (message : Message) : message.instructions =
      if instructs message.role = true ∧ contentText message.content ≠ "" then
        [contentText message.content] else [] := by
    simp [Message.instructions]
  exact texts message.brief

theorem instructions_eq (message : FullMessage) : message.instructions =
    if instructs message.role = true ∧ textOf message.content ≠ "" then
      [textOf message.content] else [] := by
  simp [FullMessage.instructions]

/-- What a message adds to `input` is not longer than what it says. -/
theorem length_input_le (message : FullMessage) :
    (message.brief.input.map InputMessage.item).length ≤ message.items.length := by
  rw [input_brief, FullMessage.items, FullMessage.said, List.length_append]
  split_ifs <;> simp

/-- The instructions that are written are among those that the message gives. -/
theorem instructions_sublist (message : FullMessage) :
    message.brief.instructions.Sublist message.instructions := by
  rw [instructions_brief, instructions_eq]
  rcases contentText_eq_or message.content with same | lost
  · rw [same]
  · simp [lost]

theorem instructions_ne_nil :
    ∀ text ∈ messages.flatMap FullMessage.instructions, text.toList ≠ [] := by
  intro text inside empty
  rcases List.mem_flatMap.mp inside with ⟨message, _, listed⟩
  rw [FullMessage.instructions] at listed
  split at listed
  · rename_i gives
    rw [List.mem_singleton] at listed
    rw [listed, String.toList_eq_nil_iff] at empty
    simp [empty] at gives
  · exact nomatch listed

theorem join_eq_iff {left right : List String} (within : left.Sublist right)
    (full : ∀ text ∈ right, text.toList ≠ []) :
    join left "\n\n" = join right "\n\n" ↔ left = right := by
  have injective : Function.Injective (List.map String.toList) :=
    List.map_injective_iff.mpr fun _ _ => String.ext
  rw [join, join, ← String.toList_inj, String.toList_intercalate, String.toList_intercalate,
    ← injective.eq_iff]
  apply intercalate_eq_iff (within.map String.toList)
  intro piece inside
  rcases List.mem_map.mp inside with ⟨text, listed, rfl⟩
  exact full text listed

theorem othersOf_of_besides (nothing : message.besides = []) : othersOf message.content = [] := by
  simp only [FullMessage.besides, List.append_eq_nil_iff, List.map_eq_nil_iff] at nothing
  exact nothing.1.1.1

/-- Instructions are kept exactly when their text is. -/
theorem instructions_iff (isInstructing : instructs message.role = true) :
    message.instructions = message.brief.instructions ↔
      contentText message.content = textOf message.content := by
  rw [instructions_brief, instructions_eq]
  rcases contentText_eq_or message.content with same | lost
  · simp [same]
  · by_cases empty : textOf message.content = ""
    · simp [lost, empty]
    · simp [lost, empty, isInstructing, Ne.symm empty]

/-- What another message says is kept exactly under the two roles of the request. -/
theorem said_iff (notInstructing : instructs message.role = false) :
    message.items = message.brief.input.map InputMessage.item ↔
      message.role ∈ ["user", "assistant"] ∧ message.besides = [] ∧
        contentText message.content = textOf message.content := by
  have notInstructs : ¬instructs message.role = true := by simp [notInstructing]
  rw [input_brief, FullMessage.items, FullMessage.said, if_neg notInstructs, if_neg notInstructs]
  by_cases isTool : message.role = "tool"
  · simp [isTool]
  · rw [if_neg isTool, List.singleton_append, List.cons.injEq, Item.text.injEq, and_assoc,
      eq_comm (b := contentText message.content)]
    by_cases isAssistant : message.role = "assistant"
    · simp [isAssistant, and_comm]
    · simp [isAssistant, and_comm]

/-- The items and the instructions of a message are all kept exactly when it is plain. -/
theorem plain_iff (message : FullMessage) :
    (message.items = message.brief.input.map InputMessage.item ∧
      message.instructions = message.brief.instructions) ↔ message.Plain := by
  cases isInstructing : instructs message.role with
  | true =>
      have isRole : message.role = "system" ∨ message.role = "developer" := by
        simpa [instructs] using isInstructing
      have items : message.items = message.besides := by
        simp [FullMessage.items, FullMessage.said, isInstructing]
      rw [input_brief, if_pos isInstructing, items, instructions_iff isInstructing]
      constructor
      · rintro ⟨nothing, same⟩
        refine ⟨?_, nothing, (contentText_eq_iff (othersOf_of_besides nothing)).mp same⟩
        rcases isRole with isSystem | isDeveloper
        · simp [isSystem]
        · simp [isDeveloper]
      · rintro ⟨_, nothing, numbers⟩
        exact ⟨nothing, (contentText_eq_iff (othersOf_of_besides nothing)).mpr numbers⟩
  | false =>
      have noInstructions : message.instructions = message.brief.instructions := by
        rw [instructions_brief, instructions_eq]
        simp [isInstructing]
      rw [said_iff isInstructing]
      constructor
      · rintro ⟨⟨isRole, nothing, same⟩, _⟩
        refine ⟨?_, nothing, (contentText_eq_iff (othersOf_of_besides nothing)).mp same⟩
        rcases List.mem_cons.mp isRole with isUser | isAssistant
        · simp [isUser]
        · simp [List.mem_singleton.mp isAssistant]
      · rintro ⟨isRole, nothing, numbers⟩
        refine ⟨⟨?_, nothing, (contentText_eq_iff (othersOf_of_besides nothing)).mpr numbers⟩,
          noInstructions⟩
        simp only [instructs, Bool.or_eq_false_iff, decide_eq_false_iff_not] at isInstructing
        simpa [isInstructing] using isRole

/-- The request of a chat completion has all of the conversation exactly when its messages are
plain. -/
theorem keeps_payload_iff {request : ChatRequest} {defaultModel : String}
    (brief : messages.map FullMessage.brief = request.messages.items) :
    Keeps messages (request.payload defaultModel) ↔ ∀ message ∈ messages, message.Plain := by
  have input : (request.payload defaultModel).input.map InputMessage.item =
      messages.flatMap fun message => message.brief.input.map InputMessage.item := by
    rw [ChatRequest.payload, ← brief, List.flatMap_map, List.map_flatMap]
  have instructions : (request.payload defaultModel).instructions.getD "" =
      join (messages.flatMap fun message => message.brief.instructions) "\n\n" := by
    simp only [ChatRequest.payload, ← brief, List.flatMap_map]
    split
    · rename_i empty
      rw [empty]
      rfl
    · rfl
  have shorter : ∀ message ∈ messages, message.brief.instructions.length ≤
      message.instructions.length := fun message _ => (instructions_sublist message).length_le
  have sameItems : (messages.flatMap FullMessage.items).Sublist
      (messages.flatMap fun message => message.brief.input.map InputMessage.item) ↔
        ∀ message ∈ messages, message.items = message.brief.input.map InputMessage.item :=
    sublist_flatMap_iff fun message _ => length_input_le message
  have sameTexts : join (messages.flatMap fun message => message.brief.instructions) "\n\n" =
      join (messages.flatMap FullMessage.instructions) "\n\n" ↔
        ∀ message ∈ messages, message.instructions = message.brief.instructions := by
    rw [join_eq_iff (List.Sublist.flatMap_right messages fun message _ =>
      instructions_sublist message) instructions_ne_nil, eq_comm]
    exact flatMap_eq_iff shorter
  constructor
  · rintro ⟨contains, _, texts⟩ message inside
    rw [input] at contains
    rw [instructions] at texts
    exact (plain_iff message).mp ⟨sameItems.mp contains message inside,
      sameTexts.mp texts message inside⟩
  · intro plain
    have each : ∀ message ∈ messages, message.items = message.brief.input.map InputMessage.item :=
      fun message inside => ((plain_iff message).mpr (plain message inside)).1
    constructor
    · rw [input]
      exact sameItems.mpr each
    · intro item inside
      rw [input, ← List.flatMap_congr each] at inside
      exact inside
    · rw [instructions]
      exact sameTexts.mpr fun message inside => ((plain_iff message).mpr (plain message inside)).2

end Keeping

/-- The request that is made of a body has all of the conversation. -/
def KeepsConversation (chat : Bytes) (defaultModel : String) : Prop :=
  ∀ payload stream, toResponses chat defaultModel = some (payload, stream) →
    ∀ messages, conversationOf chat = some messages → Keeps messages payload

/-- The messages of a body that `toResponses` takes are plain. -/
def PlainConversation (chat : Bytes) : Prop :=
  (readRequest chat).isSome = true →
    ∀ messages, conversationOf chat = some messages → ∀ message ∈ messages, message.Plain

section Trials

/-- A call of a tool and its output. -/
def toolChat : Bytes :=
  bytesOf ("\x7b\"messages\":[\x7b\"role\":\"assistant\"," ++
    "\"tool_calls\":[\x7b\"id\":\"c1\",\"function\":\x7b\"name\":\"ping\"\x7d\x7d]\x7d," ++
    "\x7b\"role\":\"tool\",\"tool_call_id\":\"c1\",\"content\":\"pong\"\x7d]\x7d")

end Trials

end MikroLLM.Codex
