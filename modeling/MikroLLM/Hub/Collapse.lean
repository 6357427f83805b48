import Mathlib.Data.List.ReduceOption
import MikroLLM.Hub.Merging

/-!
# Two ways to send a completion

A completion is sent as one JSON object or as an event stream, whose chunks carry
the texts in pieces and the calls in fragments. `CollapseChat` gives the completion
back from both, under conditions on what was sent.
-/

namespace MikroLLM.Hub

open Go Library

/-- How a text is given: left out, as null, or as a string. -/
inductive Given
  | absent
  | null
  | literal (inner : Bytes)

namespace Given

/-- The values under the name. -/
def values : Given → List Doc
  | absent => []
  | null => [.null]
  | literal inner => [.string inner]

def text : Given → String
  | absent | null => ""
  | literal inner => unquote inner

end Given

/-- A call, or a part of one. -/
structure Fragment where
  index : Option ℤ
  id : Given
  type : Given
  name : Given
  arguments : Given

/-- What a choice says. -/
structure Piece where
  content : Given
  reasoning : Given
  reasoningContent : Given
  finishReason : Given
  fragments : List Fragment

/-- What a completion or a chunk of one says. -/
structure Part where
  id : Given
  model : Given
  usage : Option Doc
  piece : Option Piece

/-- An object that may be left out. -/
inductive GivesObject : List Doc → List (Bytes × Doc) → Prop
  | absent : GivesObject [] []
  | object (members : List (Bytes × Doc)) : GivesObject [.object members] members

inductive GivesIndex : List Doc → Option ℤ → Prop
  | absent : GivesIndex [] none
  | null : GivesIndex [.null] none
  | number {literal : Bytes} {index : ℤ} (reads : integerOf literal = some index) :
      GivesIndex [.number literal] (some index)

/-- The members of a call in the format of completions, with any others. -/
structure WritesFragment (members function : List (Bytes × Doc)) (fragment : Fragment) : Prop where
  index : GivesIndex (valuesOf members "index") fragment.index
  id : valuesOf members "id" = fragment.id.values
  type : valuesOf members "type" = fragment.type.values
  inFunction : GivesObject (valuesOf members "function") function
  name : valuesOf function "name" = fragment.name.values
  arguments : valuesOf function "arguments" = fragment.arguments.values

inductive GivesFragments : List Doc → List Fragment → Prop
  | absent : GivesFragments [] []
  | null : GivesFragments [.null] []
  | array {docs : List Doc} {fragments : List Fragment}
      (each : List.Forall₂ (fun doc fragment => ∃ members function, doc = .object members ∧
        WritesFragment members function fragment) docs fragments) :
      GivesFragments [.array docs] fragments

/-- Where a choice has its texts: a completion in its message, a chunk in its delta. -/
inductive Form
  | message
  | delta

namespace Form

def name : Form → String
  | message => "message"
  | delta => "delta"

def other : Form → String
  | message => "delta"
  | delta => "message"

end Form

structure WritesPiece (form : Form) (choice message : List (Bytes × Doc)) (piece : Piece) :
    Prop where
  finishReason : valuesOf choice "finish_reason" = piece.finishReason.values
  noOther : valuesOf choice form.other = []
  inMessage : GivesObject (valuesOf choice form.name) message
  content : valuesOf message "content" = piece.content.values
  reasoning : valuesOf message "reasoning" = piece.reasoning.values
  reasoningContent : valuesOf message "reasoning_content" = piece.reasoningContent.values
  calls : GivesFragments (valuesOf message "tool_calls") piece.fragments

inductive GivesPiece (form : Form) : List Doc → Option Piece → Prop
  | absent : GivesPiece form [] none
  | empty : GivesPiece form [.array []] none
  | choice {choice message : List (Bytes × Doc)} {piece : Piece}
      (writes : WritesPiece form choice message piece) :
      GivesPiece form [.array [.object choice]] (some piece)

/-- The document says the part. -/
structure WritesPart (form : Form) (members : List (Bytes × Doc)) (part : Part) : Prop where
  id : valuesOf members "id" = part.id.values
  model : valuesOf members "model" = part.model.values
  usage : valuesOf members "usage" = part.usage.toList
  choices : GivesPiece form (valuesOf members "choices") part.piece

/-- The text is such a document. -/
def Tells (form : Form) (text : Bytes) (part : Part) : Prop :=
  ∃ members, parseDoc maxNestingDepth text = some (.object members) ∧ WritesPart form members part

namespace Part

def content (part : Part) : String :=
  (part.piece.map fun piece => piece.content.text).getD ""

def reasoning (part : Part) : String :=
  (part.piece.map fun piece => piece.reasoning.text ++ piece.reasoningContent.text).getD ""

def finishReason (part : Part) : String :=
  (part.piece.map fun piece => piece.finishReason.text).getD ""

def fragments (part : Part) : List Fragment :=
  (part.piece.map fun piece => piece.fragments).getD []

end Part

/-- A completion whose calls can be told apart by their indexes. -/
structure Completion extends Chat where
  usageSaid : usage ≠ some .null
  indexes : (calls.map ToolCall.index).Nodup
  inRange : ∀ call ∈ calls, -2 ^ 63 ≤ call.index ∧ call.index < 2 ^ 63

/-- The fragment is the call, with its index or without. -/
structure Fragment.Is (fragment : Fragment) (call : ToolCall) : Prop where
  index : fragment.index = none ∨ fragment.index = some call.index
  id : fragment.id.text = call.id
  type : fragment.type.text = call.type
  name : fragment.name.text = call.function.name
  arguments : fragment.arguments.text = call.function.arguments

/-- The completion as one JSON object. -/
structure PlainBody (completion : Completion) where
  text : Bytes
  part : Part
  tells : Tells .message text part
  isChoice : part.piece.isSome
  id : part.id.text = completion.id
  model : part.model.text = completion.model
  usage : usageOf part.usage = completion.usage
  content : part.content = completion.content
  reasoning : part.reasoning = completion.reasoning
  finishReason : part.finishReason = completion.finishReason
  calls : List.Forall₂ Fragment.Is part.fragments completion.calls

/-- The fragments are the call: id, type and name come whole, the arguments in pieces. -/
structure Assembles (fragments : List Fragment) (call : ToolCall) : Prop where
  notEmpty : fragments ≠ []
  id : ArrivesWhole "" call.id (fragments.map fun fragment => fragment.id.text)
  type : ArrivesWhole "" call.type (fragments.map fun fragment => fragment.type.text)
  name : ArrivesWhole "" call.function.name (fragments.map fun fragment => fragment.name.text)
  arguments : String.join (fragments.map fun fragment => fragment.arguments.text) =
    call.function.arguments

/-- A line of an event stream, and the part that it says if it is a chunk. -/
inductive StreamLine : Bytes → Option Part → Prop
  | other {line : Bytes} (noData : ¬dataField <+: trimBytes line) : StreamLine line none
  | blank {payload : Bytes} (blanks : Blanks payload) : StreamLine (dataField ++ payload) none
  | done {payload : Bytes} (within : Within payload (bytesOf "[DONE]")) :
      StreamLine (dataField ++ payload) none
  | chunk {payload : Bytes} {part : Part} (tells : Tells .delta payload part) :
      StreamLine (dataField ++ payload) (some part)

/-- The completion as an event stream. -/
structure StreamBody (completion : Completion) where
  text : Bytes
  events : List (Option Part)
  lines : List.Forall₂ StreamLine (text.splitOn 0x0a) events
  isChoice : ∃ part ∈ events.reduceOption, part.piece.isSome
  id : ArrivesWhole "" completion.id (events.reduceOption.map fun part => part.id.text)
  model : ArrivesWhole "" completion.model (events.reduceOption.map fun part => part.model.text)
  usage : events.reduceOption.filterMap (fun part => usageOf part.usage) = completion.usage.toList
  content : String.join (events.reduceOption.map Part.content) = completion.content
  reasoning : String.join (events.reduceOption.map Part.reasoning) = completion.reasoning
  finishReason : ArrivesWhole "" completion.finishReason
    (events.reduceOption.map Part.finishReason)
  belongs : ∀ fragment ∈ events.reduceOption.flatMap Part.fragments,
    ∃ call ∈ completion.calls, fragment.index = some call.index
  calls : ∀ call ∈ completion.calls, Assembles
    ((events.reduceOption.flatMap Part.fragments).filter fun fragment =>
      fragment.index = some call.index) call

section Decoding

variable {form : Form} {members inner : List (Bytes × Doc)} {name : String} {given : Given}
  {fragment : Fragment} {fragments : List Fragment} {piece : Piece} {part : Part}

/-- The text in a variable of type `any`. -/
def Given.json : Given → Json
  | absent | null => .null
  | literal inner => .string (unquote inner)

def Given.pointer : Given → Option String
  | absent | null => none
  | literal inner => some (unquote inner)

def Fragment.raw (fragment : Fragment) : ToolCallRaw where
  id := fragment.id.text
  index := fragment.index
  type := fragment.type.text
  function := { name := fragment.name.text, arguments := fragment.arguments.values.head? }

def Piece.sent (piece : Piece) : Message where
  content := piece.content.json
  reasoning := piece.reasoning.json
  reasoningContent := piece.reasoningContent.json
  toolCalls := { items := piece.fragments.map Fragment.raw }

def Piece.choice (form : Form) (piece : Piece) : Choice :=
  match form with
  | .message => { finishReason := piece.finishReason.pointer, message := piece.sent }
  | .delta => { finishReason := piece.finishReason.pointer, delta := piece.sent }

def Part.chunk (form : Form) (part : Part) : Chunk where
  id := part.id.text
  model := part.model.text
  usage := part.usage
  choices := { items := (part.piece.map (Piece.choice form)).toList }

theorem storeString_given (values : valuesOf members name = given.values) :
    storeField storeString members name "" = some given.text := by
  cases given with
  | absent => exact storeField_absent values
  | null => exact storeField_once values
  | literal inner => exact storeField_once values

theorem storeAny_given (values : valuesOf members name = given.values) :
    storeField storeAny members name .null = some given.json := by
  cases given with
  | absent => exact storeField_absent values
  | null => exact storeField_once values
  | literal inner => exact storeField_once values

theorem storePointer_given (values : valuesOf members name = given.values) :
    storeField (storePointer "" storeString) members name none = some given.pointer := by
  cases given with
  | absent => exact storeField_absent values
  | null => exact storeField_once values
  | literal inner => exact storeField_once values

theorem storeRaw_given (values : valuesOf members name = given.values) :
    storeField storeRaw members name none = some given.values.head? := by
  cases given with
  | absent => exact storeField_absent values
  | null => exact storeField_once values
  | literal inner => exact storeField_once values

/-- An object that is left out is an empty one. -/
theorem storeField_object {α : Type} {store : Store α} {zero : α}
    (object : GivesObject (valuesOf members name) inner)
    (empty : store (.object []) zero = some zero) :
    storeField store members name zero = store (.object inner) zero := by
  generalize values : valuesOf members name = docs at object
  cases object with
  | absent => rw [storeField_absent values, empty]
  | object inner => exact storeField_once values

theorem storeIndex_gives {index : Option ℤ} (gives : GivesIndex (valuesOf members name) index) :
    storeField (storePointer 0 storeInt) members name none = some index := by
  generalize values : valuesOf members name = docs at gives
  cases gives with
  | absent => exact storeField_absent values
  | null => exact storeField_once values
  | number reads =>
      rw [storeField_once values, storePointer, storeInt, reads]
      · rfl
      · rintro ⟨⟩

theorem storeCall_fragment (writes : WritesFragment members inner fragment) :
    storeCall (.object members) {} = some fragment.raw := by
  have function : storeFunction (.object inner) {} =
      some { name := fragment.name.text, arguments := fragment.arguments.values.head? } := by
    rw [storeFunction, storeStruct, storeString_given writes.name, storeRaw_given writes.arguments]
    rfl
  rw [storeCall, storeStruct, storeString_given writes.id, storeIndex_gives writes.index,
    storeString_given writes.type, storeField_object writes.inFunction rfl, function]
  rfl

theorem storeCalls_fragments (gives : GivesFragments (valuesOf members name) fragments) :
    storeField (storeItems {} storeCall) members name {} =
      some { items := fragments.map Fragment.raw } := by
  generalize values : valuesOf members name = docs at gives
  cases gives with
  | absent => exact storeField_absent values
  | null => exact storeField_once values
  | @array docs _ each =>
      have stored : storeEach {} storeCall docs [] = some (fragments.map Fragment.raw) := by
        clear values
        induction each with
        | nil => rfl
        | @cons doc fragment docs fragments writes _ ih =>
            rcases writes with ⟨members, function, rfl, writes⟩
            rw [storeEach, List.headD_nil, storeCall_fragment writes, List.tail_nil, ih]
            rfl
      rw [storeField_once values, storeItems_array, stored, Option.map_some]

theorem storeMessage_piece {choice : List (Bytes × Doc)}
    (writes : WritesPiece form choice inner piece) :
    storeMessage (.object inner) {} = some piece.sent := by
  rw [storeMessage, storeStruct, storeAny_given writes.content, storeAny_given writes.reasoning,
    storeAny_given writes.reasoningContent, storeCalls_fragments writes.calls]
  rfl

theorem storeChoice_piece {choice : List (Bytes × Doc)}
    (writes : WritesPiece form choice inner piece) :
    storeChoice (.object choice) {} = some (piece.choice form) := by
  have here : storeField storeMessage choice form.name {} = storeMessage (.object inner) {} :=
    storeField_object writes.inMessage rfl
  have other : storeField storeMessage choice form.other {} = some {} :=
    storeField_absent writes.noOther
  rw [storeMessage_piece writes] at here
  rw [storeChoice, storeStruct, storePointer_given writes.finishReason]
  cases form with
  | message =>
      rw [Form.name] at here
      rw [Form.other] at other
      rw [here, other]
      rfl
  | delta =>
      rw [Form.name] at here
      rw [Form.other] at other
      rw [here, other]
      rfl

theorem storeChunk_part (writes : WritesPart form members part) :
    storeChunk (.object members) {} = some (part.chunk form) := by
  have usage : storeField storeRaw members "usage" none = some part.usage := by
    have values := writes.usage
    cases isUsage : part.usage with
    | none =>
        rw [isUsage] at values
        exact storeField_absent values
    | some doc =>
        rw [isUsage] at values
        exact storeField_once values
  have choices : storeField (storeItems {} storeChoice) members "choices" {} =
      some { items := (part.piece.map (Piece.choice form)).toList } := by
    have gives := writes.choices
    generalize values : valuesOf members "choices" = docs at gives
    generalize part.piece = piece at gives
    cases gives with
    | absent => exact storeField_absent values
    | empty => exact storeField_once values
    | choice writesPiece =>
        rw [storeField_once values, storeItems_array, storeEach, List.headD_nil,
          storeChoice_piece writesPiece]
        rfl
  rw [storeChunk, storeStruct, storeString_given writes.id, storeString_given writes.model, usage,
    choices]
  rfl

/-- A part that is told is added. -/
theorem mergeChunk_of_tells {text : Bytes} (tells : Tells form text part) (result : ChatResult) :
    result.mergeChunk text = result.add (part.chunk form) := by
  rcases tells with ⟨members, parses, writes⟩
  rw [ChatResult.mergeChunk, parses, Option.bind_some, storeChunk_part writes]

/-- What a chunk gives is what the part says. -/
theorem chunk_texts (form : Form) (part : Part) :
    (part.chunk form).content = part.content ∧ (part.chunk form).reasoning = part.reasoning ∧
      (part.chunk form).finishReason = part.finishReason ∧
      (part.chunk form).calls = part.fragments.map Fragment.raw := by
  have any : ∀ given : Given, anyText given.json = given.text := by
    intro given
    cases given <;> rfl
  have pointer : ∀ given : Given, given.pointer.getD "" = given.text := by
    intro given
    cases given <;> rfl
  have nothing : anyText .null = "" := rfl
  cases isPiece : part.piece with
  | none =>
      simp [Part.chunk, isPiece, Chunk.content, Chunk.reasoning, Chunk.finishReason, Chunk.calls,
        Part.content, Part.reasoning, Part.finishReason, Part.fragments]
  | some piece =>
      cases form <;>
        simp [Part.chunk, isPiece, Chunk.content, Chunk.reasoning, Chunk.finishReason, Chunk.calls,
          Part.content, Part.reasoning, Part.finishReason, Part.fragments, Piece.choice, Piece.sent,
          any, pointer, nothing]

/-- The usage that a part has room for in another object. -/
theorem readable_usage {text : Bytes} (tells : Tells form text part) {usage : Doc}
    (isUsage : part.usage = some usage) : Readable (maxNestingDepth - 1) usage := by
  rcases tells with ⟨members, parses, writes⟩
  have listed : usage ∈ valuesOf members "usage" := by
    rw [writes.usage, isUsage]
    exact List.mem_singleton_self usage
  rcases List.mem_map.mp listed with ⟨member, inside, rfl⟩
  have readable := readable_of_parseDoc parses
  rw [maxNestingDepth] at readable
  cases readable with
  | object _ values => exact values member (List.mem_of_mem_filter inside)

end Decoding

section Bodies

open ChatResult

variable {form : Form} {part : Part} {text : Bytes}

/-- The result of merging parts is found when one of them has a choice. -/
def mergedParts (form : Form) (parts : List Part) : ChatResult :=
  (parts.map (Part.chunk form)).foldl ChatResult.add {}

theorem parseChat_plain (tells : Tells .message text part) :
    parseChat text = mergedParts .message [part] := by
  rcases tells with ⟨members, parses, writes⟩
  rcases parseDoc_trimBytes parses with ⟨trimmed, tight⟩
  have notEmpty : trimBytes text ≠ [] := by
    rcases tight with ⟨_, _, _, _, begins, _⟩
    simp [begins]
  have valid : validJSON (trimBytes text) = true := by
    rw [validJSON, trimmed]
    rfl
  have noData : ¬dataField <+: trimBytes text := by
    rintro ⟨rest, same⟩
    have field : dataField = 0x64 :: bytesOf "ata:" := by decide
    rw [← same, field, List.cons_append, parseDoc, run_cons] at trimmed
    cases trimmed
  rw [parseChat]
  simp only [notEmpty, valid, noData, if_false, not_false_eq_true, and_self, if_true]
  exact mergeChunk_of_tells ⟨members, trimmed, writes⟩ {}

theorem mergeLine_of_streamLine {line : Bytes} {event : Option Part}
    (isLine : StreamLine line event) (result : ChatResult) :
    result.mergeLine line =
      (event.toList.map (Part.chunk .delta)).foldl ChatResult.add result := by
  have field : ∀ payload : Bytes, (trimBytes (dataField ++ payload)).drop 5 = trimBack payload := by
    intro payload
    have size : dataField.length = 5 := by decide
    rw [trimBytes_dataLine, List.drop_left' size]
  have isData : ∀ payload : Bytes, dataField <+: trimBytes (dataField ++ payload) := by
    intro payload
    rw [trimBytes_dataLine]
    exact List.prefix_append _ _
  cases isLine with
  | other noData => simp [mergeLine, noData]
  | @blank payload blanks =>
      have nothing : trimBytes [] = [] := by decide
      simp [mergeLine, isData, field, trimBack_of_blanks blanks, nothing]
  | @done payload within =>
      have tight : TightText (bytesOf "[DONE]") :=
        ⟨0x5b, bytesOf "DONE]", bytesOf "[DONE", 0x5d, by decide, by decide,
          by decide, by decide⟩
      simp [mergeLine, isData, field, trimBytes_payload tight within]
  | @chunk payload part tells =>
      rcases tells with ⟨members, parses, writes⟩
      rcases within_of_parseDoc parses with ⟨core, within, tight, parsesCore⟩
      have notEmpty : core ≠ [] := by
        rcases tight with ⟨_, _, _, _, begins, _⟩
        simp [begins]
      have notDone : core ≠ bytesOf "[DONE]" := by
        rintro rfl
        have stops : (parseDoc maxNestingDepth (bytesOf "[DONE]")).isSome = false := by
          decide
        rw [parsesCore] at stops
        exact nomatch stops
      rw [mergeLine, if_neg (not_not_intro (isData payload)), field,
        trimBytes_payload tight within, if_neg (not_or_intro notDone notEmpty)]
      exact mergeChunk_of_tells ⟨members, parsesCore, writes⟩ result

/-- A chunk stands in a line. -/
theorem line_of_chunk {lines : List Bytes} {events : List (Option Part)}
    (each : List.Forall₂ StreamLine lines events) (listed : some part ∈ events) :
    ∃ payload, dataField ++ payload ∈ lines ∧ Tells .delta payload part := by
  induction each with
  | nil => cases listed
  | @cons line event lines events isLine _ ih =>
      rcases List.mem_cons.mp listed with rfl | later
      · cases isLine with
        | chunk tells => exact ⟨_, List.mem_cons_self, tells⟩
      · rcases ih later with ⟨payload, inside, tells⟩
        exact ⟨payload, List.mem_cons_of_mem _ inside, tells⟩

theorem parseChat_stream {events : List (Option Part)}
    (lines : List.Forall₂ StreamLine (text.splitOn 0x0a) events) (listed : some part ∈ events) :
    parseChat text = mergedParts .delta events.reduceOption := by
  have merges : ∀ (lines : List Bytes) (events : List (Option Part)) (result : ChatResult),
      List.Forall₂ StreamLine lines events → lines.foldl mergeLine result =
        (events.reduceOption.map (Part.chunk .delta)).foldl ChatResult.add result := by
    intro lines events result each
    induction each generalizing result with
    | nil => rfl
    | @cons line event lines events isLine _ ih =>
        rw [List.foldl_cons, ih, mergeLine_of_streamLine isLine]
        cases event with
        | none => rfl
        | some part => rfl
  rcases line_of_chunk lines listed with ⟨payload, inLines, _⟩
  have noDocument : trimBytes text ≠ [] ∧ parseDoc maxNestingDepth (trimBytes text) = none :=
    parseDoc_of_dataLine inLines (List.prefix_append _ _)
  have notValid : validJSON (trimBytes text) = false := by
    rw [validJSON, noDocument.2]
    rfl
  rw [parseChat]
  simp only [noDocument.1, notValid, Bool.false_eq_true, false_and, if_false]
  exact merges _ _ {} lines

end Bodies

section Calls

variable {fragments : List Fragment} {call : ToolCall} {calls : List ToolCall}

/-- The index that `mergeCalls` takes for a fragment. -/
def Fragment.idx (fragment : Fragment) : ℤ :=
  fragment.index.getD 0

def Given.isNull : Given → Bool
  | null => true
  | _ => false

/-- No fragment has null as its arguments. -/
def NoNullArguments (fragments : List Fragment) : Prop :=
  ∀ fragment ∈ fragments, fragment.arguments.isNull = false

/-- How the name of a call grows. -/
def mergeName (held name : String) : String :=
  if name = "" then held
  else if held = "" then name
  else if name ≠ held then held ++ name
  else held

theorem foldl_merge (raws : List ToolCallRaw) (call : ToolCall) : raws.foldl ToolCall.merge call =
    { id := (raws.map ToolCallRaw.id).foldl keepLast call.id
      index := call.index
      type := (raws.map ToolCallRaw.type).foldl keepLast call.type
      function :=
        { name := (raws.map fun raw => raw.function.name).foldl mergeName call.function.name
          arguments := (raws.map ToolCallRaw.arguments).foldl (· ++ ·) call.function.arguments } } := by
  induction raws generalizing call with
  | nil => rfl
  | cons raw rest ih =>
      rw [List.foldl_cons, ih]
      rfl

/-- The call that was gathered from fragments. -/
def gatheredCall (fragments : List Fragment) (index : ℤ) : ToolCall :=
  gathered ToolCallRaw.idx freshCall ToolCall.merge (fragments.map Fragment.raw) index

theorem gatheredCall_eq (fragments : List Fragment) (index : ℤ) :
    gatheredCall fragments index =
      let mine := fragments.filter fun fragment => fragment.idx = index
      { id := (mine.map fun fragment => fragment.id.text).foldl keepLast ""
        index := index
        type := (mine.map fun fragment => fragment.type.text).foldl keepLast ""
        function :=
          { name := (mine.map fun fragment => fragment.name.text).foldl mergeName ""
            arguments := String.join (mine.map fun fragment => fragment.raw.arguments) } } := by
  rw [gatheredCall, gathered, List.filter_map, foldl_merge]
  simp only [List.map_map]
  rfl

theorem keepLast_arrives {whole : String} {texts : List String}
    (arrives : ArrivesWhole "" whole texts) : texts.foldl keepLast "" = whole := by
  apply foldl_of_arrivesWhole _ _ _ arrives <;> grind [keepLast]

theorem keepFirst_arrives {whole : String} {texts : List String}
    (arrives : ArrivesWhole "" whole texts) : texts.foldl keepFirst "" = whole := by
  apply foldl_of_arrivesWhole _ _ _ arrives <;> grind [keepFirst]

theorem mergeName_arrives {whole : String} {texts : List String}
    (arrives : ArrivesWhole "" whole texts) : texts.foldl mergeName "" = whole := by
  apply foldl_of_arrivesWhole _ _ _ arrives <;> grind [mergeName]

theorem arguments_raw (fragment : Fragment) : fragment.raw.arguments =
    if fragment.arguments.isNull then decodeText (Doc.print .null) else fragment.arguments.text := by
  rw [ToolCallRaw.arguments, Fragment.raw]
  cases fragment.arguments <;> rfl

/-- Each null among the arguments brings four characters. -/
theorem length_arguments (fragments : List Fragment) :
    (String.join (fragments.map fun fragment => fragment.raw.arguments)).length =
      (String.join (fragments.map fun fragment => fragment.arguments.text)).length +
        4 * (fragments.filter fun fragment => fragment.arguments.isNull).length := by
  have printed : (decodeText (Doc.print .null)).length = 4 := by decide
  induction fragments with
  | nil => rfl
  | cons fragment rest ih =>
      rw [List.map_cons, List.map_cons, String.join_cons, String.join_cons, String.length_append,
        String.length_append, ih, List.filter_cons, arguments_raw]
      split
      · rename_i isNull
        have noText : fragment.arguments.text.length = 0 := by
          revert isNull
          cases fragment.arguments <;> simp [Given.isNull, Given.text]
        rw [List.length_cons]
        omega
      · omega

theorem join_arguments_iff : String.join (fragments.map fun fragment => fragment.raw.arguments) =
    String.join (fragments.map fun fragment => fragment.arguments.text) ↔
      NoNullArguments fragments := by
  constructor
  · intro same
    have lengths := length_arguments fragments
    rw [same] at lengths
    have none : (fragments.filter fun fragment => fragment.arguments.isNull) = [] :=
      List.length_eq_zero_iff.mp (by omega)
    intro fragment inside
    simpa using List.filter_eq_nil_iff.mp none fragment inside
  · intro noNull
    congr 1
    apply List.map_congr_left
    intro fragment inside
    have notNull := noNull fragment inside
    rw [arguments_raw, if_neg (by simp [notNull])]

/-- Fragments that are a call make the call, unless null stands among its arguments. -/
theorem gatheredCall_iff
    (assembles : Assembles (fragments.filter fun fragment => fragment.idx = call.index) call) :
    gatheredCall fragments call.index = call ↔
      NoNullArguments (fragments.filter fun fragment => fragment.idx = call.index) := by
  rw [← join_arguments_iff, assembles.arguments, gatheredCall_eq]
  simp only [keepLast_arrives assembles.id, keepLast_arrives assembles.type,
    mergeName_arrives assembles.name]
  rcases call with ⟨id, index, type, name, arguments⟩
  simp

/-- The calls come back when their indexes come up in their order, and no arguments are null. -/
theorem gatheredCalls_iff
    (assembles : (fragments.map Fragment.idx).eraseDups = calls.map ToolCall.index →
      ∀ call ∈ calls, Assembles (fragments.filter fun fragment => fragment.idx = call.index) call) :
    (fragments.map Fragment.idx).eraseDups.map (gatheredCall fragments) = calls ↔
      (fragments.map Fragment.idx).eraseDups = calls.map ToolCall.index ∧
        NoNullArguments fragments := by
  have index : ∀ index, (gatheredCall fragments index).index = index := by
    intro index
    rw [gatheredCall_eq]
  constructor
  · intro same
    have inOrder : (fragments.map Fragment.idx).eraseDups = calls.map ToolCall.index := by
      rw [← same, List.map_map]
      simp [Function.comp_def, index]
    refine ⟨inOrder, ?_⟩
    rw [inOrder, List.map_map] at same
    have each := List.map_inj_left.mp (same.trans (List.map_id calls).symm)
    intro fragment inside
    have isIndex : fragment.idx ∈ calls.map ToolCall.index := by
      rw [← inOrder, List.mem_eraseDups]
      exact List.mem_map_of_mem inside
    rcases List.mem_map.mp isIndex with ⟨call, isCall, ofCall⟩
    have noNull := (gatheredCall_iff (assembles inOrder call isCall)).mp (each call isCall)
    apply noNull
    rw [List.mem_filter]
    exact ⟨inside, by simp [ofCall]⟩
  · rintro ⟨inOrder, noNull⟩
    rw [inOrder, List.map_map]
    calc calls.map (gatheredCall fragments ∘ ToolCall.index) = calls.map id := by
          apply List.map_congr_left
          intro call isCall
          apply (gatheredCall_iff (assembles inOrder call isCall)).mpr
          exact fun fragment inside => noNull fragment (List.mem_of_mem_filter inside)
      _ = calls := List.map_id calls

end Calls

section Parts

variable {form : Form} {parts : List Part} {text : Bytes} {usage : Option Json} {docs : List Doc}

/-- What the parts say together. -/
theorem mergedParts_spec (form : Form) (parts : List Part) :
    (mergedParts form parts).chat =
      { id := (parts.map fun part => part.id.text).foldl keepFirst ""
        model := (parts.map fun part => part.model.text).foldl keepFirst ""
        content := String.join (parts.map Part.content)
        reasoning := String.join (parts.map Part.reasoning)
        finishReason := (parts.map Part.finishReason).foldl keepLast ""
        usage := usageOf (parts.filterMap Part.usage).getLast?
        calls := ((parts.flatMap Part.fragments).map Fragment.idx).eraseDups.map
          (gatheredCall (parts.flatMap Part.fragments)) } ∧
      (mergedParts form parts).usage = (parts.filterMap Part.usage).getLast? ∧
      (mergedParts form parts).found = parts.any fun part => part.piece.isSome := by
  have merged : (mergedParts form parts).Merged (parts.map (Part.chunk form)) :=
    merged_nil.foldl (parts.map (Part.chunk form))
  have texts : ∀ (ofChunk : Chunk → String) (ofPart : Part → String),
      (∀ part : Part, ofChunk (part.chunk form) = ofPart part) →
        (parts.map (Part.chunk form)).map ofChunk = parts.map ofPart := by
    intro ofChunk ofPart same
    rw [List.map_map]
    exact List.map_congr_left fun part _ => same part
  have sameCalls : ∀ part : Part, (part.chunk form).calls = part.fragments.map Fragment.raw :=
    fun part => (chunk_texts form part).2.2.2
  have raws : (parts.map (Part.chunk form)).flatMap Chunk.calls =
      (parts.flatMap Part.fragments).map Fragment.raw := by
    simp [List.flatMap_map, List.map_flatMap, sameCalls]
  have usages : (parts.map (Part.chunk form)).filterMap Chunk.usage =
      parts.filterMap Part.usage := by
    rw [List.filterMap_map]
    rfl
  have calls := merged.calls.slots
  rw [raws, List.map_map] at calls
  have usage := merged.usage
  rw [usages] at usage
  refine ⟨?_, usage, ?_⟩
  · rw [ChatResult.chat, Chat.mk.injEq]
    refine ⟨?_, ?_, ?_, ?_, ?_, congrArg usageOf usage, calls⟩
    · rw [merged.id, texts Chunk.id (fun part => part.id.text) fun _ => rfl]
    · rw [merged.model, texts Chunk.model (fun part => part.model.text) fun _ => rfl]
    · rw [merged.content, texts _ _ fun part => (chunk_texts form part).1]
    · rw [merged.reasoning, texts _ _ fun part => (chunk_texts form part).2.1]
    · rw [merged.finishReason, texts _ _ fun part => (chunk_texts form part).2.2.1]
  · have found := merged.found
    rw [List.any_map] at found
    rw [found]
    congr 1
    funext part
    rw [Function.comp_apply, Part.chunk]
    cases part.piece <;> rfl

/-- A client reads what the parts say together. -/
theorem readChat_parts (parses : parseChat text = mergedParts form parts)
    (isChoice : ∃ part ∈ parts, part.piece.isSome)
    (room : ∀ part ∈ parts, ∀ usage, part.usage = some usage →
      Readable (maxNestingDepth - 1) usage)
    (inRange : ∀ fragment ∈ parts.flatMap Part.fragments,
      -2 ^ 63 ≤ fragment.idx ∧ fragment.idx < 2 ^ 63) :
    readChat (collapseChat text) = some (mergedParts form parts).chat := by
  rcases mergedParts_spec form parts with ⟨chat, usage, found⟩
  have isFound : (mergedParts form parts).found = true := by
    rw [found, List.any_eq_true]
    exact isChoice
  rw [collapseChat, parses]
  simp only [isFound, if_true]
  apply readChat_doc
  · intro call isCall
    have calls := congrArg Chat.calls chat
    rw [ChatResult.chat] at calls
    simp only at calls
    rw [calls] at isCall
    rcases List.mem_map.mp isCall with ⟨index, isIndex, rfl⟩
    rw [List.mem_eraseDups] at isIndex
    rcases List.mem_map.mp isIndex with ⟨fragment, inside, rfl⟩
    rw [gatheredCall_eq]
    exact inRange fragment inside
  · intro doc isUsage
    rw [usage] at isUsage
    rcases List.mem_filterMap.mp (List.mem_of_getLast? isUsage) with ⟨part, listed, isUsage⟩
    exact room part listed doc isUsage

/-- The last usage is the one that was said, unless a null comes after it. -/
theorem usageOf_getLast (said : docs.filterMap (fun doc => usageOf (some doc)) = usage.toList) :
    usageOf docs.getLast? = usage ↔ usage = none ∨ docs.getLast? ≠ some .null := by
  have value : ∀ doc, doc ≠ .null → usageOf (some doc) = some doc.value := by
    intro doc notNull
    cases doc with
    | null => exact absurd rfl notNull
    | _ => rfl
  cases isUsage : usage with
  | none =>
      simp only [true_or, iff_true]
      rw [isUsage, Option.toList_none, List.filterMap_eq_nil_iff] at said
      cases isLast : docs.getLast? with
      | none => rfl
      | some last => exact said last (List.mem_of_getLast? isLast)
  | some usage =>
      subst isUsage
      simp only [reduceCtorEq, false_or]
      constructor
      · intro same isNull
        rw [isNull] at same
        exact nomatch same
      · intro notNull
        cases isLast : docs.getLast? with
        | none =>
            rw [List.getLast?_eq_none_iff] at isLast
            rw [isLast] at said
            exact nomatch said
        | some last =>
            have lastValue := value last fun isNull => notNull (isNull ▸ isLast)
            have listed : last.value ∈ (some usage).toList := by
              rw [← said, List.mem_filterMap]
              exact ⟨last, List.mem_of_getLast? isLast, lastValue⟩
            rw [lastValue, List.mem_singleton.mp listed]

end Parts

section Sent

variable {completion : Completion}

/-- Only calls with index zero are without their index. -/
def PlainBody.Indexed (plain : PlainBody completion) : Prop :=
  List.Forall₂ (fun fragment call => fragment.index = none → call.index = 0) plain.part.fragments
    completion.calls

def StreamBody.parts (stream : StreamBody completion) : List Part :=
  stream.events.reduceOption

/-- The calls come up in their order. -/
def StreamBody.InOrder (stream : StreamBody completion) : Prop :=
  ((stream.parts.flatMap Part.fragments).map Fragment.idx).eraseDups =
    completion.calls.map ToolCall.index

/-- No null comes after the usage. -/
def StreamBody.KeepsUsage (stream : StreamBody completion) : Prop :=
  completion.usage = none ∨ (stream.parts.filterMap Part.usage).getLast? ≠ some .null

theorem indexed_iff {fragments : List Fragment} {calls : List ToolCall}
    (nodup : (calls.map ToolCall.index).Nodup) (are : List.Forall₂ Fragment.Is fragments calls) :
    (fragments.map Fragment.idx).eraseDups = calls.map ToolCall.index ↔
      List.Forall₂ (fun fragment call => fragment.index = none → call.index = 0) fragments calls := by
  have same : fragments.map Fragment.idx = calls.map ToolCall.index ↔
      List.Forall₂ (fun fragment call => fragment.index = none → call.index = 0) fragments calls := by
    clear nodup
    induction are with
    | nil => simp
    | @cons fragment call fragments calls is _ ih =>
        rw [List.map_cons, List.map_cons, List.cons.injEq, List.forall₂_cons, ih, Fragment.idx]
        apply and_congr_left
        intro _
        rcases is.index with missing | given
        · simp [missing, eq_comm]
        · simp [given]
  rw [← same]
  constructor
  · intro inOrder
    have lengths := congrArg List.length inOrder
    rw [List.length_map, ← are.length_eq] at lengths
    have fragmentsNodup := nodup_of_length_eraseDups (lengths.trans (List.length_map _).symm)
    rwa [eraseDups_of_nodup fragmentsNodup] at inOrder
  · intro inOrder
    rw [inOrder, eraseDups_of_nodup nodup]

theorem assembles_of_is {fragment : Fragment} {call : ToolCall} (is : fragment.Is call) :
    Assembles [fragment] call := by
  have whole : ∀ {text whole : String}, text = whole → ArrivesWhole "" whole [text] := by
    rintro text _ rfl
    exact arrivesWhole_singleton "" text
  refine ⟨by simp, whole is.id, whole is.type, whole is.name, ?_⟩
  simp [String.join_cons, is.arguments]

theorem assembles_of_are {fragments : List Fragment} {calls : List ToolCall}
    (nodup : (calls.map ToolCall.index).Nodup) (are : List.Forall₂ Fragment.Is fragments calls)
    (same : fragments.map Fragment.idx = calls.map ToolCall.index) :
    ∀ call ∈ calls, Assembles (fragments.filter fun fragment => fragment.idx = call.index) call := by
  induction are with
  | nil => simp
  | @cons fragment call fragments calls is _ ih =>
      rw [List.map_cons, List.nodup_cons] at nodup
      rw [List.map_cons, List.map_cons, List.cons.injEq] at same
      rw [List.forall_mem_cons]
      constructor
      · have noOther : fragments.filter (fun fragment => fragment.idx = call.index) = [] := by
          rw [List.filter_eq_nil_iff]
          intro other inside isIndex
          apply nodup.1
          rw [← same.2, ← of_decide_eq_true isIndex]
          exact List.mem_map_of_mem inside
        rw [List.filter_cons_of_pos (by simp [same.1]), noOther]
        exact assembles_of_is is
      · intro other inside
        have differs : ¬fragment.idx = other.index := by
          intro isIndex
          apply nodup.1
          rw [← same.1, isIndex]
          exact List.mem_map_of_mem inside
        rw [List.filter_cons_of_neg (by simp [differs])]
        exact ih nodup.2 same.2 other inside

theorem exists_of_are {fragments : List Fragment} {calls : List ToolCall}
    (are : List.Forall₂ Fragment.Is fragments calls) :
    ∀ fragment ∈ fragments, ∃ call ∈ calls, fragment.Is call := by
  induction are with
  | nil => simp
  | cons is _ ih =>
      rw [List.forall_mem_cons]
      refine ⟨⟨_, List.mem_cons_self, is⟩, ?_⟩
      intro fragment inside
      rcases ih fragment inside with ⟨call, isCall, is⟩
      exact ⟨call, List.mem_cons_of_mem _ isCall, is⟩

/-- The plain completion comes back exactly when its calls have their indexes and no arguments
are null. -/
theorem plain_iff (plain : PlainBody completion) :
    readChat (collapseChat plain.text) = some completion.toChat ↔
      plain.Indexed ∧ NoNullArguments plain.part.fragments := by
  have oneFragments : [plain.part].flatMap Part.fragments = plain.part.fragments := by simp
  have reads : readChat (collapseChat plain.text) =
      some (mergedParts .message [plain.part]).chat := by
    apply readChat_parts (parseChat_plain plain.tells)
    · exact ⟨plain.part, List.mem_singleton_self _, plain.isChoice⟩
    · intro part listed usage isUsage
      rw [List.mem_singleton.mp listed] at isUsage
      exact readable_usage plain.tells isUsage
    · rw [oneFragments]
      intro fragment inside
      rcases exists_of_are plain.calls fragment inside with ⟨call, isCall, is⟩
      rw [Fragment.idx]
      rcases is.index with missing | given
      · rw [missing, Option.getD_none]
        omega
      · rw [given, Option.getD_some]
        exact completion.inRange call isCall
  have inOrder := indexed_iff completion.indexes plain.calls
  have assembles : (plain.part.fragments.map Fragment.idx).eraseDups =
      completion.calls.map ToolCall.index → ∀ call ∈ completion.calls, Assembles
        (plain.part.fragments.filter fun fragment => fragment.idx = call.index) call := by
    intro same
    have lengths := congrArg List.length same
    rw [List.length_map, ← plain.calls.length_eq] at lengths
    have nodup := nodup_of_length_eraseDups (lengths.trans (List.length_map _).symm)
    rw [eraseDups_of_nodup nodup] at same
    exact assembles_of_are completion.indexes plain.calls same
  rw [reads, Option.some.injEq, (mergedParts_spec .message [plain.part]).1, PlainBody.Indexed,
    ← inOrder, ← gatheredCalls_iff assembles, oneFragments, Chat.ext_iff]
  have usage : ([plain.part].filterMap Part.usage).getLast? = plain.part.usage := by
    cases isUsage : plain.part.usage <;> simp [isUsage]
  have first : ∀ text, keepFirst "" text = text := by grind [keepFirst]
  have last : ∀ text, keepLast "" text = text := by grind [keepLast]
  simp [first, last, usage, plain.id, plain.model, plain.content, plain.reasoning,
    plain.finishReason, plain.usage]

/-- The streamed completion comes back exactly when its calls come up in order, without null as
arguments, and its usage is not followed by null. -/
theorem stream_iff (stream : StreamBody completion) :
    readChat (collapseChat stream.text) = some completion.toChat ↔
      stream.InOrder ∧ NoNullArguments (stream.parts.flatMap Part.fragments) ∧
        stream.KeepsUsage := by
  rcases stream.isChoice with ⟨chosen, isChosen, isChoice⟩
  have parses : parseChat stream.text = mergedParts .delta stream.parts :=
    parseChat_stream stream.lines (List.reduceOption_mem_iff.mp isChosen)
  have reads : readChat (collapseChat stream.text) =
      some (mergedParts .delta stream.parts).chat := by
    apply readChat_parts parses ⟨chosen, isChosen, isChoice⟩
    · intro part listed usage isUsage
      rcases line_of_chunk stream.lines (List.reduceOption_mem_iff.mp listed) with ⟨_, _, tells⟩
      exact readable_usage tells isUsage
    · intro fragment inside
      rcases stream.belongs fragment inside with ⟨call, isCall, index⟩
      rw [Fragment.idx, index, Option.getD_some]
      exact completion.inRange call isCall
  have assembles : ∀ call ∈ completion.calls, Assembles
      ((stream.parts.flatMap Part.fragments).filter fun fragment => fragment.idx = call.index)
        call := by
    intro call isCall
    have sameFilter : ((stream.parts.flatMap Part.fragments).filter fun fragment =>
        fragment.idx = call.index) = (stream.parts.flatMap Part.fragments).filter fun fragment =>
          fragment.index = some call.index := by
      apply List.filter_congr
      intro fragment inside
      rcases stream.belongs fragment inside with ⟨other, _, index⟩
      simp [Fragment.idx, index]
    rw [sameFilter]
    exact stream.calls call isCall
  have said : (stream.parts.filterMap Part.usage).filterMap (fun doc => usageOf (some doc)) =
      completion.usage.toList := by
    rw [← stream.usage, List.filterMap_filterMap]
    congr 1
    funext part
    cases part.usage <;> rfl
  rw [reads, Option.some.injEq, (mergedParts_spec .delta stream.parts).1, StreamBody.InOrder,
    StreamBody.KeepsUsage, ← usageOf_getLast said, ← and_assoc,
    ← gatheredCalls_iff fun _ => assembles, Chat.ext_iff]
  have id := keepFirst_arrives stream.id
  have model := keepFirst_arrives stream.model
  have finishReason := keepLast_arrives stream.finishReason
  simp only [StreamBody.parts, id, model, stream.content, stream.reasoning, finishReason, true_and]
  exact and_comm

end Sent

/-- Both ways give the completion back exactly when the object has an index with every call whose
index is not zero, the calls of the stream come up in their order, no null comes after its usage,
and no call has null as its arguments. -/
theorem collapses_iff (completion : Completion) (plain : PlainBody completion)
    (stream : StreamBody completion) :
    (readChat (collapseChat plain.text) = some completion.toChat ∧
        readChat (collapseChat stream.text) = some completion.toChat) ↔
      (plain.Indexed ∧ NoNullArguments plain.part.fragments) ∧
        stream.InOrder ∧ NoNullArguments (stream.parts.flatMap Part.fragments) ∧
          stream.KeepsUsage :=
  and_congr (plain_iff plain) (stream_iff stream)

section TwoCalls

/-- A call with its id and its name only, and its index perhaps. -/
def sentCall (index : Option ℤ) (id name : String) : List (Bytes × Doc) :=
  (bytesOf "id", .string (bytesOf id)) ::
    ((index.map fun index => (bytesOf "index", .number (intLiteral index))).toList ++
      [(bytesOf "function", .object [(bytesOf "name", .string (bytesOf name))])])

def sentFragment (index : Option ℤ) (id name : String) : Fragment where
  index := index
  id := .literal (bytesOf id)
  type := .absent
  name := .literal (bytesOf name)
  arguments := .absent

/-- A completion, or a chunk of one, with calls only. -/
def sentMembers (form : Form) (calls : List Doc) : List (Bytes × Doc) :=
  [(bytesOf "choices", .array [.object [(bytesOf form.name,
    .object [(bytesOf "tool_calls", .array calls)])]])]

def sentPart (fragments : List Fragment) : Part where
  id := .absent
  model := .absent
  usage := none
  piece := some ⟨.absent, .absent, .absent, .absent, fragments⟩

theorem writes_sentCall {index : Option ℤ}
    (inRange : ∀ number, index = some number → -2 ^ 63 ≤ number ∧ number < 2 ^ 63)
    (id name : String) :
    WritesFragment (sentCall index id name) [(bytesOf "name", .string (bytesOf name))]
      (sentFragment index id name) := by
  cases isIndex : index with
  | none =>
      constructor <;>
        simp (disch := decide) [sentCall, sentFragment, valuesOf_member, valuesOf_nil,
          Given.values, GivesIndex.absent, GivesObject.object]
  | some number =>
      rcases inRange number isIndex with ⟨low, high⟩
      have gives := GivesIndex.number (integerOf_intLiteral low high)
      constructor <;>
        simp (disch := decide) [sentCall, sentFragment, valuesOf_member, valuesOf_nil,
          Given.values, gives, GivesObject.object]

theorem readable_sentCall {room : ℕ} {id name : String} (smallId : SmallName id)
    (smallName : SmallName name) (index : Option ℤ) :
    Readable (room + 2) (.object (sentCall index id name)) := by
  have nameEntry : Entries room [(bytesOf "name", .string (bytesOf name))] :=
    entries_nil.cons "name" (by decide) (.string room (isInner_small smallName))
  have function := entries_nil.cons "function" (by decide) nameEntry.object
  have idDoc := Readable.string (room + 1) (isInner_small smallId)
  cases index with
  | none => exact (function.cons "id" (by decide) idDoc).object
  | some number =>
      have indexDoc := Readable.number (room + 1) (isNumber_intLiteral number)
      exact ((function.cons "index" (by decide) indexDoc).cons "id" (by decide) idDoc).object

theorem tells_sent {calls : List Doc} {fragments : List Fragment} (form : Form)
    (each : List.Forall₂ (fun doc fragment => ∃ members function, doc = .object members ∧
      WritesFragment members function fragment) calls fragments)
    (readable : ∀ call ∈ calls, Readable (maxNestingDepth - 5) call) :
    Tells form (Doc.object (sentMembers form calls)).print (sentPart fragments) := by
  have smallForm : SmallName form.name := by
    cases form <;> decide
  have smallOther : SmallName form.other := by
    cases form <;> decide
  have callsEntry := entries_nil.cons "tool_calls" (by decide) (.array readable)
  have choice := (entries_nil.cons form.name smallForm callsEntry.object).object
  have choices := Readable.array (List.forall_mem_singleton.mpr choice)
  have parses : parseDoc maxNestingDepth (Doc.object (sentMembers form calls)).print =
      some (.object (sentMembers form calls)) :=
    parseDoc_print (entries_nil.cons "choices" (by decide) choices).object
  refine ⟨sentMembers form calls, parses, ?_⟩
  have messageField : valuesOf [(bytesOf form.name, Doc.object [(bytesOf "tool_calls",
      .array calls)])] form.name = [.object [(bytesOf "tool_calls", .array calls)]] := by
    rw [valuesOf_member smallForm smallForm, if_pos rfl, valuesOf_nil]
  have otherField : valuesOf [(bytesOf form.name, Doc.object [(bytesOf "tool_calls",
      .array calls)])] form.other = [] := by
    rw [valuesOf_member smallOther smallForm, valuesOf_nil]
    cases form <;> rfl
  have finishField : valuesOf [(bytesOf form.name, Doc.object [(bytesOf "tool_calls",
      .array calls)])] "finish_reason" = [] := by
    rw [valuesOf_member (by decide) smallForm, valuesOf_nil]
    cases form <;> rfl
  have piece : WritesPiece form [(bytesOf form.name, .object [(bytesOf "tool_calls",
      .array calls)])] [(bytesOf "tool_calls", .array calls)]
      ⟨.absent, .absent, .absent, .absent, fragments⟩ := by
    refine ⟨finishField, otherField, ?_, ?_, ?_, ?_, ?_⟩
    · rw [messageField]
      exact .object _
    · simp (disch := decide) [valuesOf_member, valuesOf_nil, Given.values]
    · simp (disch := decide) [valuesOf_member, valuesOf_nil, Given.values]
    · simp (disch := decide) [valuesOf_member, valuesOf_nil, Given.values]
    · simpa (disch := decide) [valuesOf_member, valuesOf_nil] using GivesFragments.array each
  constructor
  · simp (disch := decide) [sentMembers, sentPart, valuesOf_member, valuesOf_nil, Given.values]
  · simp (disch := decide) [sentMembers, sentPart, valuesOf_member, valuesOf_nil, Given.values]
  · simp (disch := decide) [sentMembers, sentPart, valuesOf_member, valuesOf_nil]
  · simpa (disch := decide) [sentMembers, sentPart, valuesOf_member, valuesOf_nil] using
      GivesPiece.choice piece

/-- A completion with two calls. -/
def twoCalls : Completion where
  id := ""
  model := ""
  content := ""
  reasoning := ""
  finishReason := ""
  usage := none
  calls := [{ id := "a", index := 0, function := { name := "f" } },
    { id := "b", index := 1, function := { name := "g" } }]
  usageSaid := nofun
  indexes := by decide
  inRange := by decide

/-- The object without indexes. -/
def twoCallsPlain : PlainBody twoCalls where
  text := (Doc.object (sentMembers .message
    [.object (sentCall none "a" "f"), .object (sentCall none "b" "g")])).print
  part := sentPart [sentFragment none "a" "f", sentFragment none "b" "g"]
  tells := tells_sent .message
    (.cons ⟨_, _, rfl, writes_sentCall (by simp) "a" "f"⟩
      (.cons ⟨_, _, rfl, writes_sentCall (by simp) "b" "g"⟩ .nil))
    (by
      simp only [List.forall_mem_cons]
      exact ⟨readable_sentCall (by decide) (by decide) none,
        readable_sentCall (by decide) (by decide) none, nofun⟩)
  isChoice := rfl
  id := rfl
  model := rfl
  usage := rfl
  content := rfl
  reasoning := rfl
  finishReason := rfl
  calls := .cons ⟨Or.inl rfl, by decide, rfl, by decide, rfl⟩
    (.cons ⟨Or.inl rfl, by decide, rfl, by decide, rfl⟩ .nil)

/-- The stream, with both calls in one chunk. -/
def twoCallsStream : StreamBody twoCalls where
  text := dataField ++ (Doc.object (sentMembers .delta
    [.object (sentCall (some 0) "a" "f"), .object (sentCall (some 1) "b" "g")])).print
  events := [some (sentPart [sentFragment (some 0) "a" "f", sentFragment (some 1) "b" "g"])]
  lines := by
    rw [List.splitOn_eq_singleton (by decide)]
    refine .cons (.chunk ?_) .nil
    apply tells_sent .delta
    · exact .cons ⟨_, _, rfl, writes_sentCall (by simp) "a" "f"⟩
        (.cons ⟨_, _, rfl, writes_sentCall (by simp) "b" "g"⟩ .nil)
    · simp only [List.forall_mem_cons]
      exact ⟨readable_sentCall (by decide) (by decide) _,
        readable_sentCall (by decide) (by decide) _, nofun⟩
  isChoice := ⟨_, List.mem_singleton_self _, rfl⟩
  id := arrivesWhole_singleton "" ""
  model := arrivesWhole_singleton "" ""
  usage := rfl
  content := rfl
  reasoning := rfl
  finishReason := arrivesWhole_singleton "" ""
  belongs := by
    change ∀ fragment ∈ [sentFragment (some 0) "a" "f", sentFragment (some 1) "b" "g"], _
    simp [twoCalls, sentFragment]
  calls := by
    have first : (sentFragment (some 0) "a" "f").Is (twoCalls.calls.get ⟨0, by decide⟩) :=
      ⟨Or.inr rfl, by decide, rfl, by decide, rfl⟩
    have second : (sentFragment (some 1) "b" "g").Is (twoCalls.calls.get ⟨1, by decide⟩) :=
      ⟨Or.inr rfl, by decide, rfl, by decide, rfl⟩
    intro call isCall
    rcases List.mem_cons.mp isCall with rfl | later
    · exact assembles_of_is first
    · rw [List.mem_singleton.mp later]
      exact assembles_of_is second

/-- Without indexes the second call goes into the first. -/
theorem not_collapses : ¬ ∀ (completion : Completion) (plain : PlainBody completion)
    (stream : StreamBody completion),
    readChat (collapseChat plain.text) = some completion.toChat ∧
      readChat (collapseChat stream.text) = some completion.toChat := by
  intro claim
  have reads := (claim twoCalls twoCallsPlain twoCallsStream).1
  rcases ((plain_iff twoCallsPlain).mp reads).1 with _ | ⟨_, second⟩
  rcases second with _ | ⟨index, _⟩
  exact absurd (index rfl) (by decide)

end TwoCalls

end MikroLLM.Hub
