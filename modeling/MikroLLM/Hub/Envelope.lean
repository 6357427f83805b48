import MikroLLM.Go.Unmarshal

/-!
# The envelope of a relayed call

`remote` of the MCP proxy and `remote` of the A2A proxy put a call into an
envelope for the hub, its body as JSON where it is, as a JSON string otherwise.
The node that gets the job reads the envelope as an `MCPRelay`, and `Payload`
gives the body back.
-/

namespace MikroLLM.Hub

open Go Library

/-- A call that is relayed. -/
structure RelayedCall where
  method : Bytes
  sessionId : Bytes
  accept : Bytes
  protocolVersion : Bytes
  contentType : Bytes
  path : Bytes
  body : Bytes

/-- `safeHeader`, without a limit of zero. -/
def safeHeader (value : Bytes) (limit : ℕ) : Bytes :=
  let trimmed := trimBytes value
  if trimmed = [] ∨ 0x0d ∈ trimmed ∨ 0x0a ∈ trimmed ∨ limit < trimmed.length then [] else trimmed

/-- A member with a text. -/
def textMember (name : String) (text : Bytes) : Bytes × Doc :=
  (bytesOf name, .string (quote text))

/-- A member that is left out when its text is empty. -/
def textMemberOmit (name : String) (text : Bytes) : List (Bytes × Doc) :=
  if text = [] then [] else [textMember name text]

/-- `Marshal` of a `json.RawMessage`. -/
def marshalRaw (raw : Bytes) : Option Doc :=
  (parseDoc maxNestingDepth raw).map Doc.compact

/-- The field `Body` of `mcpEnvelope`. -/
def mcpBody (body : Bytes) : Bytes :=
  if body = [] ∨ validJSON body then body else (Doc.string (quote body)).print

/-- `Marshal` of an `mcpEnvelope`; none for its error. -/
def mcpEnvelope (call : RelayedCall) : Option Doc :=
  let raw := mcpBody call.body
  let members := textMember "method" call.method ::
    (textMemberOmit "session" (safeHeader call.sessionId 200) ++
      textMemberOmit "accept" (safeHeader call.accept 200) ++
      textMemberOmit "protocol" (safeHeader call.protocolVersion 80) ++
      textMemberOmit "content_type" (safeHeader call.contentType 200))
  if raw = [] then some (.object members)
  else (marshalRaw raw).map fun body => .object (members ++ [(bytesOf "body", body)])

/-- `Marshal` of the map that the A2A proxy makes, with its keys in order. -/
def a2aEnvelope (call : RelayedCall) : Option Doc :=
  let envelope := fun body : List (Bytes × Doc) =>
    Doc.object (textMember "accept" call.accept :: body ++
      [textMember "content_type" call.contentType, textMember "method" call.method,
        textMember "path" call.path, textMember "protocol" call.protocolVersion,
        textMember "session" call.sessionId])
  if call.body = [] then some (envelope [])
  else if validJSON call.body then
    (marshalRaw call.body).map fun body => envelope [(bytesOf "body", body)]
  else some (envelope [textMember "body" call.body])

/-- What `remote` posts to the hub. -/
def marshalEnvelope (envelope : Option Doc) : Bytes :=
  (envelope.map Doc.print).getD []

/-- The envelope as the node reads it. -/
structure MCPRelay where
  method : String
  sessionId : String
  accept : String
  protocolVersion : String
  contentType : String
  path : String
  body : Bytes

/-- The field that `Unmarshal` sets to the last text under its name. -/
def relayText (members : List (Bytes × Doc)) (name : String) : String :=
  ((members.filterMap fun member =>
    match member.2 with
    | .string inner => if isField name member.1 then some (unquote inner) else none
    | _ => none).getLast?).getD ""

/-- The field `Body`, which keeps the text of the last document under its name. -/
def relayBody (members : List (Bytes × Doc)) : Bytes :=
  ((members.filter fun member => isField "body" member.1).getLast?.map (·.2.print)).getD []

/-- `Unmarshal` of an envelope without blanks into an `MCPRelay`, which stays empty where that is
no document. -/
def unmarshalRelay (text : Bytes) : MCPRelay :=
  let members :=
    match parseDoc maxNestingDepth text with
    | some (.object members) => members
    | _ => []
  { method := relayText members "method"
    sessionId := relayText members "session"
    accept := relayText members "accept"
    protocolVersion := relayText members "protocol"
    contentType := relayText members "content_type"
    path := relayText members "path"
    body := relayBody members }

/-- `MCPRelay.Payload`. -/
def MCPRelay.payload (relay : MCPRelay) : Bytes :=
  let raw := trimBytes relay.body
  if raw = [] ∨ raw = bytesOf "null" then []
  else if raw.head? = some 0x22 then
    match unmarshalString raw with
    | some text => bytesOf text
    | none => raw
  else raw

/-- The payload is the body: the same value for a body in JSON, and the same bytes for another. -/
def KeepsBody (body payload : Bytes) : Prop :=
  match parseDoc maxNestingDepth body with
  | some doc => (parseDoc maxNestingDepth payload).map Doc.value = some doc.value
  | none => payload = body

/-- A body that an envelope carries: JSON that is no string and not null and leaves room for the
envelope around it, or anything else that is valid UTF-8. -/
def carried (body : Bytes) : Bool :=
  match parseDoc maxNestingDepth body with
  | some .null => false
  | some (.string _) => false
  | some doc => doc.depth < maxNestingDepth
  | none => validUTF8 body

section Payload

variable {doc : Doc} {room : ℕ} {text : Bytes}

/-- Only `null` is written as `null`. -/
theorem print_eq_null (readable : Readable maxNestingDepth doc)
    (isNull : doc.print = bytesOf "null") : doc = .null := by
  have reads := parseDoc_print readable
  rw [isNull] at reads
  have readsNull := parseDoc_print (Readable.null maxNestingDepth)
  rw [Doc.print, reads] at readsNull
  exact Option.some.inj readsNull

/-- Only strings are written with a quote in front. -/
theorem head_print (readable : Readable room doc) (quoted : doc.print.head? = some 0x22) :
    ∃ inner, doc = .string inner := by
  cases readable with
  | null _ => exact absurd quoted (by decide)
  | bool _ value => cases value <;> exact absurd quoted (by decide)
  | number _ isNumber =>
      rw [Doc.print] at quoted
      have startNoQuote : NumberState.start 0x22 = none := by decide
      rcases isNumber with ⟨state, after, _⟩
      rcases List.head?_eq_some_iff.mp quoted with ⟨rest, rfl⟩
      rw [numberAfter, startNoQuote] at after
      cases after
  | string _ isInner => exact ⟨_, rfl⟩
  | array _ => simp [Doc.print] at quoted
  | object _ _ => simp [Doc.print] at quoted

/-- What `Payload` makes of a document. -/
def bodyPayload : Doc → Bytes
  | .null => []
  | .string inner => bytesOf (unquote inner)
  | doc => doc.print

/-- The payload of an envelope with a document as its body. -/
theorem payload_print {relay : MCPRelay} (readable : Readable maxNestingDepth doc)
    (isBody : relay.body = doc.print) : relay.payload = bodyPayload doc := by
  have trimmed := trimBytes_print readable
  have notEmpty := print_ne_nil readable
  by_cases isNull : doc = .null
  · subst isNull
    rw [MCPRelay.payload, isBody]
    decide
  · have notNull : doc.print ≠ bytesOf "null" := fun same => isNull (print_eq_null readable same)
    simp only [MCPRelay.payload, isBody, trimmed, notEmpty, notNull, or_self, if_false]
    by_cases quoted : doc.print.head? = some 0x22
    · rcases head_print readable quoted with ⟨inner, rfl⟩
      simp only [if_pos quoted, unmarshalString, parseDoc_print readable, bodyPayload]
    · simp only [if_neg quoted]
      cases doc with
      | string inner => simp [Doc.print] at quoted
      | null => exact absurd rfl isNull
      | _ => rfl

end Payload

section Bodies

variable {doc : Doc} {body : Bytes}

/-- A text does not stand for itself as a string of JSON. -/
theorem string_ne_self {text : String}
    (parses : (parseDoc maxNestingDepth (bytesOf text)).map Doc.value = some (.string text)) :
    False := by
  rcases Option.map_eq_some_iff.mp parses with ⟨doc, reads, isValue⟩
  cases doc with
  | string inner =>
      rcases quoted_of_parseDoc reads with ⟨front, back, quoted⟩
      have isText : unquote inner = text := by
        simpa [Doc.value] using isValue
      have counts := congrArg (fun bytes => (runes bytes).length) quoted
      have quoteAscii : (0x22 : UInt8).toNat < 128 := by decide
      simp only [runes_bytesOf, List.length_map, String.length_toList, runes_append quoteAscii,
        runes_ascii quoteAscii, List.length_append, List.length_cons] at counts
      have shorter := length_unquote inner
      rw [isText] at shorter
      omega
  | _ => simp [Doc.value] at isValue

/-- The document in an envelope stands for the body. -/
def StandsFor (body : Bytes) (doc : Doc) : Prop :=
  match parseDoc maxNestingDepth body with
  | some original => doc = original.compact
  | none => ∃ inner, IsInner inner ∧ unquote inner = decodeText body ∧ doc = .string inner

theorem readable_of_standsFor (stands : StandsFor body doc) : Readable maxNestingDepth doc := by
  unfold StandsFor at stands
  split at stands
  · rename_i original reads
    rw [stands]
    exact (compact_reads (readable_of_parseDoc reads)).1
  · rcases stands with ⟨inner, isInner, _, rfl⟩
    exact .string _ isInner

theorem parseDoc_nil : parseDoc maxNestingDepth [] = none := by
  decide

/-- What comes out of an envelope with room for its body is the body, if it is carried. -/
theorem keepsBody_of_room (stands : StandsFor body doc) (room : doc.depth < maxNestingDepth) :
    KeepsBody body (bodyPayload doc) ↔ carried body = true := by
  unfold StandsFor at stands
  unfold KeepsBody carried
  split at stands
  · rename_i original reads
    have readable := readable_of_parseDoc reads
    rcases compact_reads readable with ⟨isReadable, sameValue⟩
    subst stands
    rw [depth_compact] at room
    simp only [reads]
    cases original with
    | null => simp [Doc.compact, bodyPayload, parseDoc_nil]
    | string inner =>
        have isInner : IsInner inner := by
          cases readable
          assumption
        simp only [Doc.compact, bodyPayload, unquote_compactInner isInner, Bool.false_eq_true,
          iff_false]
        exact string_ne_self
    | bool value =>
        simp only [Doc.compact, bodyPayload] at isReadable ⊢
        simp [parseDoc_print isReadable, room]
    | number literal =>
        simp only [Doc.compact, bodyPayload] at isReadable ⊢
        simp [parseDoc_print isReadable, room]
    | array items =>
        have reread := parseDoc_print isReadable
        simp only [Doc.compact, bodyPayload] at reread sameValue ⊢
        rw [reread, Option.map_some, sameValue]
        simp [room]
    | object members =>
        have reread := parseDoc_print isReadable
        simp only [Doc.compact, bodyPayload] at reread sameValue ⊢
        rw [reread, Option.map_some, sameValue]
        simp [room]
  · rename_i reads
    rcases stands with ⟨inner, _, isText, rfl⟩
    simp only [reads, bodyPayload, isText]
    exact validUTF8_iff.symm

/-- A body without room for the envelope around it is not carried, and nothing comes out. -/
theorem keepsBody_of_no_room (stands : StandsFor body doc) (noRoom : ¬doc.depth < maxNestingDepth) :
    KeepsBody body [] ↔ carried body = true := by
  unfold StandsFor at stands
  unfold KeepsBody carried
  split at stands
  · rename_i original reads
    subst stands
    rw [depth_compact] at noRoom
    simp only [reads, parseDoc_nil, Option.map_none]
    cases original with
    | null => simp
    | string inner => simp
    | bool value => simp [noRoom]
    | number literal => simp [noRoom]
    | array items => simp [noRoom]
    | object members => simp [noRoom]
  · rcases stands with ⟨inner, _, _, rfl⟩
    exact absurd (show 0 < maxNestingDepth by decide) noRoom

end Bodies

section Envelopes

variable {call : RelayedCall} {front back : List (Bytes × Doc)} {body : Bytes} {doc : Doc}

/-- The members of an envelope besides its body. -/
def TextMembers (members : List (Bytes × Doc)) : Prop :=
  ∀ member ∈ members, ∃ name ∈ ["method", "session", "accept", "protocol", "content_type", "path"],
    ∃ text, member = textMember name text

theorem textMembers_append (frontTexts : TextMembers front) (backTexts : TextMembers back) :
    TextMembers (front ++ back) := by
  intro member inside
  rcases List.mem_append.mp inside with early | late
  · exact frontTexts member early
  · exact backTexts member late

theorem textMembers_single (name : String)
    (isName : name ∈ ["method", "session", "accept", "protocol", "content_type", "path"])
    (text : Bytes) : TextMembers [textMember name text] := by
  intro member inside
  exact ⟨name, isName, text, List.mem_singleton.mp inside⟩

theorem textMembers_omit (name : String)
    (isName : name ∈ ["method", "session", "accept", "protocol", "content_type", "path"])
    (text : Bytes) : TextMembers (textMemberOmit name text) := by
  unfold textMemberOmit
  split_ifs
  · exact fun member inside => nomatch inside
  · exact textMembers_single name isName text

theorem fields_names : ∀ name ∈ ["method", "session", "accept", "protocol", "content_type", "path"],
    isField "body" (bytesOf name) = false ∧ IsInner (bytesOf name) := by
  unfold IsInner
  decide

theorem readable_texts (texts : TextMembers front) (room : ℕ) :
    ∀ member ∈ front, IsInner member.1 ∧ Readable room member.2 := by
  intro member inside
  rcases texts member inside with ⟨name, isName, text, rfl⟩
  exact ⟨(fields_names name isName).2, .string room (isInner_quote text)⟩

theorem filter_texts (texts : TextMembers front) :
    (front.filter fun member => isField "body" member.1) = [] := by
  rw [List.filter_eq_nil_iff]
  intro member inside
  rcases texts member inside with ⟨name, isName, text, rfl⟩
  simp [textMember, (fields_names name isName).1]

theorem readable_member {members : List (Bytes × Doc)} {room : ℕ}
    (readable : Readable (room + 1) (.object members)) :
    ∀ member ∈ members, Readable room member.2 := by
  cases readable with
  | object _ inner => exact inner

theorem unmarshalRelay_print {members : List (Bytes × Doc)}
    (parses : parseDoc maxNestingDepth (Doc.object members).print = some (.object members)) :
    (unmarshalRelay (Doc.object members).print).body = relayBody members := by
  simp only [unmarshalRelay, parses]

/-- The body of an envelope with a body among its members. -/
theorem keepsBody_envelope (frontTexts : TextMembers front) (backTexts : TextMembers back)
    (stands : StandsFor body doc) :
    KeepsBody body (unmarshalRelay
      (Doc.object (front ++ (bytesOf "body", doc) :: back)).print).payload ↔
        carried body = true := by
  have readable := readable_of_standsFor stands
  have bodyKey : isField "body" (bytesOf "body") = true ∧ IsInner (bytesOf "body") := by
    unfold IsInner
    decide
  have keys : ∀ member ∈ front ++ (bytesOf "body", doc) :: back, IsInner member.1 := by
    intro member inside
    rcases List.mem_append.mp inside with early | inside
    · exact (readable_texts frontTexts 0 member early).1
    · rcases List.mem_cons.mp inside with rfl | late
      · exact bodyKey.2
      · exact (readable_texts backTexts 0 member late).1
  have values : ∀ room, Readable room doc →
      ∀ member ∈ front ++ (bytesOf "body", doc) :: back, Readable room member.2 := by
    intro room isReadable member inside
    rcases List.mem_append.mp inside with early | inside
    · exact (readable_texts frontTexts room member early).2
    · rcases List.mem_cons.mp inside with rfl | late
      · exact isReadable
      · exact (readable_texts backTexts room member late).2
  have limit : maxNestingDepth = 9999 + 1 := rfl
  by_cases room : doc.depth < maxNestingDepth
  · have hasRoom : Readable 9999 doc := (readable_iff_depth readable).mpr (by omega)
    have parses := parseDoc_print (Readable.object keys (values 9999 hasRoom))
    have isBody := unmarshalRelay_print parses
    have picked : ((bytesOf "body", doc) :: back).filter (fun member => isField "body" member.1) =
        [(bytesOf "body", doc)] := by
      rw [List.filter_cons_of_pos (by exact bodyKey.1), filter_texts backTexts]
    rw [relayBody, List.filter_append, filter_texts frontTexts, picked] at isBody
    rw [payload_print readable isBody]
    exact keepsBody_of_room stands room
  · have noRoom : ¬Readable maxNestingDepth
        (.object (front ++ (bytesOf "body", doc) :: back)) := by
      intro fits
      rw [limit] at fits
      have inner := readable_member fits (bytesOf "body", doc) (by simp)
      rw [readable_iff_depth readable] at inner
      omega
    have unread := parseDoc_print_none (Readable.object keys (values _ readable)) noRoom
    have isEmpty : (unmarshalRelay
        (Doc.object (front ++ (bytesOf "body", doc) :: back)).print).payload = [] := by
      simp only [unmarshalRelay, unread, MCPRelay.payload, relayBody]
      rfl
    rw [isEmpty]
    exact keepsBody_of_no_room stands room

/-- The body of an envelope without one. -/
theorem payload_empty (frontTexts : TextMembers front) :
    (unmarshalRelay (Doc.object front).print).payload = [] := by
  have fits := readable_texts frontTexts 9999
  have parses : parseDoc maxNestingDepth (Doc.object front).print = some (.object front) :=
    parseDoc_print (Readable.object (fun member inside => (fits member inside).1)
      fun member inside => (fits member inside).2)
  have isBody := unmarshalRelay_print parses
  rw [relayBody, filter_texts frontTexts] at isBody
  rw [MCPRelay.payload, isBody]
  rfl

theorem keepsBody_nil : KeepsBody [] [] ↔ carried [] = true := by
  simp [KeepsBody, carried, parseDoc_nil, validUTF8, runes, runesFrom]

theorem standsFor_json (valid : parseDoc maxNestingDepth body = some doc) :
    StandsFor body doc.compact := by
  simp only [StandsFor, valid]

theorem standsFor_text {inner : Bytes} (invalid : parseDoc maxNestingDepth body = none)
    (isInner : IsInner inner) (isText : unquote inner = decodeText body) :
    StandsFor body (.string inner) := by
  simp only [StandsFor, invalid]
  exact ⟨inner, isInner, isText, rfl⟩

/-- The envelope has texts and, unless the body is empty, a document that stands for it. -/
def Envelops (body : Bytes) (envelope : Option Doc) : Prop :=
  ∃ front back, TextMembers front ∧ TextMembers back ∧
    (body = [] ∧ envelope = some (.object (front ++ back)) ∨
      ∃ doc, StandsFor body doc ∧
        envelope = some (.object (front ++ (bytesOf "body", doc) :: back)))

theorem keepsBody_of_envelops {envelope : Option Doc} (envelops : Envelops body envelope) :
    KeepsBody body (unmarshalRelay (marshalEnvelope envelope)).payload ↔ carried body = true := by
  rcases envelops with ⟨front, back, frontTexts, backTexts, ⟨rfl, rfl⟩ | ⟨doc, stands, rfl⟩⟩
  · have isEmpty := payload_empty (textMembers_append frontTexts backTexts)
    rw [marshalEnvelope, Option.map_some, Option.getD_some, isEmpty]
    exact keepsBody_nil
  · rw [marshalEnvelope, Option.map_some, Option.getD_some]
    exact keepsBody_envelope frontTexts backTexts stands

/-- What `remote` of the MCP proxy sends. -/
theorem envelops_mcp (call : RelayedCall) : Envelops call.body (mcpEnvelope call) := by
  have texts := textMembers_append (textMembers_single "method" (by decide) call.method)
    (textMembers_append (textMembers_append (textMembers_append
      (textMembers_omit "session" (by decide) (safeHeader call.sessionId 200))
      (textMembers_omit "accept" (by decide) (safeHeader call.accept 200)))
      (textMembers_omit "protocol" (by decide) (safeHeader call.protocolVersion 80)))
      (textMembers_omit "content_type" (by decide) (safeHeader call.contentType 200)))
  have noTexts : TextMembers [] := fun _ inside => nomatch inside
  refine ⟨_, [], texts, noTexts, ?_⟩
  by_cases empty : call.body = []
  · left
    refine ⟨empty, ?_⟩
    simp [mcpEnvelope, mcpBody, empty]
  · right
    cases parses : parseDoc maxNestingDepth call.body with
    | some doc =>
        have isBody : mcpBody call.body = call.body := by simp [mcpBody, validJSON, parses]
        refine ⟨doc.compact, standsFor_json parses, ?_⟩
        simp [mcpEnvelope, isBody, empty, marshalRaw, parses]
    | none =>
        have isInner := isInner_quote call.body
        have readable := Readable.string maxNestingDepth isInner
        have notEmpty := print_ne_nil readable
        have isBody : mcpBody call.body = (Doc.string (quote call.body)).print := by
          simp [mcpBody, validJSON, parses, empty]
        refine ⟨(Doc.string (quote call.body)).compact, ?_, ?_⟩
        · apply standsFor_text parses (isInner_compactInner isInner)
          rw [unquote_compactInner isInner, unquote_quote]
        · simp [mcpEnvelope, isBody, notEmpty, marshalRaw, parseDoc_print readable]

/-- What `remote` of the A2A proxy sends. -/
theorem envelops_a2a (call : RelayedCall) : Envelops call.body (a2aEnvelope call) := by
  have front := textMembers_single "accept" (by decide) call.accept
  have back := textMembers_append
    (textMembers_single "content_type" (by decide) call.contentType)
    (textMembers_append (textMembers_single "method" (by decide) call.method)
      (textMembers_append (textMembers_single "path" (by decide) call.path)
        (textMembers_append
          (textMembers_single "protocol" (by decide) call.protocolVersion)
          (textMembers_single "session" (by decide) call.sessionId))))
  refine ⟨_, _, front, back, ?_⟩
  by_cases empty : call.body = []
  · left
    refine ⟨empty, ?_⟩
    simp [a2aEnvelope, empty]
  · right
    cases parses : parseDoc maxNestingDepth call.body with
    | some doc =>
        refine ⟨doc.compact, standsFor_json parses, ?_⟩
        simp [a2aEnvelope, empty, validJSON, marshalRaw, parses]
    | none =>
        refine ⟨.string (quote call.body),
          standsFor_text parses (isInner_quote call.body) (unquote_quote call.body), ?_⟩
        simp [a2aEnvelope, empty, validJSON, parses, textMember]

/-- An envelope of either proxy gives the body back exactly when it is one that is carried. -/
theorem keepsBody_iff (call : RelayedCall) :
    (KeepsBody call.body (unmarshalRelay (marshalEnvelope (mcpEnvelope call))).payload ↔
      carried call.body = true) ∧
    (KeepsBody call.body (unmarshalRelay (marshalEnvelope (a2aEnvelope call))).payload ↔
      carried call.body = true) :=
  ⟨keepsBody_of_envelops (envelops_mcp call), keepsBody_of_envelops (envelops_a2a call)⟩

end Envelopes

/-- A call with a string as its body. -/
def stringCall : RelayedCall where
  method := bytesOf "POST"
  sessionId := []
  accept := []
  protocolVersion := []
  contentType := []
  path := []
  body := bytesOf "\"hi\""

theorem not_keepsBody : ¬ ∀ call : RelayedCall,
    KeepsBody call.body (unmarshalRelay (marshalEnvelope (mcpEnvelope call))).payload ∧
    KeepsBody call.body (unmarshalRelay (marshalEnvelope (a2aEnvelope call))).payload := by
  intro claim
  have payload : (unmarshalRelay (marshalEnvelope (mcpEnvelope stringCall))).payload =
      bytesOf "hi" := by decide
  have parses : (parseDoc maxNestingDepth stringCall.body).map Doc.value = some (.string "hi") := by
    decide
  have keeps := (claim stringCall).1
  rw [payload, KeepsBody] at keeps
  have noValue : parseDoc maxNestingDepth (bytesOf "hi") = none := by decide
  rw [noValue] at keeps
  split at keeps
  · exact nomatch keeps
  · rename_i invalid
    rw [invalid] at parses
    exact nomatch parses

end MikroLLM.Hub
