import MikroLLM.Go.Writer
import MikroLLM.Library.Percent

/-!
# The scanner of package `encoding/json`

Documents as texts. The scanner reads one byte after the other and keeps the
arrays and objects that are open, at most `limit` of them. A document that was
written is read back, and what was read can be written.
-/

namespace MikroLLM.Go

/-- A document as it is written, without the blanks between its parts: a number with its bytes, a
string with the bytes between its quotes. -/
inductive Doc
  | null
  | bool (value : Bool)
  | number (literal : Bytes)
  | string (inner : Bytes)
  | array (items : List Doc)
  | object (members : List (Bytes × Doc))

/-- Where the scanner is in a number. -/
inductive NumberState
  | neg
  | zero
  | digits
  | dot
  | fraction
  | exponent
  | exponentSign
  | exponentDigits
  deriving DecidableEq

namespace NumberState

/-- The number may end here. -/
def accepts : NumberState → Bool
  | zero | digits | fraction | exponentDigits => true
  | neg | dot | exponent | exponentSign => false

/-- The byte goes on with the number. -/
def next (state : NumberState) (byte : UInt8) : Option NumberState :=
  let digit := 0x30 ≤ byte && byte ≤ 0x39
  let afterInteger :=
    if byte = 0x2e then some dot else if byte = 0x65 || byte = 0x45 then some exponent else none
  match state with
  | neg => if byte = 0x30 then some zero else if digit then some digits else none
  | zero => afterInteger
  | digits => if digit then some digits else afterInteger
  | dot => if digit then some fraction else none
  | fraction =>
      if digit then some fraction
      else if byte = 0x65 || byte = 0x45 then some exponent else none
  | exponent =>
      if byte = 0x2b || byte = 0x2d then some exponentSign
      else if digit then some exponentDigits else none
  | exponentSign => if digit then some exponentDigits else none
  | exponentDigits => if digit then some exponentDigits else none

/-- The first byte of a number. -/
def start (byte : UInt8) : Option NumberState :=
  if byte = 0x2d then some neg else neg.next byte

end NumberState

/-- Where the scanner is in a string; after `\u`, with the digits that are read. -/
inductive StringState
  | inString
  | escape
  | unicode (digits : List Char)
  deriving DecidableEq

/-- A hexadecimal digit. -/
def isHex (char : Char) : Bool :=
  ('0' ≤ char && char ≤ '9') || ('a' ≤ char && char ≤ 'f') || ('A' ≤ char && char ≤ 'F')

/-- The character goes on with the string; none for the closing quote and for an error. -/
def StringState.next (state : StringState) (char : Char) : Option StringState :=
  match state with
  | inString =>
      if char = '"' || char < ' ' then none else if char = '\\' then some escape else some inString
  | escape =>
      if char = 'u' then some (unicode [])
      else if char ∈ ['b', 'f', 'n', 'r', 't', '\\', '/', '"'] then some inString else none
  | unicode digits =>
      if isHex char then
        if digits.length = 3 then some inString else some (unicode (digits ++ [char]))
      else none

/-- A byte, as the character with its number. -/
def byteChar (byte : UInt8) : Char :=
  Char.ofNat byte.toNat

/-- An array or an object that is open: the parts that are read, and the key of the member that is
being read. -/
inductive Frame
  | array (items : List Doc)
  | object (members : List (Bytes × Doc))
  | member (members : List (Bytes × Doc)) (key : Bytes)

/-- What the scanner is reading. -/
inductive Mode
  | beginValue
  | beginValueOrEmpty
  | beginString
  | beginStringOrEmpty
  | word (rest : Bytes) (value : Doc)
  | number (state : NumberState) (literal : Bytes)
  | string (state : StringState) (inner : Bytes) (isKey : Bool)
  | endKey (key : Bytes)
  | endValue (value : Doc)

structure Scanner where
  stack : List Frame
  mode : Mode

namespace Scanner

/-- The start of a document. -/
def start : Scanner :=
  ⟨[], .beginValue⟩

/-- `isSpace`, of the scanner. -/
def isBlank (byte : UInt8) : Bool :=
  byte = 0x20 || byte = 0x09 || byte = 0x0d || byte = 0x0a

/-- `pushParseState`. -/
def push (limit : ℕ) (stack : List Frame) (frame : Frame) (mode : Mode) : Option Scanner :=
  if stack.length < limit then some ⟨frame :: stack, mode⟩ else none

/-- `stateBeginValue`, on a byte that is not blank. -/
def beginValue (limit : ℕ) (stack : List Frame) (byte : UInt8) : Option Scanner :=
  if byte = 0x7b then push limit stack (.object []) .beginStringOrEmpty
  else if byte = 0x5b then push limit stack (.array []) .beginValueOrEmpty
  else if byte = 0x22 then some ⟨stack, .string .inString [] false⟩
  else if byte = 0x74 then some ⟨stack, .word (bytesOf "rue") (.bool true)⟩
  else if byte = 0x66 then some ⟨stack, .word (bytesOf "alse") (.bool false)⟩
  else if byte = 0x6e then some ⟨stack, .word (bytesOf "ull") .null⟩
  else (NumberState.start byte).map fun state => ⟨stack, .number state [byte]⟩

/-- `stateEndValue`. -/
def endValue (stack : List Frame) (value : Doc) (byte : UInt8) : Option Scanner :=
  if isBlank byte then some ⟨stack, .endValue value⟩
  else
    match stack with
    | .array items :: below =>
        if byte = 0x2c then some ⟨.array (items ++ [value]) :: below, .beginValue⟩
        else if byte = 0x5d then some ⟨below, .endValue (.array (items ++ [value]))⟩
        else none
    | .member members key :: below =>
        if byte = 0x2c then some ⟨.object (members ++ [(key, value)]) :: below, .beginString⟩
        else if byte = 0x7d then some ⟨below, .endValue (.object (members ++ [(key, value)]))⟩
        else none
    | _ => none

/-- `scanner.step`. -/
def step (limit : ℕ) (scanner : Scanner) (byte : UInt8) : Option Scanner :=
  match scanner.mode with
  | .beginValue =>
      if isBlank byte then some scanner else beginValue limit scanner.stack byte
  | .beginValueOrEmpty =>
      if isBlank byte then some scanner
      else if byte = 0x5d then
        match scanner.stack with
        | .array items :: below => some ⟨below, .endValue (.array items)⟩
        | _ => none
      else beginValue limit scanner.stack byte
  | .beginString =>
      if isBlank byte then some scanner
      else if byte = 0x22 then some ⟨scanner.stack, .string .inString [] true⟩
      else none
  | .beginStringOrEmpty =>
      if isBlank byte then some scanner
      else if byte = 0x7d then
        match scanner.stack with
        | .object members :: below => some ⟨below, .endValue (.object members)⟩
        | _ => none
      else if byte = 0x22 then some ⟨scanner.stack, .string .inString [] true⟩
      else none
  | .word rest value =>
      match rest with
      | [last] => if byte = last then some ⟨scanner.stack, .endValue value⟩ else none
      | expected :: more => if byte = expected then some ⟨scanner.stack, .word more value⟩ else none
      | [] => none
  | .number state literal =>
      match state.next byte with
      | some next => some ⟨scanner.stack, .number next (literal ++ [byte])⟩
      | none => if state.accepts then endValue scanner.stack (.number literal) byte else none
  | .string state inner isKey =>
      match state.next (byteChar byte) with
      | some next => some ⟨scanner.stack, .string next (inner ++ [byte]) isKey⟩
      | none =>
          if state = .inString && byte = 0x22 then
            some ⟨scanner.stack, if isKey then .endKey inner else .endValue (.string inner)⟩
          else none
  | .endKey key =>
      if isBlank byte then some scanner
      else if byte = 0x3a then
        match scanner.stack with
        | .object members :: below => some ⟨.member members key :: below, .beginValue⟩
        | _ => none
      else none
  | .endValue value => endValue scanner.stack value byte

def run (limit : ℕ) (scanner : Scanner) (text : Bytes) : Option Scanner :=
  text.foldlM (step limit) scanner

/-- `scanner.eof`: the document that was read. -/
def finish (scanner : Scanner) : Option Doc :=
  match scanner.stack, scanner.mode with
  | [], .endValue value => some value
  | [], .number state literal => if state.accepts then some (.number literal) else none
  | _, _ => none

end Scanner

/-- The document in a text, with at most `limit` arrays and objects open at once. -/
def parseDoc (limit : ℕ) (text : Bytes) : Option Doc :=
  (Scanner.run limit .start text).bind Scanner.finish

/-- `maxNestingDepth`. -/
def maxNestingDepth : ℕ := 10000

/-- `json.Valid`. -/
def validJSON (text : Bytes) : Bool :=
  (parseDoc maxNestingDepth text).isSome

mutual

/-- The text of a document, without blanks. -/
def Doc.print : Doc → Bytes
  | .null => bytesOf "null"
  | .bool true => bytesOf "true"
  | .bool false => bytesOf "false"
  | .number literal => literal
  | .string inner => 0x22 :: (inner ++ [0x22])
  | .array items => 0x5b :: (printItems items ++ [0x5d])
  | .object members => 0x7b :: (printMembers members ++ [0x7d])

def printItems : List Doc → Bytes
  | [] => []
  | [item] => item.print
  | item :: rest => item.print ++ 0x2c :: printItems rest

def printMembers : List (Bytes × Doc) → Bytes
  | [] => []
  | [(key, value)] => 0x22 :: (key ++ 0x22 :: 0x3a :: value.print)
  | (key, value) :: rest =>
      0x22 :: (key ++ 0x22 :: 0x3a :: value.print) ++ 0x2c :: printMembers rest

end

/-- The scanner is still in the number after these bytes. -/
def numberAfter : Bytes → Option NumberState
  | [] => none
  | byte :: rest => (NumberState.start byte).bind fun state => rest.foldlM NumberState.next state

/-- The scanner is still in the string after these bytes. -/
def stringAfter (inner : Bytes) : Option StringState :=
  inner.foldlM (fun state byte => state.next (byteChar byte)) .inString

/-- The bytes of a number. -/
def IsNumber (literal : Bytes) : Prop :=
  ∃ state, numberAfter literal = some state ∧ state.accepts = true

/-- The bytes between the quotes of a string. -/
def IsInner (inner : Bytes) : Prop :=
  stringAfter inner = some .inString

/-- Documents that the scanner can read when it has room for so many arrays and objects. -/
inductive Readable : ℕ → Doc → Prop
  | null (room : ℕ) : Readable room .null
  | bool (room : ℕ) (value : Bool) : Readable room (.bool value)
  | number (room : ℕ) {literal : Bytes} (isNumber : IsNumber literal) :
      Readable room (.number literal)
  | string (room : ℕ) {inner : Bytes} (isInner : IsInner inner) : Readable room (.string inner)
  | array {room : ℕ} {items : List Doc} (readable : ∀ item ∈ items, Readable room item) :
      Readable (room + 1) (.array items)
  | object {room : ℕ} {members : List (Bytes × Doc)} (keys : ∀ member ∈ members, IsInner member.1)
      (readable : ∀ member ∈ members, Readable room member.2) : Readable (room + 1) (.object members)

section Reading

open Scanner Library

variable {limit room : ℕ} {stack : List Frame} {mode : Mode} {scanner next : Scanner} {doc : Doc}

theorem run_append (scanner : Scanner) (text more : Bytes) :
    run limit scanner (text ++ more) = (run limit scanner text).bind (run limit · more) :=
  List.foldlM_append

theorem run_cons (scanner : Scanner) (byte : UInt8) (rest : Bytes) :
    run limit scanner (byte :: rest) = (step limit scanner byte).bind (run limit · rest) :=
  rfl

/-- The scanner goes through a string. -/
theorem run_string {inner : Bytes} {first last : StringState} (read : Bytes) (isKey : Bool)
    (reads : inner.foldlM (fun state byte => state.next (byteChar byte)) first = some last) :
    run limit ⟨stack, .string first read isKey⟩ inner =
      some ⟨stack, .string last (read ++ inner) isKey⟩ := by
  induction inner generalizing first read with
  | nil =>
      cases reads
      simp [run]
  | cons byte rest ih =>
      rw [List.foldlM_cons, Option.bind_eq_bind, Option.bind_eq_some_iff] at reads
      rcases reads with ⟨next, steps, later⟩
      rw [run_cons, step]
      simp only [steps, Option.bind_some]
      rw [ih (read ++ [byte]) later, List.append_assoc, List.singleton_append]

/-- The scanner goes through a number. -/
theorem run_number {literal : Bytes} {first last : NumberState} (read : Bytes)
    (reads : literal.foldlM NumberState.next first = some last) :
    run limit ⟨stack, .number first read⟩ literal =
      some ⟨stack, .number last (read ++ literal)⟩ := by
  induction literal generalizing first read with
  | nil =>
      cases reads
      simp [run]
  | cons byte rest ih =>
      rw [List.foldlM_cons, Option.bind_eq_bind, Option.bind_eq_some_iff] at reads
      rcases reads with ⟨next, steps, later⟩
      rw [run_cons, step]
      simp only [steps, Option.bind_some]
      rw [ih (read ++ [byte]) later, List.append_assoc, List.singleton_append]

/-- The scanner has read the document, up to the byte that ends a number. -/
def Settled (stack : List Frame) (doc : Doc) (scanner : Scanner) : Prop :=
  scanner = ⟨stack, .endValue doc⟩ ∨ ∃ state literal, doc = .number literal ∧
    state.accepts = true ∧ scanner = ⟨stack, .number state literal⟩

theorem Settled.step (settled : Settled stack doc scanner) {byte : UInt8}
    (ends : byte ∈ [0x2c, 0x5d, 0x7d]) :
    Scanner.step limit scanner byte = endValue stack doc byte := by
  rcases settled with rfl | ⟨state, literal, rfl, accepts, rfl⟩
  · rfl
  · have stops : state.next byte = none := by
      simp only [List.mem_cons, List.not_mem_nil, or_false] at ends
      rcases ends with rfl | rfl | rfl <;> cases state <;> rfl
    simp [Scanner.step, stops, accepts]

theorem Settled.finish (settled : Settled [] doc scanner) : scanner.finish = some doc := by
  rcases settled with rfl | ⟨state, literal, rfl, accepts, rfl⟩
  · rfl
  · simp [Scanner.finish, accepts]

/-- The scanner begins a value. -/
def Begins (mode : Mode) : Prop :=
  mode = .beginValue ∨ mode = .beginValueOrEmpty

/-- Where a value may begin, a byte that is no blank and no bracket begins it. -/
theorem step_begins (begins : Begins mode) {byte : UInt8} (notBlank : isBlank byte = false)
    (notEmpty : byte ≠ 0x5d) : step limit ⟨stack, mode⟩ byte = beginValue limit stack byte := by
  rcases begins with rfl | rfl
  · simp [step, notBlank]
  · simp [step, notBlank, notEmpty]

/-- What a run over the text of a document does, where a value may begin. -/
def ReadsTo (limit room : ℕ) (doc : Doc) : Prop :=
  ∀ stack mode, Begins mode → stack.length + room ≤ limit →
    ∃ scanner, run limit ⟨stack, mode⟩ doc.print = some scanner ∧ Settled stack doc scanner

theorem readsTo_number {literal : Bytes} (isNumber : IsNumber literal) :
    ReadsTo limit room (.number literal) := by
  intro stack mode begins _
  rcases isNumber with ⟨state, after, accepts⟩
  cases literal with
  | nil => exact nomatch after
  | cons byte rest =>
      rcases Option.bind_eq_some_iff.mp after with ⟨first, starts, reads⟩
      have other : ∀ byte : UInt8, (NumberState.start byte).isSome = true → isBlank byte = false ∧
          byte ∉ [0x5d, 0x7b, 0x5b, 0x22, 0x74, 0x66, 0x6e] := by
        apply forall_byte
        decide
      rcases other byte (by simp [starts]) with ⟨notBlank, notOther⟩
      simp only [List.mem_cons, List.not_mem_nil, or_false, not_or] at notOther
      refine ⟨⟨stack, .number state ([byte] ++ rest)⟩, ?_, Or.inr ⟨state, _, rfl, accepts, rfl⟩⟩
      rw [Doc.print, run_cons, step_begins begins notBlank notOther.1]
      simp only [beginValue, notOther, if_false, starts, Option.map_some, Option.bind_some]
      exact run_number [byte] reads

theorem run_quoted {inner : Bytes} (isInner : IsInner inner) (isKey : Bool) :
    run limit ⟨stack, .string .inString [] isKey⟩ (inner ++ [0x22]) =
      some ⟨stack, if isKey then .endKey inner else .endValue (.string inner)⟩ := by
  rw [run_append, run_string [] isKey isInner, Option.bind_some]
  rfl

theorem readsTo_string {inner : Bytes} (isInner : IsInner inner) :
    ReadsTo limit room (.string inner) := by
  intro stack mode begins _
  refine ⟨⟨stack, .endValue (.string inner)⟩, ?_, Or.inl rfl⟩
  rw [Doc.print, run_cons, step_begins begins rfl (by decide)]
  exact run_quoted isInner false

/-- The items of an array are read up to its end. -/
theorem run_items {items : List Doc} (some : items ≠ [])
    (reads : ∀ item ∈ items, ReadsTo limit room item) (read : List Doc) (begins : Begins mode)
    (fits : stack.length + 1 + room ≤ limit) :
    run limit ⟨.array read :: stack, mode⟩ (printItems items ++ [0x5d]) =
      Option.some ⟨stack, .endValue (.array (read ++ items))⟩ := by
  induction items generalizing read mode with
  | nil => exact absurd rfl some
  | cons item rest ih =>
      rcases reads item List.mem_cons_self (.array read :: stack) mode begins (by simpa using fits)
        with ⟨after, runs, settled⟩
      cases rest with
      | nil =>
          rw [printItems, run_append, runs, Option.bind_some, run_cons, settled.step (by simp)]
          rfl
      | cons other others =>
          rw [printItems, List.append_assoc, run_append, runs, Option.bind_some, List.cons_append,
            run_cons, settled.step (by simp)]
          have later := ih (by simp) (fun item inside => reads item (List.mem_cons_of_mem _ inside))
            (read ++ [item]) (Or.inl rfl)
          rw [List.append_assoc] at later
          · exact later
          · simp

/-- The members of an object are read up to its end. -/
theorem run_members {members : List (Bytes × Doc)} (some : members ≠ [])
    (keys : ∀ member ∈ members, IsInner member.1)
    (reads : ∀ member ∈ members, ReadsTo limit room member.2) (read : List (Bytes × Doc))
    (begins : mode = .beginString ∨ mode = .beginStringOrEmpty)
    (fits : stack.length + 1 + room ≤ limit) :
    run limit ⟨.object read :: stack, mode⟩ (printMembers members ++ [0x7d]) =
      Option.some ⟨stack, .endValue (.object (read ++ members))⟩ := by
  induction members generalizing read mode with
  | nil => exact absurd rfl some
  | cons member rest ih =>
      rcases member with ⟨key, value⟩
      rcases reads (key, value) List.mem_cons_self (.member read key :: stack) .beginValue
        (Or.inl rfl) (by simpa using fits) with ⟨after, runs, settled⟩
      have first : ∀ more, run limit ⟨.object read :: stack, mode⟩
          (0x22 :: (key ++ 0x22 :: 0x3a :: value.print) ++ more) = run limit after more := by
        intro more
        have begun : step limit ⟨.object read :: stack, mode⟩ 0x22 =
            Option.some ⟨.object read :: stack, .string .inString [] true⟩ := by
          rcases begins with rfl | rfl <;> rfl
        have split : key ++ 0x22 :: 0x3a :: value.print =
            (key ++ [0x22]) ++ 0x3a :: value.print := by simp
        rw [List.cons_append, run_cons, begun, Option.bind_some, split, List.append_assoc, run_append,
          run_quoted (keys (key, value) List.mem_cons_self) true, Option.bind_some, if_pos rfl,
          List.cons_append, run_cons]
        have colon : step limit ⟨.object read :: stack, .endKey key⟩ 0x3a =
            Option.some ⟨.member read key :: stack, .beginValue⟩ := rfl
        rw [colon, Option.bind_some, run_append, runs, Option.bind_some]
      cases rest with
      | nil =>
          rw [printMembers, first, run_cons, settled.step (by simp)]
          rfl
      | cons other others =>
          rw [printMembers, List.append_assoc, first, List.cons_append, run_cons,
            settled.step (by simp)]
          · have later := ih (by simp)
              (fun member inside => keys member (List.mem_cons_of_mem _ inside))
              (fun member inside => reads member (List.mem_cons_of_mem _ inside))
              (read ++ [(key, value)]) (Or.inl rfl)
            rw [List.append_assoc] at later
            exact later
          · simp

/-- The text of a document is read. -/
theorem readsTo_of_readable (readable : Readable room doc) : ReadsTo limit room doc := by
  induction readable with
  | null room =>
      intro stack mode begins _
      refine ⟨⟨stack, .endValue .null⟩, ?_, Or.inl rfl⟩
      rcases begins with rfl | rfl <;> rfl
  | bool room value =>
      intro stack mode begins _
      refine ⟨⟨stack, .endValue (.bool value)⟩, ?_, Or.inl rfl⟩
      cases value <;> rcases begins with rfl | rfl <;> rfl
  | number room isNumber => exact readsTo_number isNumber
  | string room isInner => exact readsTo_string isInner
  | @array room items readable ih =>
      intro stack mode begins fits
      refine ⟨⟨stack, .endValue (.array items)⟩, ?_, Or.inl rfl⟩
      rw [Doc.print, run_cons, step_begins begins rfl (by decide)]
      have isRoom : stack.length < limit := by omega
      simp only [beginValue, push, isRoom, if_true]
      by_cases some : items = []
      · subst some
        rfl
      · exact run_items some ih [] (Or.inr rfl) (by omega)
  | @object room members keys readable ih =>
      intro stack mode begins fits
      refine ⟨⟨stack, .endValue (.object members)⟩, ?_, Or.inl rfl⟩
      rw [Doc.print, run_cons, step_begins begins rfl (by decide)]
      have isRoom : stack.length < limit := by omega
      simp only [beginValue, push, isRoom, if_true]
      by_cases some : members = []
      · subst some
        rfl
      · exact run_members some keys ih [] (Or.inr rfl) (by omega)

/-- A document that was written is read back. -/
theorem parseDoc_print (readable : Readable limit doc) : parseDoc limit doc.print = some doc := by
  have reads : ReadsTo limit limit doc := readsTo_of_readable readable
  rcases reads [] .beginValue (Or.inl rfl) (by simp) with ⟨scanner, runs, settled⟩
  rw [parseDoc, Scanner.start, runs, Option.bind_some, settled.finish]

end Reading

section Invariant

open Scanner

variable {limit room : ℕ} {stack : List Frame} {scanner next : Scanner} {value doc : Doc}
  {byte : UInt8}

/-- The parts of an open array or object can be read. -/
def Frame.Fits (room : ℕ) : Frame → Prop
  | array items => ∀ item ∈ items, Readable room item
  | object members => ∀ member ∈ members, IsInner member.1 ∧ Readable room member.2
  | member members key =>
      (∀ member ∈ members, IsInner member.1 ∧ Readable room member.2) ∧ IsInner key

/-- Every open array and object has room for its parts. -/
def StackFits (limit : ℕ) : List Frame → Prop
  | [] => True
  | frame :: below =>
      frame.Fits (limit - (below.length + 1)) ∧ below.length < limit ∧ StackFits limit below

/-- What is read of a value can be read. -/
def Mode.Fits (room : ℕ) : Mode → Prop
  | word _ value => Readable room value
  | number state literal => numberAfter literal = some state
  | string state inner _ => stringAfter inner = some state
  | endKey key => IsInner key
  | endValue value => Readable room value
  | _ => True

def Scanner.Fits (limit : ℕ) (scanner : Scanner) : Prop :=
  StackFits limit scanner.stack ∧ scanner.mode.Fits (limit - scanner.stack.length)

theorem numberAfter_append {literal : Bytes} {state after : NumberState}
    (reads : numberAfter literal = some state) (steps : state.next byte = some after) :
    numberAfter (literal ++ [byte]) = some after := by
  cases literal with
  | nil => exact nomatch reads
  | cons first rest =>
      rcases Option.bind_eq_some_iff.mp reads with ⟨started, starts, later⟩
      simp only [List.cons_append, numberAfter, starts, Option.bind_some, List.foldlM_append, later,
        Option.bind_eq_bind, List.foldlM_cons, steps]
      rfl

theorem stringAfter_append {inner : Bytes} {state after : StringState}
    (reads : stringAfter inner = some state) (steps : state.next (byteChar byte) = some after) :
    stringAfter (inner ++ [byte]) = some after := by
  unfold stringAfter at reads ⊢
  rw [List.foldlM_append, reads, Option.bind_eq_bind, Option.bind_some, List.foldlM_cons, steps]
  rfl

theorem readable_array {items : List Doc} {below : List Frame} (isRoom : below.length < limit)
    (readable : ∀ item ∈ items, Readable (limit - (below.length + 1)) item) :
    Readable (limit - below.length) (.array items) := by
  have room : limit - below.length = limit - (below.length + 1) + 1 := by omega
  rw [room]
  exact Readable.array readable

theorem readable_object {members : List (Bytes × Doc)} {below : List Frame}
    (isRoom : below.length < limit)
    (readable : ∀ member ∈ members, IsInner member.1 ∧
      Readable (limit - (below.length + 1)) member.2) :
    Readable (limit - below.length) (.object members) := by
  have room : limit - below.length = limit - (below.length + 1) + 1 := by omega
  rw [room]
  exact Readable.object (fun member inside => (readable member inside).1)
    fun member inside => (readable member inside).2

theorem fits_endValue (fits : StackFits limit stack)
    (readable : Readable (limit - stack.length) value)
    (ends : endValue stack value byte = some next) : next.Fits limit := by
  unfold endValue at ends
  split at ends
  · cases ends
    exact ⟨fits, readable⟩
  · split at ends
    · rename_i items below
      rcases fits with ⟨items', isRoom, fitsBelow⟩
      have all : ∀ item ∈ items ++ [value], Readable (limit - (below.length + 1)) item := by
        intro item inside
        rcases List.mem_append.mp inside with early | last
        · exact items' item early
        · rw [List.mem_singleton.mp last]
          exact readable
      split_ifs at ends <;> cases ends
      · exact ⟨⟨all, isRoom, fitsBelow⟩, trivial⟩
      · exact ⟨fitsBelow, readable_array isRoom all⟩
    · rename_i members key below
      rcases fits with ⟨⟨members', isKey⟩, isRoom, fitsBelow⟩
      have all : ∀ member ∈ members ++ [(key, value)], IsInner member.1 ∧
          Readable (limit - (below.length + 1)) member.2 := by
        intro member inside
        rcases List.mem_append.mp inside with early | last
        · exact members' member early
        · rw [List.mem_singleton.mp last]
          exact ⟨isKey, readable⟩
      split_ifs at ends <;> cases ends
      · exact ⟨⟨all, isRoom, fitsBelow⟩, trivial⟩
      · exact ⟨fitsBelow, readable_object isRoom all⟩
    · exact nomatch ends

theorem fits_push {frame : Frame} {mode : Mode} (fits : StackFits limit stack)
    (empty : ∀ room, frame.Fits room) (anyMode : ∀ room, mode.Fits room)
    (pushes : push limit stack frame mode = some next) : next.Fits limit := by
  unfold push at pushes
  split_ifs at pushes with isRoom
  cases pushes
  exact ⟨⟨empty _, isRoom, fits⟩, anyMode _⟩

theorem fits_beginValue (fits : StackFits limit stack)
    (begins : beginValue limit stack byte = some next) : next.Fits limit := by
  unfold beginValue at begins
  split_ifs at begins
  · exact fits_push fits (by simp [Frame.Fits]) (by simp [Mode.Fits]) begins
  · exact fits_push fits (by simp [Frame.Fits]) (by simp [Mode.Fits]) begins
  · cases begins
    exact ⟨fits, rfl⟩
  · cases begins
    exact ⟨fits, Readable.bool _ _⟩
  · cases begins
    exact ⟨fits, Readable.bool _ _⟩
  · cases begins
    exact ⟨fits, Readable.null _⟩
  · rcases Option.map_eq_some_iff.mp begins with ⟨state, starts, rfl⟩
    refine ⟨fits, ?_⟩
    simp [Mode.Fits, numberAfter, starts]

/-- A byte keeps what is read readable. -/
theorem fits_step (fits : scanner.Fits limit) (steps : step limit scanner byte = some next) :
    next.Fits limit := by
  rcases scanner with ⟨stack, mode⟩
  rcases fits with ⟨fits, modeFits⟩
  unfold step at steps
  cases mode with
  | beginValue =>
      simp only at steps
      split at steps
      · cases steps
        exact ⟨fits, trivial⟩
      · exact fits_beginValue fits steps
  | beginValueOrEmpty =>
      simp only at steps
      split_ifs at steps
      · cases steps
        exact ⟨fits, trivial⟩
      · split at steps
        · cases steps
          exact ⟨fits.2.2, readable_array fits.2.1 fits.1⟩
        · exact nomatch steps
      · exact fits_beginValue fits steps
  | beginString =>
      simp only at steps
      split_ifs at steps <;> cases steps
      · exact ⟨fits, trivial⟩
      · exact ⟨fits, rfl⟩
  | beginStringOrEmpty =>
      simp only at steps
      split_ifs at steps
      · cases steps
        exact ⟨fits, trivial⟩
      · split at steps
        · cases steps
          exact ⟨fits.2.2, readable_object fits.2.1 fits.1⟩
        · exact nomatch steps
      · cases steps
        exact ⟨fits, rfl⟩
  | word rest value =>
      simp only at steps
      split at steps
      · split_ifs at steps
        cases steps
        exact ⟨fits, modeFits⟩
      · split_ifs at steps
        cases steps
        exact ⟨fits, modeFits⟩
      · exact nomatch steps
  | number state literal =>
      simp only at steps
      split at steps
      · rename_i after goesOn
        cases steps
        exact ⟨fits, numberAfter_append modeFits goesOn⟩
      · split_ifs at steps with accepts
        exact fits_endValue fits (Readable.number _ ⟨state, modeFits, accepts⟩) steps
  | string state inner isKey =>
      simp only at steps
      split at steps
      · rename_i after goesOn
        cases steps
        exact ⟨fits, stringAfter_append modeFits goesOn⟩
      · split_ifs at steps with closes
        · cases steps
          simp only [Bool.and_eq_true, decide_eq_true_eq] at closes
          exact ⟨fits, modeFits.trans (congrArg some closes.1)⟩
        · cases steps
          simp only [Bool.and_eq_true, decide_eq_true_eq] at closes
          exact ⟨fits, Readable.string _ (modeFits.trans (congrArg some closes.1))⟩
  | endKey key =>
      simp only at steps
      split_ifs at steps
      · cases steps
        exact ⟨fits, modeFits⟩
      · split at steps
        · cases steps
          exact ⟨⟨⟨fits.1, modeFits⟩, fits.2⟩, trivial⟩
        · exact nomatch steps
  | endValue value => exact fits_endValue fits modeFits steps

theorem fits_run {text : Bytes} (fits : scanner.Fits limit)
    (runs : run limit scanner text = some next) : next.Fits limit := by
  induction text generalizing scanner with
  | nil =>
      cases runs
      exact fits
  | cons byte rest ih =>
      rw [run_cons] at runs
      rcases Option.bind_eq_some_iff.mp runs with ⟨after, steps, later⟩
      exact ih (fits_step fits steps) later

/-- A document that was read can be read again. -/
theorem readable_of_parseDoc {text : Bytes} (parses : parseDoc limit text = some doc) :
    Readable limit doc := by
  rcases Option.bind_eq_some_iff.mp parses with ⟨last, runs, finishes⟩
  have started : Scanner.start.Fits limit := ⟨trivial, trivial⟩
  rcases fits_run started runs with ⟨_, modeFits⟩
  rcases last with ⟨stack, mode⟩
  unfold Scanner.finish at finishes
  split at finishes
  · cases finishes
    rename_i isStack isMode
    simp only at isStack isMode
    subst isStack isMode
    exact modeFits
  · rename_i isStack isMode
    simp only at isStack isMode
    subst isStack isMode
    split_ifs at finishes with accepts
    cases finishes
    exact Readable.number _ ⟨_, modeFits, accepts⟩
  · exact nomatch finishes

theorem push_mono {more : ℕ} (le : limit ≤ more) {frame : Frame} {mode : Mode}
    (pushes : push limit stack frame mode = some next) :
    push more stack frame mode = some next := by
  unfold push at pushes ⊢
  split_ifs at pushes with isRoom
  rw [if_pos (isRoom.trans_le le), pushes]

theorem beginValue_mono {more : ℕ} (le : limit ≤ more)
    (begins : beginValue limit stack byte = some next) :
    beginValue more stack byte = some next := by
  unfold beginValue at begins ⊢
  split_ifs at begins ⊢
  · exact push_mono le begins
  · exact push_mono le begins
  all_goals exact begins

/-- With more room the scanner does the same. -/
theorem step_mono {more : ℕ} (le : limit ≤ more) (steps : step limit scanner byte = some next) :
    step more scanner byte = some next := by
  unfold step at steps ⊢
  cases isMode : scanner.mode with
  | beginValue =>
      simp only [isMode] at steps ⊢
      split_ifs at steps ⊢
      · exact steps
      · exact beginValue_mono le steps
  | beginValueOrEmpty =>
      simp only [isMode] at steps ⊢
      split_ifs at steps ⊢
      · exact steps
      · exact steps
      · exact beginValue_mono le steps
  | _ => simpa only [isMode] using steps

theorem parseDoc_mono {more : ℕ} (le : limit ≤ more) {text : Bytes}
    (parses : parseDoc limit text = some doc) : parseDoc more text = some doc := by
  have runs : ∀ (text : Bytes) {scanner last : Scanner}, run limit scanner text = some last →
      run more scanner text = some last := by
    intro text
    induction text with
    | nil => exact fun reads => reads
    | cons byte rest ih =>
        intro scanner last reads
        rw [run_cons] at reads ⊢
        rcases Option.bind_eq_some_iff.mp reads with ⟨next, steps, later⟩
        rw [step_mono le steps, Option.bind_some]
        exact ih later
  rcases Option.bind_eq_some_iff.mp parses with ⟨last, reads, finishes⟩
  rw [parseDoc, runs text reads, Option.bind_some, finishes]

/-- A document for which there is no room is not read as anything. -/
theorem parseDoc_print_none (readable : Readable room doc) (noRoom : ¬Readable limit doc) :
    parseDoc limit doc.print = none := by
  cases parses : parseDoc limit doc.print with
  | none => rfl
  | some other =>
      have withRoom := parseDoc_mono (le_max_left limit room) parses
      have isDoc := parseDoc_mono (le_max_right limit room) (parseDoc_print readable)
      rw [isDoc, Option.some.injEq] at withRoom
      subst withRoom
      exact absurd (readable_of_parseDoc parses) noRoom

/-- What is read of a string stands in the text behind its quote. -/
def Mode.Stands (text : Bytes) : Mode → Prop
  | string _ inner false => ∃ front, text = front ++ 0x22 :: inner
  | word _ (.string _) => False
  | endValue (.string inner) => ∃ front back, text = front ++ 0x22 :: (inner ++ 0x22 :: back)
  | _ => True

theorem stands_endValue {text : Bytes} (stands : (Mode.endValue value).Stands text)
    (ends : endValue stack value byte = some next) : next.mode.Stands (text ++ [byte]) := by
  unfold endValue at ends
  split at ends
  · cases ends
    cases value with
    | string inner =>
        rcases stands with ⟨front, back, rfl⟩
        exact ⟨front, back ++ [byte], by simp⟩
    | _ => trivial
  · split at ends
    · split_ifs at ends <;> cases ends <;> trivial
    · split_ifs at ends <;> cases ends <;> trivial
    · exact nomatch ends

theorem stands_beginValue {text : Bytes} (begins : beginValue limit stack byte = some next) :
    next.mode.Stands (text ++ [byte]) := by
  unfold beginValue push at begins
  split_ifs at begins with _ _ _ _ quote
  · cases begins
    trivial
  · cases begins
    trivial
  · cases begins
    exact ⟨text, by rw [quote]⟩
  · cases begins
    trivial
  · cases begins
    trivial
  · cases begins
    trivial
  · rcases Option.map_eq_some_iff.mp begins with ⟨state, _, rfl⟩
    trivial

theorem stands_step {text : Bytes} (stands : scanner.mode.Stands text)
    (steps : step limit scanner byte = some next) : next.mode.Stands (text ++ [byte]) := by
  rcases scanner with ⟨stack, mode⟩
  unfold step at steps
  cases mode with
  | beginValue =>
      simp only at steps
      split_ifs at steps
      · cases steps
        trivial
      · exact stands_beginValue steps
  | beginValueOrEmpty =>
      simp only at steps
      split_ifs at steps
      · cases steps
        trivial
      · split at steps <;> cases steps
        trivial
      · exact stands_beginValue steps
  | beginString =>
      simp only at steps
      split_ifs at steps <;> cases steps <;> trivial
  | beginStringOrEmpty =>
      simp only at steps
      split_ifs at steps
      · cases steps
        trivial
      · split at steps <;> cases steps
        trivial
      · cases steps
        trivial
  | word rest value =>
      cases value with
      | string inner => exact stands.elim
      | _ =>
          simp only at steps
          split at steps
          · split_ifs at steps
            cases steps
            trivial
          · split_ifs at steps
            cases steps
            trivial
          · exact nomatch steps
  | number state literal =>
      simp only at steps
      split at steps
      · cases steps
        trivial
      · split_ifs at steps
        exact stands_endValue (show (Mode.endValue (.number literal)).Stands text from trivial) steps
  | string state inner isKey =>
      simp only at steps
      cases isKey with
      | true =>
          split at steps
          · cases steps
            trivial
          · split_ifs at steps with closes isTrue
            · cases steps
              trivial
            · exact absurd rfl isTrue
      | false =>
          rcases stands with ⟨front, rfl⟩
          split at steps
          · cases steps
            exact ⟨front, by simp⟩
          · split_ifs at steps with closes isFalse
            · exact nomatch isFalse
            · simp only [Bool.and_eq_true, decide_eq_true_eq] at closes
              cases steps
              exact ⟨front, [], by simp [closes.2]⟩
  | endKey key =>
      simp only at steps
      split_ifs at steps
      · cases steps
        trivial
      · split at steps <;> cases steps
        trivial
  | endValue value => exact stands_endValue stands steps

/-- A string that was read stands between quotes. -/
theorem quoted_of_parseDoc {text inner : Bytes} (parses : parseDoc limit text = some (.string inner)) :
    ∃ front back, text = front ++ 0x22 :: (inner ++ 0x22 :: back) := by
  have through : ∀ (rest text : Bytes) {scanner last : Scanner}, scanner.mode.Stands text →
      run limit scanner rest = some last → last.mode.Stands (text ++ rest) := by
    intro rest
    induction rest with
    | nil =>
        intro text scanner last stands runs
        cases runs
        simpa using stands
    | cons byte rest ih =>
        intro text scanner last stands runs
        rw [run_cons] at runs
        rcases Option.bind_eq_some_iff.mp runs with ⟨next, steps, later⟩
        simpa using ih (text ++ [byte]) (stands_step stands steps) later
  rcases Option.bind_eq_some_iff.mp parses with ⟨last, runs, finishes⟩
  have stands := through text [] (show Scanner.start.mode.Stands [] from trivial) runs
  rcases last with ⟨stack, mode⟩
  unfold Scanner.finish at finishes
  split at finishes
  · cases finishes
    rename_i isStack isMode
    simp only at isStack isMode
    subst isMode
    simpa [Mode.Stands] using stands
  · split_ifs at finishes
    exact nomatch finishes
  · exact nomatch finishes

end Invariant

end MikroLLM.Go
