import MikroLLM.Go.Lines

/-!
# `Unmarshal`

How package `encoding/json` stores a document in a variable of some type, and what
comes of an object whose members are stored in the fields of a structure.
-/

namespace MikroLLM.Go

/-- `foldRune`, where it gives an ASCII letter. -/
def foldRune (char : Char) : Char :=
  if 'a' ≤ char ∧ char ≤ 'z' then char.toUpper
  else if char = '\u017f' then 'S'
  else if char = '\u212a' then 'K'
  else char

/-- The key of a member is the name of a field, in any case. -/
def isField (name : String) (key : Bytes) : Bool :=
  (unquote key).toList.map foldRune = name.toList.map foldRune

/-- The values of the members that are taken for a field. -/
def valuesOf (members : List (Bytes × Doc)) (name : String) : List Doc :=
  (members.filter fun member => isField name member.1).map Prod.snd

/-- How a document is stored in a variable of a type: what the variable holds then, or none for an
error. -/
abbrev Store (α : Type) :=
  Doc → α → Option α

/-- Into a `string`. -/
def storeString : Store String
  | .null, held => some held
  | .string inner, _ => some (unquote inner)
  | _, _ => none

/-- Into a `bool`. -/
def storeBool : Store Bool
  | .null, held => some held
  | .bool value, _ => some value
  | _, _ => none

/-- Into a `json.RawMessage`, which is empty or the text of a document. -/
def storeRaw : Store (Option Doc) :=
  fun doc _ => some (some doc)

/-- Into an `any`. -/
def storeAny : Store Json :=
  fun doc _ => doc.value.load

/-- Into a nil `map[string]any`, which null leaves nil. -/
def mapOf : Doc → Option Fields
  | .null => some []
  | .object members => loadFields (membersValue members)
  | _ => none

/-- `fields[key].(string)`, empty where that is none. -/
def stringAt (fields : Fields) (key : String) : String :=
  match field fields key with
  | .string text => text
  | _ => ""

/-- `ParseInt` of a literal, which fails on fractions, on exponents and outside of 64 bits. -/
def integerOf (literal : Bytes) : Option ℤ :=
  let negative : Bool := literal.head? = some 0x2d
  let digits := if negative then literal.tail else literal
  let number : ℤ := if negative then -digitsValue digits else digitsValue digits
  if (digits.all fun byte => 0x30 ≤ byte && byte ≤ 0x39) ∧ -2 ^ 63 ≤ number ∧ number < 2 ^ 63 then
    some number
  else none

/-- Into an `int`. -/
def storeInt : Store ℤ
  | .null, held => some held
  | .number literal, _ => integerOf literal
  | _, _ => none

/-- Into a pointer, nil for null. -/
def storePointer {α : Type} (zero : α) (store : Store α) : Store (Option α)
  | .null, _ => some none
  | doc, held => (store doc (held.getD zero)).map some

/-- A slice: its elements, and those that its array has behind them from an earlier time. -/
structure Slice (α : Type) where
  items : List α := []
  behind : List α := []

/-- Into the elements of an array, into those that are there first. -/
def storeEach {α : Type} (zero : α) (store : Store α) : List Doc → List α → Option (List α)
  | [], _ => some []
  | item :: rest, held => do
      let first ← store item (held.headD zero)
      let others ← storeEach zero store rest held.tail
      some (first :: others)

/-- Into a slice, whose array is used again; a slice without elements gets a new one. -/
def storeItems {α : Type} (zero : α) (store : Store α) : Store (Slice α)
  | .null, _ => some {}
  | .array [], _ => some {}
  | .array items, held => do
      let room := held.items ++ held.behind
      let stored ← storeEach zero store items room
      some ⟨stored, room.drop items.length⟩
  | _, _ => none

/-- Into a structure, whose fields take the members. -/
def storeStruct {α : Type} (store : List (Bytes × Doc) → α → Option α) : Store α
  | .null, held => some held
  | .object members, held => store members held
  | _, _ => none

/-- Into a field, one member after the other. -/
def storeField {α : Type} (store : Store α) (members : List (Bytes × Doc)) (name : String)
    (held : α) : Option α :=
  (valuesOf members name).foldlM (fun held doc => store doc held) held

/-- `FormatUint` in base ten. -/
def digitsOf (number : ℕ) : Bytes :=
  (Nat.toDigits 10 number).map fun char => UInt8.ofNat char.toNat

/-- `FormatInt` in base ten. -/
def intLiteral (number : ℤ) : Bytes :=
  if number < 0 then 0x2d :: digitsOf number.natAbs else digitsOf number.natAbs

section Views

variable {α β : Type} {store : Store α} {other : Store β} {view : α → β}

/-- A store into a part of a structure stores what the part of the structure is. -/
def Views (view : α → β) (store : Store α) (other : Store β) : Prop :=
  ∀ doc held, (store doc held).map view = other doc (view held)

theorem Views.each (views : Views view store other) (zero : α) (docs : List Doc) (held : List α) :
    (storeEach zero store docs held).map (List.map view) =
      storeEach (view zero) other docs (held.map view) := by
  induction docs generalizing held with
  | nil => rfl
  | cons doc rest ih =>
      have first := views doc (held.headD zero)
      have head : (held.map view).headD (view zero) = view (held.headD zero) := by
        cases held with
        | nil => rfl
        | cons item items => rfl
      rw [storeEach, storeEach, head, ← first, ← List.map_tail, ← ih held.tail]
      cases store doc (held.headD zero) with
      | none => rfl
      | some value =>
          cases storeEach zero store rest held.tail with
          | none => rfl
          | some values => rfl

def Slice.map (view : α → β) (slice : Slice α) : Slice β :=
  ⟨slice.items.map view, slice.behind.map view⟩

theorem Views.items (views : Views view store other) (zero : α) :
    Views (Slice.map view) (storeItems zero store) (storeItems (view zero) other) := by
  intro doc held
  cases doc with
  | array items =>
      cases items with
      | nil => rfl
      | cons first rest =>
          have each := views.each zero (first :: rest) (held.items ++ held.behind)
          rw [List.map_append] at each
          simp only [storeItems, Slice.map, ← each]
          cases storeEach zero store (first :: rest) (held.items ++ held.behind) with
          | none => rfl
          | some values => simp [Slice.map, List.map_drop]
  | _ => rfl

/-- Into a slice that is not there yet. -/
theorem storeItems_array (zero : α) (store : Store α) (docs : List Doc) :
    storeItems zero store (.array docs) {} =
      (storeEach zero store docs []).map fun items => { items } := by
  cases docs with
  | nil => rfl
  | cons first rest =>
      simp only [storeItems, List.append_nil, List.drop_nil]
      cases storeEach zero store (first :: rest) [] <;> rfl

theorem Views.field (views : Views view store other) (members : List (Bytes × Doc))
    (name : String) (held : α) :
    (storeField store members name held).map view = storeField other members name (view held) := by
  rw [storeField, storeField]
  induction valuesOf members name generalizing held with
  | nil => rfl
  | cons doc rest ih =>
      rw [List.foldlM_cons, List.foldlM_cons, ← views doc held]
      cases store doc held with
      | none => rfl
      | some value => exact ih value

end Views

section Fields

variable {α : Type} {store : Store α} {members more : List (Bytes × Doc)} {name other : String}
  {held zero : α} {doc : Doc}

theorem storeField_absent (absent : valuesOf members name = []) :
    storeField store members name held = some held := by
  rw [storeField, absent]
  rfl

theorem storeField_once (once : valuesOf members name = [doc]) :
    storeField store members name held = store doc held := by
  rw [storeField, once]
  exact bind_pure _

theorem valuesOf_cons (member : Bytes × Doc) (members : List (Bytes × Doc)) (name : String) :
    valuesOf (member :: members) name =
      if isField name member.1 then member.2 :: valuesOf members name
      else valuesOf members name := by
  rw [valuesOf, List.filter_cons]
  split
  · rfl
  · rfl

end Fields

section Names

variable {name key : String} {chars : List Char}

def isSmall (char : Char) : Bool :=
  ('a' ≤ char && char ≤ 'z') || char = '_'

/-- A name of small letters. -/
def SmallName (name : String) : Prop :=
  ∀ char ∈ name.toList, isSmall char = true

instance (name : String) : Decidable (SmallName name) :=
  List.decidableBAll (fun char => isSmall char = true) name.toList

theorem unquoteFrom_self (noEscape : '\\' ∉ chars) :
    unquoteFrom .inString none chars = chars := by
  induction chars with
  | nil => rfl
  | cons char rest ih =>
      rw [List.mem_cons, not_or] at noEscape
      rw [unquoteFrom, if_neg (Ne.symm noEscape.1), ih noEscape.2]
      rfl

theorem toLower_foldRune {char : Char} (small : isSmall char = true) :
    (foldRune char).toLower = char := by
  have ascii : char.toNat < 128 := by
    simp only [isSmall, Bool.or_eq_true, Bool.and_eq_true, decide_eq_true_eq] at small
    rcases small with ⟨_, upTo⟩ | rfl
    · have bound : char.toNat ≤ 122 := upTo
      omega
    · decide
  have each : ∀ number < 128, isSmall (Char.ofNat number) = true →
      (foldRune (Char.ofNat number)).toLower = Char.ofNat number := by
    decide
  have same := each char.toNat ascii
  rw [Char.ofNat_toNat] at same
  exact same small

theorem map_toLower_foldRune (small : SmallName name) :
    (name.toList.map foldRune).map Char.toLower = name.toList := by
  rw [List.map_map]
  calc name.toList.map (Char.toLower ∘ foldRune) = name.toList.map id :=
        List.map_congr_left fun char inside => toLower_foldRune (small char inside)
    _ = name.toList := List.map_id _

/-- A member has the name of a field when its key is this name. -/
theorem isField_small (small : SmallName name) (smallKey : SmallName key) :
    isField name (bytesOf key) = decide (key = name) := by
  have noEscape : '\\' ∉ key.toList := fun inside => nomatch smallKey _ inside
  have reads : unquote (bytesOf key) = key := by
    rw [unquote, decodeText_bytesOf, unquoteFrom_self noEscape, String.ofList_toList]
  rw [isField, reads, decide_eq_decide]
  constructor
  · intro same
    apply String.toList_inj.mp
    rw [← map_toLower_foldRune small, ← map_toLower_foldRune smallKey, same]
  · intro same
    rw [same]

theorem isInner_small (small : SmallName key) : IsInner (bytesOf key) := by
  have goesOn : ∀ char, isSmall char = true → StringState.next .inString char = some .inString := by
    intro char smallChar
    have noQuote : char ≠ '"' := fun same => nomatch same ▸ smallChar
    have noEscape : char ≠ '\\' := fun same => nomatch same ▸ smallChar
    have noControl : ¬char < ' ' := by
      intro control
      have below : char.toNat < 32 := control
      have letter := toLower_foldRune smallChar
      simp only [isSmall, Bool.or_eq_true, Bool.and_eq_true, decide_eq_true_eq] at smallChar
      rcases smallChar with ⟨atLeast, _⟩ | rfl
      · have bound : 97 ≤ char.toNat := atLeast
        omega
      · exact absurd below (by decide)
    simp [StringState.next, noQuote, noEscape, noControl]
  rw [IsInner, stringAfter_eq, runes_bytesOf, List.map_map]
  have same : ∀ chars : List Char, chars.map (Rune.char ∘ Rune.valid) = chars :=
    fun chars => List.map_id' chars
  rw [same]
  unfold SmallName at small
  generalize key.toList = chars at small ⊢
  induction chars with
  | nil => rfl
  | cons char rest ih =>
      rw [List.forall_mem_cons] at small
      rw [List.foldlM_cons, goesOn char small.1]
      exact ih small.2

end Names

section Integers

variable {number : ℕ}

theorem digitsOf_eq (number : ℕ) : digitsOf number =
    if number < 10 then [UInt8.ofNat (48 + number)]
    else digitsOf (number / 10) ++ [UInt8.ofNat (48 + number % 10)] := by
  have digit : ∀ digit < 10, UInt8.ofNat digit.digitChar.toNat = UInt8.ofNat (48 + digit) := by
    decide
  rw [digitsOf, Nat.toDigits_eq_if (by omega)]
  split
  · rename_i small
    rw [List.map_singleton, digit number small]
  · rw [List.map_append, List.map_singleton, digit _ (Nat.mod_lt _ (by omega))]
    rfl

/-- The digits of a number are read as it, and the scanner takes them for a number. -/
theorem digitsOf_reads (number : ℕ) :
    (∀ byte ∈ digitsOf number, 0x30 ≤ byte ∧ byte ≤ 0x39) ∧ digitsValue (digitsOf number) = number ∧
      (digitsOf number).foldlM NumberState.next .neg =
        some (if number = 0 then .zero else .digits) := by
  have digit : ∀ digit < 10, (0x30 ≤ UInt8.ofNat (48 + digit) ∧ UInt8.ofNat (48 + digit) ≤ 0x39) ∧
      (UInt8.ofNat (48 + digit)).toNat - 48 = digit ∧
      NumberState.next .neg (UInt8.ofNat (48 + digit)) =
        some (if digit = 0 then .zero else .digits) ∧
      NumberState.next .digits (UInt8.ofNat (48 + digit)) = some .digits := by
    decide
  induction number using Nat.strong_induction_on with
  | _ number ih =>
      rw [digitsOf_eq]
      split
      · rename_i small
        rcases digit number small with ⟨isDigit, value, begins, _⟩
        refine ⟨by simpa using isDigit, ?_, ?_⟩
        · rw [digitsValue, List.foldl_cons, List.foldl_nil, value]
          omega
        · rw [List.foldlM_cons, begins]
          rfl
      · rename_i large
        rcases ih (number / 10) (by omega) with ⟨areDigits, value, reads⟩
        rcases digit (number % 10) (Nat.mod_lt _ (by omega)) with ⟨isDigit, last, _, goesOn⟩
        refine ⟨?_, ?_, ?_⟩
        · intro byte inside
          rcases List.mem_append.mp inside with early | isLast
          · exact areDigits byte early
          · rw [List.mem_singleton.mp isLast]
            exact isDigit
        · rw [digitsValue, List.foldl_append, ← digitsValue, value, List.foldl_cons, List.foldl_nil,
            last]
          omega
        · have before : ¬number / 10 = 0 := by omega
          have notZero : ¬number = 0 := by omega
          rw [List.foldlM_append, reads, if_neg before, if_neg notZero]
          change (List.foldlM NumberState.next NumberState.digits [_]) = _
          rw [List.foldlM_cons, goesOn]
          rfl

theorem digitsOf_ne_nil (number : ℕ) : digitsOf number ≠ [] := by
  simp [digitsOf]

theorem head_digitsOf (number : ℕ) : (digitsOf number).head? ≠ some 0x2d := by
  intro minus
  have isDigit := (digitsOf_reads number).1 _ (List.mem_of_mem_head? minus)
  exact absurd isDigit (by decide)

/-- An integer is written as a number. -/
theorem isNumber_intLiteral (number : ℤ) : IsNumber (intLiteral number) := by
  have reads := (digitsOf_reads number.natAbs).2.2
  refine ⟨if number.natAbs = 0 then .zero else .digits, ?_, ?_⟩
  · rw [intLiteral]
    split
    · exact reads
    · cases isDigits : digitsOf number.natAbs with
      | nil => exact absurd isDigits (digitsOf_ne_nil _)
      | cons first rest =>
          have noMinus := head_digitsOf number.natAbs
          rw [isDigits] at reads noMinus
          have notMinus : first ≠ 0x2d := by simpa using noMinus
          rw [numberAfter, NumberState.start, if_neg notMinus]
          exact reads
  · split <;> rfl

/-- An integer of 64 bits is read as it was written. -/
theorem integerOf_intLiteral {number : ℤ} (low : -2 ^ 63 ≤ number) (high : number < 2 ^ 63) :
    integerOf (intLiteral number) = some number := by
  rcases digitsOf_reads number.natAbs with ⟨areDigits, value, _⟩
  have allDigits : ((digitsOf number.natAbs).all fun byte => 0x30 ≤ byte && byte ≤ 0x39) = true := by
    simpa using areDigits
  rw [intLiteral, integerOf]
  split
  · rename_i negative
    have same : -(number.natAbs : ℤ) = number := by omega
    simp only [List.head?_cons, List.tail_cons, decide_true, if_true, value, same]
    rw [if_pos ⟨allDigits, low, high⟩]
  · rename_i positive
    have same : (number.natAbs : ℤ) = number := by omega
    simp only [head_digitsOf, decide_false, Bool.false_eq_true, if_false, value, same]
    rw [if_pos ⟨allDigits, low, high⟩]

end Integers

end MikroLLM.Go
