import Mathlib.Data.List.DropRight
import MikroLLM.Go.Strings
import MikroLLM.Go.Writer
import MikroLLM.Library.Percent

/-!
# Package `unicode/utf8`

A string of Go is a sequence of bytes. Reading it character by character gives
the characters whose encoding stands there, and one error for each other byte.
-/

namespace MikroLLM.Go

/-- A character of a string, or a byte that is not part of any. -/
inductive Rune
  | valid (char : Char)
  | invalid (byte : UInt8)
  deriving DecidableEq

/-- The bytes that a rune stands for. -/
def Rune.bytes : Rune → Bytes
  | valid char => String.utf8EncodeChar char
  | invalid byte => [byte]

/-- The character that a range loop gives. -/
def Rune.char : Rune → Char
  | valid char => char
  | invalid _ => '\ufffd'

/-- `utf8.DecodeRune`. -/
def decodeRune (bytes : Bytes) : Option Char :=
  bytes.toByteArray.utf8DecodeChar? 0

/-- The runes after some bytes that belong to the rune before. -/
def runesFrom : ℕ → Bytes → List Rune
  | _, [] => []
  | skip + 1, _ :: rest => runesFrom skip rest
  | 0, byte :: rest =>
      match decodeRune (byte :: rest) with
      | some char => .valid char :: runesFrom (char.utf8Size - 1) rest
      | none => .invalid byte :: runesFrom 0 rest

def runes (bytes : Bytes) : List Rune :=
  runesFrom 0 bytes

/-- `utf8.Valid`. -/
def validUTF8 (bytes : Bytes) : Bool :=
  (runes bytes).all fun rune => rune matches .valid _

/-- The characters of the string, with the replacement character for each error. -/
def decodeText (bytes : Bytes) : String :=
  String.ofList ((runes bytes).map Rune.char)

def Rune.isSpace : Rune → Bool
  | valid char => Go.isSpace char
  | invalid _ => false

/-- `strings.TrimSpace`, on any bytes. -/
def trimBytes (bytes : Bytes) : Bytes :=
  (((runes bytes).dropWhile Rune.isSpace).rdropWhile Rune.isSpace).flatMap Rune.bytes

section Runes

variable {bytes rest : Bytes} {char : Char}

theorem decodeRune_encode (char : Char) (rest : Bytes) :
    decodeRune (String.utf8EncodeChar char ++ rest) = some char := by
  rw [decodeRune, List.toByteArray_append]
  exact ByteArray.utf8DecodeChar?_utf8EncodeChar_append

theorem eq_of_decodeRune (decodes : decodeRune bytes = some char) :
    ∃ rest, bytes = String.utf8EncodeChar char ++ rest := by
  rcases ByteArray.exists_of_utf8DecodeChar?_eq_some decodes with ⟨rest, same⟩
  refine ⟨rest.data.toList, ?_⟩
  have sameData := congrArg (fun array : ByteArray => array.data.toList) same
  simpa using sameData

theorem runesFrom_drop (skip : ℕ) (bytes : Bytes) :
    runesFrom skip bytes = runes (bytes.drop skip) := by
  induction skip generalizing bytes with
  | zero => rfl
  | succ skip ih =>
      cases bytes with
      | nil => simp [runes, runesFrom]
      | cons byte rest => exact ih rest

/-- A character in front is read as such. -/
theorem runes_encode (char : Char) (rest : Bytes) :
    runes (String.utf8EncodeChar char ++ rest) = .valid char :: runes rest := by
  have decodes := decodeRune_encode char rest
  have size : (String.utf8EncodeChar char).length = char.utf8Size := String.length_utf8EncodeChar char
  have positive := char.utf8Size_pos
  cases encoded : String.utf8EncodeChar char with
  | nil =>
      rw [encoded] at size
      simp only [List.length_nil] at size
      omega
  | cons byte more =>
      rw [encoded, List.length_cons] at size
      rw [encoded] at decodes
      have skipped : char.utf8Size - 1 = more.length := by omega
      simp only [List.cons_append] at decodes ⊢
      rw [runes, runesFrom, decodes]
      simp only [runesFrom_drop, skipped, List.drop_left]

theorem runes_bytesOf_append (text : String) (rest : Bytes) :
    runes (bytesOf text ++ rest) = text.toList.map .valid ++ runes rest := by
  unfold bytesOf
  induction text.toList with
  | nil => rfl
  | cons char chars ih =>
      rw [List.flatMap_cons, List.append_assoc, runes_encode, ih, List.map_cons, List.cons_append]

@[simp]
theorem runes_bytesOf (text : String) : runes (bytesOf text) = text.toList.map .valid := by
  simpa [runes, runesFrom] using runes_bytesOf_append text []

/-- The runes stand for all of the bytes. -/
theorem bytes_runes (bytes : Bytes) : (runes bytes).flatMap Rune.bytes = bytes := by
  induction length : bytes.length using Nat.strong_induction_on generalizing bytes with
  | _ size ih =>
      cases bytes with
      | nil => rfl
      | cons byte rest =>
          cases decodes : decodeRune (byte :: rest) with
          | none =>
              rw [runes, runesFrom, decodes]
              simp only [List.flatMap_cons, Rune.bytes, List.singleton_append, List.cons.injEq,
                true_and]
              rw [List.length_cons] at length
              exact ih rest.length (by omega) rest rfl
          | some char =>
              rcases eq_of_decodeRune decodes with ⟨more, same⟩
              rw [same, runes_encode, List.flatMap_cons, Rune.bytes]
              rw [same, List.length_append, String.length_utf8EncodeChar] at length
              have positive := char.utf8Size_pos
              rw [ih more.length (by omega) more rfl]

@[simp]
theorem decodeText_bytesOf (text : String) : decodeText (bytesOf text) = text := by
  have same : text.toList.map (Rune.char ∘ Rune.valid) = text.toList := List.map_id' _
  rw [decodeText, runes_bytesOf, List.map_map, same, String.ofList_toList]

theorem bytesOf_injective : Function.Injective bytesOf :=
  Function.LeftInverse.injective decodeText_bytesOf

/-- The valid strings are the encodings of texts. -/
theorem validUTF8_iff : validUTF8 bytes = true ↔ bytesOf (decodeText bytes) = bytes := by
  constructor
  · intro valid
    have encodes : ∀ rune ∈ runes bytes, String.utf8EncodeChar rune.char = rune.bytes := by
      intro rune inside
      have isValid := List.all_eq_true.mp valid rune inside
      cases rune with
      | valid char => rfl
      | invalid byte => exact nomatch isValid
    rw [bytesOf, decodeText, String.toList_ofList, List.flatMap_map]
    rw [List.flatMap_congr encodes, bytes_runes]
  · intro same
    rw [validUTF8, ← same, runes_bytesOf]
    simp

theorem trimBytes_bytesOf (text : String) : trimBytes (bytesOf text) = bytesOf (trimSpace text) := by
  have spaces : Rune.isSpace ∘ Rune.valid = Go.isSpace := rfl
  rw [trimBytes, runes_bytesOf, List.dropWhile_map, spaces]
  rw [List.rdropWhile, ← List.map_reverse, List.dropWhile_map, spaces, ← List.map_reverse]
  rw [List.flatMap_map, bytesOf, trimSpace, String.toList_ofList]
  rfl

theorem encode_ascii (ascii : char.toNat < 128) :
    String.utf8EncodeChar char = [UInt8.ofNat char.toNat] := by
  have small : char.val.toNat ≤ 0x7f := by
    change char.toNat ≤ 0x7f
    omega
  simp only [String.utf8EncodeChar, small, if_true]
  rfl

/-- The bytes of a character that is not ASCII are not ASCII. -/
theorem encode_high (high : 128 ≤ char.toNat) :
    ∀ byte ∈ String.utf8EncodeChar char, 128 ≤ byte.toNat := by
  have notSmall : ¬char.val.toNat ≤ 0x7f := by
    change ¬char.toNat ≤ 0x7f
    omega
  intro byte inside
  simp only [String.utf8EncodeChar, if_neg notSmall] at inside
  split_ifs at inside <;> simp only [List.mem_cons, List.not_mem_nil, or_false] at inside <;>
    rcases inside with rfl | rfl | rfl | rfl <;> rw [UInt8.toNat_ofNat'] <;> omega

theorem runes_ascii {byte : UInt8} (ascii : byte.toNat < 128) (rest : Bytes) :
    runes (byte :: rest) = .valid (Char.ofNat byte.toNat) :: runes rest := by
  have encodes : String.utf8EncodeChar (Char.ofNat byte.toNat) = [byte] := by
    revert ascii
    revert byte
    apply Library.forall_byte
    decide
  have reads := runes_encode (Char.ofNat byte.toNat) rest
  rwa [encodes] at reads

/-- The runes of a string: none, a character with what follows, or a byte that begins none. -/
theorem runes_cases (bytes : Bytes) :
    bytes = [] ∨ (∃ char rest, bytes = String.utf8EncodeChar char ++ rest ∧
      runes bytes = .valid char :: runes rest) ∨
    ∃ byte rest, bytes = byte :: rest ∧ decodeRune bytes = none ∧ 128 ≤ byte.toNat ∧
      runes bytes = .invalid byte :: runes rest := by
  cases bytes with
  | nil => exact Or.inl rfl
  | cons byte rest =>
      right
      cases decodes : decodeRune (byte :: rest) with
      | some char =>
          rcases eq_of_decodeRune decodes with ⟨more, same⟩
          exact Or.inl ⟨char, more, same, same ▸ runes_encode char more⟩
      | none =>
          have reads : runes (byte :: rest) = .invalid byte :: runes rest := by
            rw [runes, runesFrom, decodes]
            rfl
          refine Or.inr ⟨byte, rest, rfl, rfl, ?_, reads⟩
          by_contra ascii
          rw [runes_ascii (by omega)] at reads
          simp at reads

theorem invalid_high {byte : UInt8} (inside : .invalid byte ∈ runes bytes) : 128 ≤ byte.toNat := by
  induction length : bytes.length using Nat.strong_induction_on generalizing bytes with
  | _ size ih =>
      rcases runes_cases bytes with rfl | ⟨char, rest, rfl, reads⟩ | ⟨other, rest, rfl, _, high, reads⟩
      · simp [runes, runesFrom] at inside
      · rw [reads, List.mem_cons] at inside
        rw [List.length_append, String.length_utf8EncodeChar] at length
        have positive := char.utf8Size_pos
        rcases inside with same | later
        · exact nomatch same
        · exact ih rest.length (by omega) later rfl
      · rw [reads, List.mem_cons] at inside
        rw [List.length_cons] at length
        rcases inside with same | later
        · rw [Rune.invalid.inj same]
          exact high
        · exact ih rest.length (by omega) later rfl

theorem decodeRune_of_isPrefix (begins : String.utf8EncodeChar char <+: bytes) :
    decodeRune bytes = some char := by
  rcases begins with ⟨rest, rfl⟩
  exact decodeRune_encode char rest

/-- Bytes that are not ASCII and stand in front end before the first ASCII byte. -/
theorem isPrefix_of_high {text more : Bytes} {byte : UInt8} (ascii : byte.toNat < 128)
    (high : ∀ other ∈ text, 128 ≤ other.toNat) (begins : text <+: more ++ byte :: rest) :
    text <+: more := by
  induction text generalizing more with
  | nil => exact List.nil_prefix
  | cons first text ih =>
      rw [List.forall_mem_cons] at high
      cases more with
      | nil =>
          rw [List.nil_append, List.cons_prefix_cons] at begins
          rw [begins.1] at high
          omega
      | cons second more =>
          rw [List.cons_append, List.cons_prefix_cons] at begins
          rw [begins.1, List.cons_prefix_cons]
          exact ⟨rfl, ih high.2 begins.2⟩

/-- A byte that begins no character begins none when other bytes follow, unless those that were
not ASCII follow on. -/
theorem decodeRune_none {byte : UInt8} {before after : Bytes} (high : 128 ≤ byte.toNat)
    (stops : decodeRune (byte :: before) = none)
    (kept : ∀ text : Bytes, (∀ other ∈ text, 128 ≤ other.toNat) → text <+: after → text <+: before) :
    decodeRune (byte :: after) = none := by
  cases decodes : decodeRune (byte :: after) with
  | none => rfl
  | some char =>
      exfalso
      rcases eq_of_decodeRune decodes with ⟨tail, same⟩
      have notAscii : 128 ≤ char.toNat := by
        by_contra small
        rw [encode_ascii (by omega), List.singleton_append, List.cons.injEq] at same
        rw [same.1, UInt8.toNat_ofNat'] at high
        omega
      have allHigh := encode_high notAscii
      cases encoded : String.utf8EncodeChar char with
      | nil => exact String.utf8EncodeChar_ne_nil encoded
      | cons first text =>
          rw [encoded, List.cons_append, List.cons.injEq] at same
          rw [encoded, List.forall_mem_cons] at allHigh
          have inFront := kept text allHigh.2 ⟨tail, same.2.symm⟩
          have found : decodeRune (byte :: before) = some char := by
            apply decodeRune_of_isPrefix
            rw [encoded, ← same.1, List.cons_prefix_cons]
            exact ⟨rfl, inFront⟩
          rw [stops] at found
          exact nomatch found

/-- An ASCII byte begins a rune of its own, whatever stands before it. -/
theorem runes_append {byte : UInt8} (ascii : byte.toNat < 128) (bytes rest : Bytes) :
    runes (bytes ++ byte :: rest) = runes bytes ++ runes (byte :: rest) := by
  induction length : bytes.length using Nat.strong_induction_on generalizing bytes with
  | _ size ih =>
      rcases runes_cases bytes with rfl | ⟨char, more, rfl, reads⟩ | ⟨other, more, rfl, stops, high,
        reads⟩
      · rfl
      · rw [List.length_append, String.length_utf8EncodeChar] at length
        have positive := char.utf8Size_pos
        rw [reads, List.append_assoc, runes_encode, ih more.length (by omega) more rfl,
          List.cons_append]
      · rw [List.length_cons] at length
        have stopsHere : decodeRune (other :: (more ++ byte :: rest)) = none :=
          decodeRune_none high stops fun _ allHigh => isPrefix_of_high ascii allHigh
        rw [List.cons_append, runes, runesFrom, stopsHere, reads]
        simp only [List.cons_append, List.cons.injEq, true_and]
        exact ih more.length (by omega) more rfl

end Runes

section Replacing

variable {replaces : Char → Option String} {bytes : Bytes}

/-- A rune with some characters replaced by texts. -/
def Rune.replace (replaces : Char → Option String) : Rune → List Rune
  | valid char =>
      match replaces char with
      | some text => text.toList.map valid
      | none => [valid char]
  | invalid byte => [invalid byte]

/-- A string with some characters replaced by texts. -/
def replaceRunes (replaces : Char → Option String) (bytes : Bytes) : Bytes :=
  ((runes bytes).flatMap (Rune.replace replaces)).flatMap Rune.bytes

/-- The texts that replace characters are not empty and begin with an ASCII character. -/
def ReplacesByAscii (replaces : Char → Option String) : Prop :=
  ∀ char text, replaces char = some text →
    ∃ byte rest, bytesOf text = byte :: rest ∧ byte.toNat < 128

theorem replaceRunes_valid (char : Char) (rest : Bytes) :
    replaceRunes replaces (String.utf8EncodeChar char ++ rest) =
      ((Rune.replace replaces (.valid char)).flatMap Rune.bytes) ++ replaceRunes replaces rest := by
  rw [replaceRunes, runes_encode, List.flatMap_cons, List.flatMap_append]
  rfl

theorem bytes_replace (char : Char) : (Rune.replace replaces (.valid char)).flatMap Rune.bytes =
    match replaces char with
    | some text => bytesOf text
    | none => String.utf8EncodeChar char := by
  cases replaced : replaces char with
  | none => simp [Rune.replace, replaced, Rune.bytes]
  | some text =>
      simp only [Rune.replace, replaced, List.flatMap_map]
      rfl

/-- What is not ASCII in front of the replaced string stood in front of the string. -/
theorem isPrefix_of_replaceRunes (ascii : ReplacesByAscii replaces) {text : Bytes}
    (high : ∀ byte ∈ text, 128 ≤ byte.toNat) (begins : text <+: replaceRunes replaces bytes) :
    text <+: bytes := by
  induction length : bytes.length using Nat.strong_induction_on generalizing bytes text with
  | _ size ih =>
      rcases runes_cases bytes with rfl | ⟨char, rest, rfl, reads⟩ | ⟨byte, rest, rfl, stops, _,
        reads⟩
      · exact begins
      · rw [List.length_append, String.length_utf8EncodeChar] at length
        have positive := char.utf8Size_pos
        rw [replaceRunes_valid, bytes_replace] at begins
        cases replaced : replaces char with
        | some other =>
            rcases ascii char other replaced with ⟨byte, tail, isText, isAscii⟩
            simp only [replaced, isText, List.cons_append] at begins
            have empty : text <+: [] := isPrefix_of_high isAscii high begins
            rw [List.prefix_nil.mp empty]
            exact List.nil_prefix
        | none =>
            simp only [replaced] at begins
            rcases List.prefix_or_prefix_of_prefix begins (List.prefix_append _ _) with within | longer
            · exact within.trans (List.prefix_append _ _)
            · rcases longer with ⟨tail, rfl⟩
              rw [List.prefix_append_right_inj] at begins ⊢
              exact ih rest.length (by omega)
                (fun byte inside => high byte (List.mem_append_right _ inside)) begins rfl
      · rw [List.length_cons] at length
        have splits : replaceRunes replaces (byte :: rest) = byte :: replaceRunes replaces rest := by
          rw [replaceRunes, reads]
          rfl
        rw [splits] at begins
        cases text with
        | nil => exact List.nil_prefix
        | cons first text =>
            rw [List.forall_mem_cons] at high
            rw [List.cons_prefix_cons] at begins ⊢
            exact ⟨begins.1, ih rest.length (by omega) high.2 begins.2 rfl⟩

/-- The runes of the replaced string are the runes of the string, replaced one by one. -/
theorem runes_replaceRunes (ascii : ReplacesByAscii replaces) (bytes : Bytes) :
    runes (replaceRunes replaces bytes) = (runes bytes).flatMap (Rune.replace replaces) := by
  induction length : bytes.length using Nat.strong_induction_on generalizing bytes with
  | _ size ih =>
      rcases runes_cases bytes with rfl | ⟨char, rest, rfl, reads⟩ | ⟨byte, rest, rfl, stops, high,
        reads⟩
      · rfl
      · rw [List.length_append, String.length_utf8EncodeChar] at length
        have positive := char.utf8Size_pos
        rw [replaceRunes_valid, bytes_replace, reads, List.flatMap_cons,
          ← ih rest.length (by omega) rest rfl]
        cases replaced : replaces char with
        | none =>
            simp only [Rune.replace, replaced]
            exact runes_encode char _
        | some text =>
            simp only [Rune.replace, replaced]
            exact runes_bytesOf_append text _
      · rw [List.length_cons] at length
        have splits : replaceRunes replaces (byte :: rest) = byte :: replaceRunes replaces rest := by
          rw [replaceRunes, reads]
          rfl
        have stopsHere : decodeRune (byte :: replaceRunes replaces rest) = none :=
          decodeRune_none high stops fun _ allHigh => isPrefix_of_replaceRunes ascii allHigh
        rw [splits, runes, runesFrom, stopsHere, reads, List.flatMap_cons]
        simp only [Rune.replace, List.singleton_append, List.cons.injEq, true_and]
        exact ih rest.length (by omega) rest rfl

end Replacing

end MikroLLM.Go
