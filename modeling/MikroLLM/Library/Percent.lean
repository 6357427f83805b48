import Mathlib.Data.List.Basic
import Mathlib.Data.Nat.Notation
import Mathlib.Tactic.SplitIfs

/-!
# Percent-encoding

Bytes written as a percent sign with two hexadecimal digits, except those that a
scheme keeps. A scheme may write a space as a plus sign.
-/

namespace MikroLLM.Library

/-- The value of a hexadecimal digit. -/
def unhex (digit : UInt8) : Option UInt8 :=
  if 0x30 ≤ digit && digit ≤ 0x39 then some (digit - 0x30)
  else if 0x41 ≤ digit && digit ≤ 0x46 then some (digit - 0x37)
  else if 0x61 ≤ digit && digit ≤ 0x66 then some (digit - 0x57)
  else none

/-- The digit of a value below sixteen. -/
def hexDigit (value : UInt8) : UInt8 :=
  if value < 10 then 0x30 + value else 0x37 + value

/-- The bytes that a text writes; none where a percent sign lacks its digits. -/
def percentDecode (plus : Bool) : List UInt8 → Option (List UInt8)
  | [] => some []
  | byte :: rest =>
      if byte = 0x25 then
        match rest with
        | high :: low :: rest =>
            (unhex high).bind fun high => (unhex low).bind fun low =>
              (percentDecode plus rest).map ((16 * high + low) :: ·)
        | _ => none
      else (percentDecode plus rest).map ((if plus && byte = 0x2b then 0x20 else byte) :: ·)

/-- What is written for a byte. -/
def percentByte (keep : UInt8 → Bool) (plus : Bool) (byte : UInt8) : List UInt8 :=
  if plus && byte = 0x20 then [0x2b]
  else if keep byte then [byte]
  else [0x25, hexDigit (byte / 16), hexDigit (byte % 16)]

def percentEncode (keep : UInt8 → Bool) (plus : Bool) (bytes : List UInt8) : List UInt8 :=
  bytes.flatMap (percentByte keep plus)

section Decoding

variable {plus : Bool} {text more read : List UInt8} {byte : UInt8}

theorem percentDecode_nil : percentDecode plus [] = some [] :=
  rfl

theorem percentDecode_cons (differs : byte ≠ 0x25) (rest : List UInt8) :
    percentDecode plus (byte :: rest) =
      (percentDecode plus rest).map ((if plus && byte = 0x2b then 0x20 else byte) :: ·) := by
  rcases rest with _ | ⟨high, _ | ⟨low, rest⟩⟩ <;>
    exact if_neg differs

theorem percentDecode_percent (high low : UInt8) (rest : List UInt8) :
    percentDecode plus (0x25 :: high :: low :: rest) =
      (unhex high).bind fun high => (unhex low).bind fun low =>
        (percentDecode plus rest).map ((16 * high + low) :: ·) :=
  if_pos rfl

/-- What stands behind a percent sign that lacks its digits. -/
def Digitless (rest : List UInt8) : Prop :=
  ∀ high low more, rest ≠ high :: low :: more

theorem percentDecode_cut {rest : List UInt8} (lacks : Digitless rest) :
    percentDecode plus (0x25 :: rest) = none := by
  rcases rest with _ | ⟨high, _ | ⟨low, rest⟩⟩
  · rfl
  · rfl
  · exact absurd rfl (lacks high low rest)

/-- A text is read from its front, an encoded byte or any other byte at a time. -/
@[elab_as_elim]
theorem percentDecode_induction {motive : List UInt8 → Prop} (text : List UInt8)
    (nil : motive [])
    (percent : ∀ high low rest, motive rest → motive (0x25 :: high :: low :: rest))
    (cut : ∀ rest, Digitless rest → motive (0x25 :: rest))
    (plain : ∀ byte rest, byte ≠ 0x25 → motive rest → motive (byte :: rest)) : motive text := by
  induction text using percentDecode.induct with
  | case1 => exact nil
  | case2 high low rest ih => exact percent high low rest ih
  | case3 rest short => exact cut rest short
  | case4 byte rest differs ih => exact plain byte rest differs ih

/-- A text in front that can be read is read by itself. -/
theorem percentDecode_append (reads : percentDecode plus text = some read) (more : List UInt8) :
    percentDecode plus (text ++ more) = (percentDecode plus more).map (read ++ ·) := by
  induction text using percentDecode_induction generalizing read with
  | nil =>
      cases reads
      simp
  | percent high low rest ih =>
      simp only [percentDecode_percent, Option.bind_eq_some_iff, Option.map_eq_some_iff] at reads
      rcases reads with ⟨first, firstRead, second, secondRead, later, laterRead, rfl⟩
      simp only [List.cons_append, percentDecode_percent, firstRead, secondRead, Option.bind_some]
      rw [ih laterRead, Option.map_map]
      rfl
  | cut rest lacks =>
      rw [percentDecode_cut lacks] at reads
      cases reads
  | plain byte rest differs ih =>
      rw [percentDecode_cons differs] at reads
      simp only [Option.map_eq_some_iff] at reads
      rcases reads with ⟨later, laterRead, rfl⟩
      rw [List.cons_append, percentDecode_cons differs, ih laterRead, Option.map_map]
      rfl

/-- A text is not read as more bytes than it has. -/
theorem length_percentDecode (reads : percentDecode plus text = some read) :
    read.length ≤ text.length ∧ (read.length = text.length → 0x25 ∉ text) := by
  induction text using percentDecode_induction generalizing read with
  | nil =>
      cases reads
      simp
  | percent high low rest ih =>
      simp only [percentDecode_percent, Option.bind_eq_some_iff, Option.map_eq_some_iff] at reads
      rcases reads with ⟨first, _, second, _, later, laterRead, rfl⟩
      have shorter := (ih laterRead).1
      simp only [List.length_cons]
      constructor
      · omega
      · omega
  | cut rest lacks =>
      rw [percentDecode_cut lacks] at reads
      cases reads
  | plain byte rest differs ih =>
      rw [percentDecode_cons differs] at reads
      simp only [Option.map_eq_some_iff] at reads
      rcases reads with ⟨later, laterRead, rfl⟩
      rcases ih laterRead with ⟨shorter, plain⟩
      simp only [List.length_cons, List.mem_cons, not_or]
      constructor
      · omega
      · intro same
        exact ⟨Ne.symm differs, plain (by omega)⟩

/-- A text without percent signs is read as it is. -/
theorem percentDecode_plain (plain : 0x25 ∉ text) : percentDecode false text = some text := by
  induction text with
  | nil => rfl
  | cons byte rest ih =>
      rw [List.mem_cons, not_or] at plain
      rw [percentDecode_cons (Ne.symm plain.1), ih plain.2]
      rfl

/-- A byte that is no digit and no percent sign separates what can be read. -/
theorem percentDecode_separated {separator : UInt8} (noDigit : unhex separator = none)
    (noPercent : separator ≠ 0x25) (noPlus : separator ≠ 0x2b)
    (reads : percentDecode plus (text ++ separator :: more) = some read) :
    ∃ front back, percentDecode plus text = some front ∧ percentDecode plus more = some back ∧
      read = front ++ separator :: back := by
  induction text using percentDecode_induction generalizing read with
  | nil =>
      rw [List.nil_append, percentDecode_cons noPercent] at reads
      simp only [Option.map_eq_some_iff] at reads
      rcases reads with ⟨back, backRead, rfl⟩
      exact ⟨[], back, rfl, backRead, by simp [noPlus]⟩
  | percent high low rest ih =>
      simp only [List.cons_append, percentDecode_percent, Option.bind_eq_some_iff,
        Option.map_eq_some_iff] at reads
      rcases reads with ⟨first, firstRead, second, secondRead, later, laterRead, rfl⟩
      rcases ih laterRead with ⟨front, back, frontRead, backRead, rfl⟩
      refine ⟨(16 * first + second) :: front, back, ?_, backRead, rfl⟩
      simp [percentDecode_percent, firstRead, secondRead, frontRead]
  | cut rest lacks =>
      -- the separator would have to be a digit
      exfalso
      rcases rest with _ | ⟨high, _ | ⟨low, rest⟩⟩
      · cases more with
        | nil => cases reads
        | cons low more => simp [percentDecode_percent, noDigit] at reads
      · cases unhex high with
        | none => simp [percentDecode_percent, noDigit] at reads
        | some value => simp [percentDecode_percent, noDigit] at reads
      · exact lacks high low rest rfl
  | plain byte rest differs ih =>
      rw [List.cons_append, percentDecode_cons differs] at reads
      simp only [Option.map_eq_some_iff] at reads
      rcases reads with ⟨later, laterRead, rfl⟩
      rcases ih laterRead with ⟨front, back, frontRead, backRead, rfl⟩
      refine ⟨(if plus && byte = 0x2b then 0x20 else byte) :: front, back, ?_, backRead, rfl⟩
      rw [percentDecode_cons differs, frontRead]
      rfl

end Decoding

section Encoding

variable {keep : UInt8 → Bool} {plus : Bool} {bytes : List UInt8}

theorem forall_byte {property : UInt8 → Prop}
    (all : ∀ high low : Fin 16, property (UInt8.ofNat (16 * high + low))) (byte : UInt8) :
    property byte := by
  have small := byte.toNat_lt
  have whole : UInt8.ofNat (16 * (byte.toNat / 16) + byte.toNat % 16) = byte := by
    rw [Nat.div_add_mod, UInt8.ofNat_toNat]
  rw [← whole]
  exact all ⟨byte.toNat / 16, by omega⟩ ⟨byte.toNat % 16, by omega⟩

theorem unhex_hexDigit : ∀ value : UInt8, value < 16 → unhex (hexDigit value) = some value := by
  apply forall_byte
  decide

theorem sixteen_div_mod : ∀ byte : UInt8,
    byte / 16 < 16 ∧ byte % 16 < 16 ∧ 16 * (byte / 16) + byte % 16 = byte := by
  apply forall_byte
  decide

theorem percentDecode_percentByte (keepsNoPercent : keep 0x25 = false)
    (keepsNoPlus : plus = true → keep 0x2b = false) (byte : UInt8) :
    percentDecode plus (percentByte keep plus byte) = some [byte] := by
  unfold percentByte
  split_ifs with space kept
  · simp only [Bool.and_eq_true, decide_eq_true_eq] at space
    rw [space.1, space.2]
    rfl
  · have differs : byte ≠ 0x25 := by
      rintro rfl
      simp [keepsNoPercent] at kept
    have noPlus : (plus && byte = 0x2b) = false := by
      rw [Bool.and_eq_false_iff, decide_eq_false_iff_not]
      by_cases isPlus : byte = 0x2b
      · subst isPlus
        left
        cases plus with
        | false => rfl
        | true => simp [keepsNoPlus rfl] at kept
      · exact Or.inr isPlus
    rw [percentDecode_cons differs, noPlus]
    rfl
  · rcases sixteen_div_mod byte with ⟨highSmall, lowSmall, sum⟩
    rw [percentDecode_percent, unhex_hexDigit _ highSmall, unhex_hexDigit _ lowSmall]
    simp [percentDecode_nil, sum]

/-- What is encoded is read back. -/
theorem percentDecode_percentEncode (keepsNoPercent : keep 0x25 = false)
    (keepsNoPlus : plus = true → keep 0x2b = false) (bytes : List UInt8) :
    percentDecode plus (percentEncode keep plus bytes) = some bytes := by
  induction bytes with
  | nil => rfl
  | cons byte rest ih =>
      unfold percentEncode at ih ⊢
      rw [List.flatMap_cons,
        percentDecode_append (percentDecode_percentByte keepsNoPercent keepsNoPlus byte), ih]
      rfl

theorem hexDigit_cases : ∀ value : UInt8, value < 16 →
    (0x30 ≤ hexDigit value ∧ hexDigit value ≤ 0x39) ∨
      (0x41 ≤ hexDigit value ∧ hexDigit value ≤ 0x46) := by
  apply forall_byte
  decide

/-- An encoded text has only bytes that are kept, percent and plus signs, and digits. -/
theorem mem_percentEncode {char : UInt8} (inside : char ∈ percentEncode keep plus bytes) :
    char ∈ bytes ∧ keep char = true ∨ char = 0x25 ∨ char = 0x2b ∧ plus = true ∨
      (0x30 ≤ char ∧ char ≤ 0x39) ∨ (0x41 ≤ char ∧ char ≤ 0x46) := by
  rcases List.mem_flatMap.mp inside with ⟨byte, byteInside, written⟩
  rcases sixteen_div_mod byte with ⟨highSmall, lowSmall, _⟩
  unfold percentByte at written
  split_ifs at written with space kept
  · simp only [Bool.and_eq_true] at space
    rw [List.mem_singleton] at written
    exact Or.inr (Or.inr (Or.inl ⟨written, space.1⟩))
  · rw [List.mem_singleton] at written
    subst written
    exact Or.inl ⟨byteInside, kept⟩
  · simp only [List.mem_cons, List.not_mem_nil, or_false] at written
    rcases written with rfl | rfl | rfl
    · exact Or.inr (Or.inl rfl)
    · exact Or.inr (Or.inr (Or.inr (hexDigit_cases _ highSmall)))
    · exact Or.inr (Or.inr (Or.inr (hexDigit_cases _ lowSmall)))

end Encoding

end MikroLLM.Library
