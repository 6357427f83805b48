import Mathlib.Algebra.Group.Nat.Defs
import Mathlib.Data.List.DropRight

/-!
# Strings of the Go standard library

The functions of package `strings` that the gateway uses, on Lean's strings.
Both are sequences of Unicode code points; only valid UTF-8 is represented.
-/

namespace MikroLLM.Go

/-- `unicode.IsSpace`: the code points with the White_Space property. -/
def isSpace (char : Char) : Bool :=
  char ∈ ['\t', '\n', '\x0b', '\x0c', '\r', ' ', '\u0085', '\u00a0', '\u1680', '\u2028',
    '\u2029', '\u202f', '\u205f', '\u3000'] ||
    ('\u2000' ≤ char && char ≤ '\u200a')

/-- `strings.TrimSpace`. -/
def trimSpace (text : String) : String :=
  String.ofList ((text.toList.dropWhile isSpace).rdropWhile isSpace)

/-- `strings.TrimRight`, for one character. -/
def trimRight (text : String) (char : Char) : String :=
  String.ofList (text.toList.rdropWhile (· = char))

theorem dropWhile_of_prefix {chars kept : List Char} (keptPrefix : kept <+: chars)
    (stripped : chars.dropWhile isSpace = chars) : kept.dropWhile isSpace = kept := by
  rw [List.dropWhile_eq_self_iff] at stripped ⊢
  intro nonempty
  rw [keptPrefix.getElem nonempty]
  exact stripped (nonempty.trans_le keptPrefix.length_le)

@[simp]
theorem trimSpace_trimSpace (text : String) : trimSpace (trimSpace text) = trimSpace text := by
  have stripped := List.dropWhile_idempotent isSpace text.toList
  have keeps := dropWhile_of_prefix (List.rdropWhile_prefix isSpace _) stripped
  simp only [trimSpace, String.toList_ofList]
  rw [keeps, List.rdropWhile_idempotent]

theorem trimRight_trimRight (text : String) (char : Char) :
    trimRight (trimRight text char) char = trimRight text char := by
  simp only [trimRight, String.toList_ofList, List.rdropWhile_idempotent]

/-- The loop of `strconv.ParseUint` in base ten: `none` for a syntax error, the greatest value for
a range error, which the loop finds before it has read the rest. -/
def parseUint (read : ℕ) : List Char → Option ℕ
  | [] => some read
  | char :: rest =>
      if char.isDigit then
        let value := 10 * read + (char.toNat - '0'.toNat)
        if 2 ^ 64 ≤ value then some (2 ^ 64 - 1) else parseUint value rest
      else none

/-- The value that `strconv.ParseInt` returns in base ten, together with its error or without. -/
def parseInt (text : String) : ℤ :=
  let signed : Bool × List Char :=
    match text.toList with
    | '-' :: rest => (true, rest)
    | '+' :: rest => (false, rest)
    | chars => (false, chars)
  if signed.2 = [] then 0
  else
    match parseUint 0 signed.2 with
    | none => 0
    | some value => if signed.1 then -(min value (2 ^ 63) : ℕ) else (min value (2 ^ 63 - 1) : ℕ)

theorem le_ofDigitChars (digits : List Char) (read : ℕ) : read ≤ Nat.ofDigitChars 10 digits read := by
  induction digits generalizing read with
  | nil => simp
  | cons char rest ih =>
      rw [Nat.ofDigitChars_cons]
      have later := ih (10 * read + (char.toNat - '0'.toNat))
      omega

/-- Digits are read as the number they write, or as the greatest value. -/
theorem parseUint_digits {digits : List Char} (areDigits : ∀ char ∈ digits, char.isDigit = true)
    {read : ℕ} (small : read < 2 ^ 64) :
    parseUint read digits = some (min (Nat.ofDigitChars 10 digits read) (2 ^ 64 - 1)) := by
  induction digits generalizing read with
  | nil =>
      have fits : min read (2 ^ 64 - 1) = read := by omega
      rw [parseUint, Nat.ofDigitChars_nil, fits]
  | cons char rest ih =>
      rw [List.forall_mem_cons] at areDigits
      have bounded := le_ofDigitChars rest (10 * read + (char.toNat - '0'.toNat))
      simp only [parseUint, areDigits.1, if_true, Nat.ofDigitChars_cons]
      split
      · rw [min_eq_right (by omega)]
      · exact ih areDigits.2 (by omega)

/-- A number is read as it is written, up to the greatest value. -/
theorem parseInt_toString (n : ℕ) : parseInt (toString n) = (min n (2 ^ 63 - 1) : ℕ) := by
  have digits : ∀ char ∈ Nat.toDigits 10 n, char.isDigit = true :=
    fun char inside => Nat.isDigit_of_mem_toDigits (by omega) (by omega) inside
  have chars : (toString n).toList = Nat.toDigits 10 n := Nat.toList_repr
  have parsed := parseUint_digits digits (show 0 < 2 ^ 64 by omega)
  rw [Nat.ofDigitChars_ten_toDigits] at parsed
  unfold parseInt
  split
  · rename_i rest starts
    rw [← chars, starts] at digits
    exact absurd (digits '-' List.mem_cons_self) (by decide)
  · rename_i rest starts
    rw [← chars, starts] at digits
    exact absurd (digits '+' List.mem_cons_self) (by decide)
  · have written : ¬Nat.toDigits 10 n = [] := Nat.toDigits_ne_nil
    simp only [chars, if_neg written, parsed, Bool.false_eq_true, if_false]
    congr 1
    omega

end MikroLLM.Go
