import Mathlib.Data.List.Infix
import Mathlib.Data.Nat.Notation

/-!
# Searching in texts

More of package `strings`. What rests on the tables of Unicode, and the regular
expressions, are functions a `TextLibrary` supplies.
-/

namespace MikroLLM.Go

/-- `strings.HasPrefix`. -/
def hasPrefix (text part : String) : Bool :=
  part.toList.isPrefixOf text.toList

/-- `strings.TrimPrefix`. -/
def trimPrefix (text part : String) : String :=
  if hasPrefix text part then String.ofList (text.toList.drop part.length) else text

/-- `strings.HasSuffix`. -/
def hasSuffix (text part : String) : Bool :=
  part.toList.isSuffixOf text.toList

/-- `strings.Split`, at one character. -/
def split (text : String) (separator : Char) : List String :=
  (text.toList.splitOn separator).map String.ofList

/-- `strings.Contains`. -/
def contains (text part : String) : Bool :=
  part.toList <:+: text.toList

/-- `strings.Join`. -/
def join (parts : List String) (separator : String) : String :=
  separator.intercalate parts

/-- The UTF-8 bytes of a text. -/
def bytesOf (text : String) : List UInt8 :=
  text.toList.flatMap String.utf8EncodeChar

/-- The characters within the first bytes of a text. -/
def firstBytes : ℕ → List Char → List Char
  | _, [] => []
  | limit, char :: rest =>
      if char.utf8Size ≤ limit then char :: firstBytes (limit - char.utf8Size) rest else []

/-- The functions of the standard library that rest on the tables of Unicode, and those of
package `regexp`, on the text of a pattern. -/
structure TextLibrary where
  toLower : String → String
  toUpper : String → String
  equalFold : String → String → Bool
  isLetter : Char → Bool
  isDigit : Char → Bool
  quoteMeta : String → String
  compiles : String → Bool
  matchString : String → String → Bool
  replaceAllString : String → String → String → String

/-- The library on ASCII texts, with patterns that are plain texts. -/
def asciiText : TextLibrary where
  toLower text := text.map Char.toLower
  toUpper text := text.map Char.toUpper
  equalFold first second := first.map Char.toLower = second.map Char.toLower
  isLetter := Char.isAlpha
  isDigit := Char.isDigit
  quoteMeta text := text
  compiles _ := true
  matchString pattern text := contains text pattern
  replaceAllString _ text _ := text

end MikroLLM.Go
