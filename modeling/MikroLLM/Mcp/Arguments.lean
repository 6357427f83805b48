import MikroLLM.Go.Convert
import MikroLLM.Go.Text

/-!
# Arguments of a tool

A tool of the MCP server reads its arguments from a `map[string]any`, which
`Unmarshal` has filled, and takes a text for a number and the other way round.
-/

namespace MikroLLM.Mcp

open Go

section Readers

variable (outside : Double → ℤ)

/-- `stringify`. -/
def stringify : Json → String
  | .string text => trimSpace text
  | .number literal =>
      match parseFloat literal with
      | none => ""
      | some value =>
          let whole := value.toInt64 outside
          if parseFloat ⟨whole, 0⟩ = some value then toString whole else formatFloat value
  | .bool value => if value then "true" else "false"
  | _ => ""

/-- `strArg`. -/
def strArg (args : Fields) : List String → String
  | [] => ""
  | key :: rest =>
      match fieldOf args key with
      | some value =>
          if stringify outside value ≠ "" then stringify outside value else strArg args rest
      | none => strArg args rest

/-- `hasArg`. -/
def hasArg (args : Fields) (key : String) : Bool :=
  (fieldOf args key).isSome

/-- `boolArg`. -/
def boolArg (args : Fields) (key : String) (default : Bool) : Bool :=
  match fieldOf args key with
  | some (.bool value) => value
  | some (.string text) =>
      let word := lower (trimSpace text)
      word = "1" || word = "true" || word = "yes" || word = "on"
  | some (.number literal) => (parseFloat literal).any (·.mantissa ≠ 0)
  | _ => default

/-- `intArg`. -/
def intArg (args : Fields) : List String → Option ℤ
  | [] => none
  | key :: rest =>
      match fieldOf args key with
      | some (.number literal) => (parseFloat literal).map (·.toInt64 outside)
      | some (.string text) => (readInt (trimSpace text)).or (intArg args rest)
      | _ => intArg args rest

/-- The positive id of the call. -/
def idArg (args : Fields) : Option ℤ :=
  (intArg outside args ["id"]).filter (0 < ·)

/-- `strSlice`. -/
def strSlice (args : Fields) (key : String) : Option (List String) :=
  match fieldOf args key with
  | some (.array items) => some ((items.map (stringify outside)).filter (· ≠ ""))
  | some (.string text) =>
      some (((split (trimSpace text) ',').map trimSpace).filter (· ≠ ""))
  | _ => none

/-- One element in `intSlice`. -/
def listedInt : Json → Option ℤ
  | .number literal => ((parseFloat literal).map (·.toInt64 outside)).filter (0 < ·)
  | .string text => (readInt (trimSpace text)).filter (0 < ·)
  | _ => none

/-- `intSlice`. -/
def intSlice (args : Fields) (key : String) : Option (List ℤ) :=
  match fieldOf args key with
  | some (.array items) => some (items.filterMap (listedInt outside))
  | some .null => none
  | some _ => ((intArg outside args [key]).filter (0 < ·)).map ([·])
  | none => none

end Readers

/-- The argument is absent, null or a blank text. -/
def lacks (args : Fields) (key : String) : Bool :=
  match fieldOf args key with
  | none => true
  | some .null => true
  | some (.string text) => trimSpace text = ""
  | _ => false

section Lacking

variable {outside : Double → ℤ} {args : Fields} {key : String}

theorem intArg_of_lacks (missing : lacks args key = true) : intArg outside args [key] = none := by
  simp only [lacks] at missing
  simp only [intArg]
  split at missing
  · rename_i absent
    rw [absent]
  · rename_i isNull
    rw [isNull]
  · rename_i text isText
    have blank : trimSpace text = "" := by simpa using missing
    have noNumber : readInt "" = none := by decide
    rw [isText]
    simp [blank, noNumber]
  · exact absurd missing (by simp)

end Lacking

end MikroLLM.Mcp
