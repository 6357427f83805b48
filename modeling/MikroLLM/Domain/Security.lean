import Mathlib.Data.Nat.Notation
import Mathlib.Data.List.Defs

/-!
# Guard policies

The constants and records of `domain/security.go`. `SavePolicy` normalizes kind,
action and mode, so each of them is one of its constants.
-/

namespace MikroLLM.Domain

/-- The `Guard` kinds. -/
inductive GuardKind
  | systemPrompt
  | blockWords
  | regex
  | pii
  | injection
  | category
  | nsfw
  deriving DecidableEq, Repr

/-- The text of the constant. -/
def GuardKind.text : GuardKind → String
  | .systemPrompt => "system_prompt"
  | .blockWords => "block_words"
  | .regex => "regex"
  | .pii => "pii"
  | .injection => "prompt_injection"
  | .category => "category"
  | .nsfw => "nsfw"

inductive GuardAction
  | block
  | mask
  deriving DecidableEq, Repr

inductive GuardMode
  | pre
  | post
  | both
  deriving DecidableEq, Repr

/-- The phase a policy is asked for: before the upstream call or after it. -/
inductive GuardPhase
  | pre
  | post
  deriving DecidableEq, Repr

inductive GuardTarget
  | aliasName
  | queue
  | model
  deriving DecidableEq, Repr

structure PolicyConfig where
  prompt : String
  words : List String
  pattern : String
  pii : List String
  categories : List String
  plugins : List String
  deriving DecidableEq

abbrev PolicyId := ℕ

structure Policy where
  id : PolicyId
  name : String
  kind : GuardKind
  action : GuardAction
  mode : GuardMode
  enabled : Bool
  config : PolicyConfig
  deriving DecidableEq

end MikroLLM.Domain
