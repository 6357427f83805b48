import MikroLLM.Domain.Gateway
import MikroLLM.Domain.Provider
import MikroLLM.Go.Bodies

/-!
# The last pass over a request

Package `promptcache`: the mode of the prompt cache, and `Prepare`, which writes
the name of the upstream model into the body and for OpenRouter asks for the
usage of a stream and for the cache of the provider.
-/

namespace MikroLLM.PromptCache

open Domain Go

/-- The modes. -/
inductive Mode
  | off
  | auto
  | on
  deriving DecidableEq

/-- The mode that a text names; none for `inherit` and texts that are no mode. -/
def readMode (text : TextLibrary) (raw : String) : Option Mode :=
  let mode := text.toLower (trimSpace raw)
  if mode = "off" then some .off
  else if mode = "auto" then some .auto
  else if mode = "on" then some .on
  else none

/-- `Resolve`. -/
def resolve (text : TextLibrary) (global aliasMode : String) : Mode :=
  ((readMode text aliasMode).or (readMode text global)).getD .auto

/-- What `Prepare` is called with. -/
structure PrepInput where
  body : List UInt8
  sendAs : String
  origModel : String
  kind : BackendKind
  provider : String
  mode : Mode

mutual

/-- `nestedHint`. -/
def nestedHint : Json → Bool
  | .object fields => (fieldOf fields "cache_control").isSome ||
      (fieldOf fields "prompt_cache_breakpoint").isSome || nestedHintFields fields
  | .array items => nestedHintItems items
  | _ => false

def nestedHintFields : List (String × Json) → Bool
  | [] => false
  | (_, value) :: rest => nestedHint value || nestedHintFields rest

def nestedHintItems : List Json → Bool
  | [] => false
  | item :: rest => nestedHint item || nestedHintItems rest

end

/-- `HasCacheHints`. -/
def hasCacheHints (raw : Fields) : Bool :=
  (fieldOf raw "cache_control").isSome || (fieldOf raw "prompt_cache_options").isSome ||
    nestedHint (.object raw)

/-- `hasAnthropicPrefix`. -/
def hasAnthropicPrefix (text : TextLibrary) (name : String) : Bool :=
  hasPrefix (text.toLower (trimSpace name)) "anthropic/"

/-- `NeedsAnthropicTopLevel`. -/
def needsAnthropicTopLevel (text : TextLibrary) (provider sendAs origModel : String) : Bool :=
  text.equalFold (trimSpace provider) "Anthropic" ||
    text.equalFold (trimSpace (providerLabel text provider)) "Anthropic" ||
    hasAnthropicPrefix text sendAs || hasAnthropicPrefix text origModel

/-- The member `stream` of a request that asks for one. -/
def isStream (raw : Fields) : Bool :=
  match field raw "stream" with
  | .bool value => value
  | .string value => value = "true" || value = "1"
  | _ => false

/-- `ensureIncludeUsage`; none when nothing changes. -/
def ensureIncludeUsage (raw : Fields) : Option Fields :=
  if isStream raw then
    match fieldOf raw "stream_options" with
    | some (.object options) =>
        if (fieldOf options "include_usage").isSome then none
        else some (setField raw "stream_options"
          (.object (setField options "include_usage" (.bool true))))
    | some _ => none
    | none => some (setField raw "stream_options" (.object [("include_usage", .bool true)]))
  else none

/-- The model of a body is another one. -/
def sendsAs (raw : Fields) (sendAs : String) : Option Fields :=
  if sendAs = "" then none
  else if field raw "model" = .string sendAs then none
  else some (setField raw "model" (.string sendAs))

/-- `rewriteModel`. -/
def rewriteModel (codec : Codec) (body : List UInt8) (sendAs : String) : List UInt8 :=
  match (codec.decode body).bind (sendsAs · sendAs) with
  | some raw => codec.marshal raw
  | none => body

/-- The mode of `Prepare` asks for a cache hint. -/
def wantsCacheControl (text : TextLibrary) (input : PrepInput) (raw : Fields) : Bool :=
  let origModel :=
    if input.origModel = "" then
      match field raw "model" with
      | .string model => model
      | _ => ""
    else input.origModel
  match input.mode with
  | .off => false
  | .auto => needsAnthropicTopLevel text input.provider input.sendAs origModel
  | .on => true

/-- The cache hint that `Prepare` adds; none when it adds none. -/
def cacheControl (text : TextLibrary) (input : PrepInput) (raw : Fields) : Option Fields :=
  if hasCacheHints raw = false ∧ wantsCacheControl text input raw = true then
    some (setField raw "cache_control" (.object [("type", .string "ephemeral")]))
  else none

/-- `Prepare`. -/
def prepare (text : TextLibrary) (codec : Codec) (input : PrepInput) : List UInt8 :=
  if input.kind ≠ .openrouter then rewriteModel codec input.body input.sendAs
  else
    match codec.decode input.body with
    | none => input.body
    | some raw =>
        let named := sendsAs raw input.sendAs
        let counted := ensureIncludeUsage (named.getD raw)
        let hinted := cacheControl text input (counted.getD (named.getD raw))
        if named.isNone ∧ counted.isNone ∧ hinted.isNone then input.body
        else codec.marshal (hinted.getD (counted.getD (named.getD raw)))

/-- Whether `Prepare` reports a change. -/
def reports (text : TextLibrary) (codec : Codec) (input : PrepInput) : Bool :=
  if input.kind ≠ .openrouter then
    ((codec.decode input.body).bind (sendsAs · input.sendAs)).isSome
  else
    match codec.decode input.body with
    | none => false
    | some raw =>
        let named := sendsAs raw input.sendAs
        let counted := ensureIncludeUsage (named.getD raw)
        let hinted := cacheControl text input (counted.getD (named.getD raw))
        named.isSome || counted.isSome || hinted.isSome

end MikroLLM.PromptCache
