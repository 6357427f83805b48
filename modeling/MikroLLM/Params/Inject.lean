import MikroLLM.Domain.Gateway
import MikroLLM.Go.Frame
import MikroLLM.Params.Profile

/-!
# The knobs of a profile in a request

`Inject` puts the knobs of an alias into a chat request, under the names that the
backend knows them by. A knob that the client set stays what it is unless the
profile locks it. The loops over the maps of a profile run in an order that is up
to the runtime; it is a parameter where the result can depend on it.
-/

namespace MikroLLM.Params

open Domain Go

/-- `p.Locked[knob]`. -/
def Profile.locks (profile : Profile) (knob : String) : Bool :=
  knob ∈ profile.locked

/-- `has`: what the client set under a key stays. -/
def has (raw : Fields) (key : String) (profile : Profile) (knob : String) : Bool :=
  if profile.locks knob then false else (fieldOf raw key).isSome

/-- A knob is written under a key, where the profile has it and the client's value does not stay. -/
def offer (profile : Profile) (knob key : String) (raw : Fields) : Fields :=
  match fieldOf profile.values knob with
  | some value => if has raw key profile knob then raw else setField raw key value
  | none => raw

/-- The limit of the answer, which two knobs set. -/
def offerMaxTokens (profile : Profile) (raw : Fields) : Fields :=
  if (fieldOf profile.values "max_tokens").isSome ∧
      has raw "max_tokens" profile "max_tokens" = false then
    offer profile "max_tokens" "max_tokens" raw
  else offer profile "num_predict" "max_tokens" raw

/-- `thinkToEffort`; none is disabled. -/
def thinkToEffort : Json → BackendKind → Option String
  | .bool value, _ => if value then some "high" else none
  | .string level, kind =>
      if lower level = "none" then none
      -- OpenRouter knows only low, medium and high
      else if kind = .openrouter ∧ lower level = "max" then some "high"
      else some (lower level)
  | _, _ => none

/-- `deleteNestedThink`. -/
def deleteNestedThink (raw : Fields) : Fields :=
  match field raw "reasoning" with
  | .object reasoning =>
      let rest := deleteField (deleteField reasoning "effort") "enabled"
      if rest = [] then deleteField raw "reasoning"
      else setField raw "reasoning" (.object rest)
  | _ => raw

/-- `think` for the OpenAI path of Ollama. -/
def applyEffort (profile : Profile) (kind : BackendKind) (think : Json) (raw : Fields) : Fields :=
  let cleared :=
    if profile.locks "think" then deleteNestedThink (deleteField raw "reasoning_effort") else raw
  if (fieldOf cleared "reasoning_effort").isSome then cleared
  else if (fieldOf cleared "reasoning").isSome && !profile.locks "think" then cleared
  else setField cleared "reasoning_effort" (.string ((thinkToEffort think kind).getD "none"))

/-- The member `reasoning` that OpenRouter gets. -/
def reasoning (think : Json) : Json :=
  match thinkToEffort think .openrouter with
  | none => .object [("enabled", .bool false)]
  | some effort => .object [("effort", .string effort)]

/-- `applyOpenRouterReasoning`. -/
def applyOpenRouterReasoning (profile : Profile) (think : Json) (raw : Fields) : Fields :=
  if profile.locks "think" then
    setField (deleteField (deleteNestedThink raw) "reasoning_effort") "reasoning" (reasoning think)
  else if (fieldOf raw "reasoning").isSome then raw
  else if (fieldOf raw "reasoning_effort").isSome then raw
  else setField raw "reasoning" (reasoning think)

/-- What `think` is in the arguments of a chat template. -/
def setThinking (think : Json) (arguments : Fields) : Fields :=
  match think with
  | .bool value => setField arguments "enable_thinking" (.bool value)
  | .string level =>
      if lower level = "none" then setField arguments "enable_thinking" (.bool false)
      else setField arguments "reasoning_effort" (.string (lower level))
  | _ => arguments

/-- `applyTckThink`. -/
def applyTckThink (profile : Profile) (think : Json) (raw : Fields) : Fields :=
  let arguments := innerOf raw "chat_template_kwargs"
  if !profile.locks "think" && ((fieldOf arguments "enable_thinking").isSome ||
      (fieldOf arguments "reasoning_effort").isSome) then raw
  else
    let next := setThinking think arguments
    if next = [] then raw else setField raw "chat_template_kwargs" (.object next)

/-- The knobs that OpenRouter knows by their own names. -/
def openRouterKnobs : List String :=
  ["top_k", "min_p", "repeat_penalty", "presence_penalty", "frequency_penalty"]

/-- The knobs that vLLM and LM Studio know by their own names. -/
def vllmKnobs : List String :=
  ["top_k", "min_p", "presence_penalty", "frequency_penalty"]

/-- A knob that is there is written by a function of its value. -/
def withKnob (profile : Profile) (knob : String) (write : Json → Fields → Fields)
    (raw : Fields) : Fields :=
  match fieldOf profile.values knob with
  | some value => write value raw
  | none => raw

/-- The knobs that depend on the kind of the backend. -/
def injectKind (profile : Profile) (raw : Fields) : BackendKind → Fields
  | .ollama => withKnob profile "think" (applyEffort profile .ollama) raw
  | .ollamaCloud => withKnob profile "think" (applyEffort profile .ollamaCloud) raw
  | .openrouter =>
      withKnob profile "think" (applyOpenRouterReasoning profile)
        (openRouterKnobs.foldl (fun raw knob => offer profile knob knob raw) raw)
  | .vllm | .lmstudio =>
      withKnob profile "think" (applyTckThink profile)
        (offer profile "repeat_penalty" "repetition_penalty"
          (vllmKnobs.foldl (fun raw knob => offer profile knob knob raw) raw))
  | _ => raw

/-- The keys of its own that a profile adds. -/
def injectExtra (profile : Profile) (raw : Fields) : Fields :=
  profile.extra.foldl (fun raw member =>
    if (fieldOf raw member.1).isNone || profile.locks member.1 then
      setField raw member.1 member.2
    else raw) raw

/-- The knobs that every backend knows. -/
def injectCommon (profile : Profile) (raw : Fields) : Fields :=
  offer profile "stop" "stop" (offer profile "seed" "seed" (offerMaxTokens profile
    (offer profile "top_p" "top_p" (offer profile "temperature" "temperature" raw))))

/-- `injectOpenAI`. -/
def injectOpenAI (profile : Profile) (kind : BackendKind) (raw : Fields) : Fields :=
  injectExtra profile (injectKind profile (injectCommon profile raw) kind)

/-- `nativeOptions`: the option that a knob is. -/
def nativeOptions : List (String × String) :=
  [("temperature", "temperature"), ("top_p", "top_p"), ("top_k", "top_k"), ("min_p", "min_p"),
    ("seed", "seed"), ("repeat_penalty", "repeat_penalty"),
    ("presence_penalty", "presence_penalty"), ("frequency_penalty", "frequency_penalty"),
    ("mirostat", "mirostat"), ("mirostat_tau", "mirostat_tau"), ("mirostat_eta", "mirostat_eta"),
    ("num_predict", "num_predict"), ("num_ctx", "num_ctx"), ("max_tokens", "num_predict"),
    ("stop", "stop")]

/-- One knob of the loop over `nativeOptions`, and whether it changed something. -/
def injectOption (profile : Profile) (state : Fields × Bool) (knob : String × String) :
    Fields × Bool :=
  match fieldOf profile.values knob.1 with
  | none => state
  | some value =>
      if (fieldOf state.1 knob.2).isNone || profile.locks knob.1 then
        (setField state.1 knob.2 value, true)
      else state

/-- `injectNative`, with the order of the loop over `nativeOptions`. -/
def injectNative (order : List (String × String)) (profile : Profile) (raw : Fields) : Fields :=
  let options := order.foldl (injectOption profile) (innerOf raw "options", false)
  let raw := if options.2 then setField raw "options" (.object options.1) else raw
  injectExtra profile (offer profile "think" "think" raw)

/-- The path of a request: the one of Ollama, with the order of its loop, or that of OpenAI. -/
inductive Route
  | native (order : List (String × String)) (isOrder : order.Perm nativeOptions)
  | openAI

/-- The map after `Inject`. -/
def injected (profile : Profile) (kind : BackendKind) : Route → Fields → Fields
  | .native order _ => injectNative order profile
  | .openAI => injectOpenAI profile kind

/-- `Inject`; none where it writes into a nil map. -/
def inject (codec : NumberCodec) (profile : Profile) (kind : BackendKind) (route : Route)
    (body : List UInt8) : Option (List UInt8) :=
  if profile.isEmpty then some body
  else
    match codec.first body with
    | some (.object fields) => some (codec.marshal (injected profile kind route (keptFields fields)))
    -- a nil map has no members, and what is written into a map is still there at the end
    | some .null => if injected profile kind route [] = [] then some (bytesOf "null") else none
    | _ => some body

end MikroLLM.Params
