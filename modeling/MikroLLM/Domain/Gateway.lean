import Mathlib.Data.Int.Notation
import MikroLLM.Go.Strings

/-!
# Keys, backends and models

The data of package `domain` that the proxy works on. A backend's kind is what
`NormalizeKind` makes of the stored text. The numeric and media columns of a
model are kept for the store, the proxy does not read them.
-/

namespace MikroLLM.Domain

/-- An API key. An empty list of models allows every model. -/
structure APIKey where
  id : ℕ
  name : String
  keyPrefix : String
  allowedModels : List String
  rpm : ℤ
  enabled : Bool
  deriving DecidableEq

/-- `APIKey.Allows`. -/
def APIKey.allows (key : APIKey) (model : String) : Bool :=
  key.allowedModels.isEmpty || key.allowedModels.any fun allowed => allowed = "*" || allowed = model

/-- The values of `NormalizeKind`. -/
inductive BackendKind
  | ollama
  | vllm
  | lmstudio
  | openrouter
  | ollamaCloud
  | opencomfy
  | codex
  | grok
  | hub
  deriving DecidableEq, Repr

abbrev BackendId := ℕ

/-- A row of table `backends`, or the backend `hubBackend` makes up for a hub node. -/
structure Backend where
  id : BackendId
  name : String
  baseURL : String
  kind : BackendKind
  token : String
  enabled : Bool
  deriving DecidableEq

/-- `Backend.NativeOllama`. -/
def Backend.nativeOllama (backend : Backend) : Bool :=
  backend.kind = .ollama || backend.kind = .ollamaCloud

/-- `Backend.OpenAIChatPath`. -/
def Backend.openAIChatPath (backend : Backend) : String :=
  if backend.kind = .openrouter then "/chat/completions" else "/v1/chat/completions"

/-- `Backend.Label`. -/
def Backend.label (backend : Backend) : String :=
  match backend.kind with
  | .vllm => "vLLM"
  | .lmstudio => "LM Studio"
  | .openrouter => "OpenRouter"
  | .ollamaCloud => "Ollama Cloud"
  | .hub => if backend.name ≠ "" then "hub · " ++ backend.name else "Hub"
  | .opencomfy => "OpenComfy"
  | .codex => "Codex"
  | .grok => "Grok"
  | .ollama => "Ollama"

abbrev ModelId := ℕ

/-- A model alias: a row of table `models` with its backends. -/
structure Model where
  id : ModelId
  aliasName : String
  upstreamName : String
  lbPolicy : String
  enabled : Bool
  backendIds : List BackendId
  maxContext : ℤ
  fallback : String
  promptCache : String
  params : String
  media : List String
  hubShare : Bool
  hubNodeID : String
  hubNodeName : String
  deriving DecidableEq

/-- `HubAutoAlias`. -/
def hubAutoAlias : String := "auto"

/-- `HubAutoRouter`, the node of the alias that the hub routes itself. -/
def hubAutoRouter : String := "*"

/-- The fields of a catalog entry that routing and the prompt cache read. -/
structure CatalogEntry where
  name : String
  provider : String
  hubNodeID : String
  hubNodeName : String
  hubOnline : Bool
  deriving DecidableEq

end MikroLLM.Domain
