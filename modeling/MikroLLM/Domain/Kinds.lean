import MikroLLM.Domain.Gateway
import MikroLLM.Go.Convert
import MikroLLM.Go.Text

/-!
# Kinds and addresses of backends
-/

namespace MikroLLM.Domain

open Go

/-- The constants of the kinds. -/
def BackendKind.text : BackendKind → String
  | .ollama => "ollama"
  | .vllm => "vllm"
  | .lmstudio => "lmstudio"
  | .openrouter => "openrouter"
  | .ollamaCloud => "ollama-cloud"
  | .opencomfy => "opencomfy"
  | .codex => "codex"
  | .grok => "grok"
  | .hub => "hub"

/-- The names of a kind; every other text is a name of Ollama. -/
def kindNames : List (String × BackendKind) :=
  [("vllm", .vllm), ("v-llm", .vllm),
    ("lmstudio", .lmstudio), ("lm-studio", .lmstudio), ("lms", .lmstudio), ("llstudio", .lmstudio),
    ("lm studio", .lmstudio),
    ("openrouter", .openrouter), ("open-router", .openrouter), ("open router", .openrouter),
    ("ollama-cloud", .ollamaCloud), ("ollamacloud", .ollamaCloud), ("ollama_cloud", .ollamaCloud),
    ("ollama cloud", .ollamaCloud),
    ("opencomfy", .opencomfy), ("open-comfy", .opencomfy), ("open comfy", .opencomfy),
    ("comfyui", .opencomfy), ("comfy", .opencomfy),
    ("codex", .codex), ("chatgpt", .codex), ("chatgpt-codex", .codex),
    ("grok", .grok), ("supergrok", .grok), ("grok-cli", .grok),
    ("hub", .hub), ("mikrollm-hub", .hub), ("mikrollm_hub", .hub)]

/-- `NormalizeKind`. -/
def normalizeKind (name : String) : BackendKind :=
  (kindNames.lookup (lower (trimSpace name))).getD .ollama

@[simp]
theorem normalizeKind_text (kind : BackendKind) : normalizeKind kind.text = kind := by
  cases kind <;> decide +kernel

@[simp]
theorem normalizeKind_empty : normalizeKind "" = .ollama := by
  decide +kernel

/-- `RequiresToken`. -/
def requiresToken (name : String) : Bool :=
  normalizeKind name ∈ [.openrouter, .ollamaCloud, .opencomfy, .codex, .grok]

/-- `strings.TrimSuffix`. -/
def trimSuffix (text suffix : String) : String :=
  if suffix.toList.isSuffixOf text.toList then
    String.ofList (text.toList.take (text.length - suffix.length))
  else text

/-- `CanonicalBaseURL`. -/
def canonicalBaseURL (kind raw : String) : String :=
  let url := trimRight (trimSpace raw) '/'
  match normalizeKind kind with
  | .openrouter =>
      if url = "" || url = "https://openrouter.ai" || url = "http://openrouter.ai" then
        "https://openrouter.ai/api/v1"
      else url
  | .ollamaCloud =>
      if url = "" || url = "https://www.ollama.com" then "https://ollama.com" else url
  | .opencomfy => trimRight (trimSuffix url "/v1") '/'
  | .codex => if url = "" then "https://chatgpt.com/backend-api/codex" else url
  | .grok => if url = "" then "https://cli-chat-proxy.grok.com/v1" else url
  | _ => url

/-- What the gateway reads of a `url.URL`. -/
structure WebAddress where
  scheme : String
  hasUser : Bool
  host : String
  hostname : String
  port : String
  escapedPath : String

/-- `url.Parse` with the methods of `url.URL`, and whether `net.LookupPort` knows a port of TCP. -/
structure AddressLibrary where
  parse : String → Option WebAddress
  knowsPort : String → Bool

/-- `SanitizeBackendURL`. -/
def sanitizeBackendURL (text : TextLibrary) (addresses : AddressLibrary) (kind raw : String) :
    Except String String :=
  let raw := canonicalBaseURL kind raw
  if raw = "" then .error "пустой URL"
  else if raw.toList.any fun char => char ∈ ['\x00', '\r', '\n', '\t'] then
    .error "некорректный URL"
  else
    match addresses.parse raw with
    | none => .error "некорректный URL"
    | some url =>
        if url.scheme ≠ "http" ∧ url.scheme ≠ "https" then .error "URL только http или https"
        else if url.hasUser then .error "URL не должен содержать логин и пароль"
        else if url.hostname = "" ∨ text.equalFold url.hostname "unix" then
          .error "некорректный хост"
        else if url.hostname.toList.any fun char => char = '/' || char = '\\' then
          .error "некорректный хост"
        else if url.port ≠ "" ∧ ¬addresses.knowsPort url.port then .error "некорректный порт"
        else
          let path := trimRight url.escapedPath '/'
          .ok (url.scheme ++ "://" ++ url.host ++ (if path ≠ "" ∧ path ≠ "/" then path else ""))

end MikroLLM.Domain
