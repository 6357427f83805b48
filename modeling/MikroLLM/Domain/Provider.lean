import MikroLLM.Go.Strings
import MikroLLM.Go.Text

/-!
# Names of providers
-/

namespace MikroLLM.Domain

open Go

def providerNames : List (String × String) :=
  [("openai", "OpenAI"), ("anthropic", "Anthropic"), ("google", "Google"), ("x-ai", "xAI"),
    ("xai", "xAI"), ("meta", "Meta"), ("meta-llama", "Meta"), ("mistralai", "Mistral"),
    ("mistral", "Mistral"), ("qwen", "Qwen"), ("deepseek", "DeepSeek"), ("cohere", "Cohere"),
    ("perplexity", "Perplexity"), ("nvidia", "NVIDIA"), ("microsoft", "Microsoft"),
    ("amazon", "Amazon"), ("ai21", "AI21"), ("together", "Together"), ("groq", "Groq"),
    ("fireworks", "Fireworks"), ("huggingface", "Hugging Face"), ("minimax", "MiniMax"),
    ("z-ai", "Z.ai"), ("zhipu", "Zhipu"), ("moonshotai", "Moonshot"), ("moonshot", "Moonshot"),
    ("inclusionai", "InclusionAI"), ("liquid", "Liquid"), ("nousresearch", "Nous"),
    ("inflection", "Inflection"), ("openrouter", "OpenRouter"), ("ollama", "Ollama"),
    ("opencomfy", "OpenComfy")]

/-- A part of a slug with its first byte in upper case. A longer character is torn apart, and its bytes
are written as replacement characters. -/
def capitalized (text : TextLibrary) (part : String) : String :=
  match part.toList with
  | first :: rest =>
      if first.utf8Size = 1 then text.toUpper (String.singleton first) ++ String.ofList rest
      else String.ofList (List.replicate first.utf8Size (Char.ofNat 0xfffd) ++ rest)
  | [] => part

/-- `ProviderLabel`. -/
def providerLabel (text : TextLibrary) (provider : String) : String :=
  let slug := trimSpace (text.toLower provider)
  if slug = "" then ""
  else
    match providerNames.lookup slug with
    | some name => name
    | none =>
        let parts := (slug.toList.splitOnP fun char => char = '-' || char = '_').filter (· ≠ [])
        join (parts.map fun part => capitalized text (String.ofList part)) " "

end MikroLLM.Domain
