import MikroLLM.Guard.Prompting
import MikroLLM.Proxy.Course

/-!
# The system prompt and the path

`Forward` serves the chat paths and those of images, videos and their jobs, and
asks the guard on each of them.
-/

namespace MikroLLM.Proxy

open Domain Go Guard

section Paths

/-- `isChatPath`. -/
def isChatPath (path : String) : Bool :=
  path = "/v1/chat/completions" || path = "/api/chat"

/-- The body that the guard makes of a request. -/
def guardBody (env : Env) (request : Request) (policies : List Policy) : Bytes :=
  (apply env.text env.filters env.codec request.body policies .pre).body

/-- What system prompts are to do with a request: a chat request gets them before what its first
system message says, any other request gets no messages from them. -/
def Prompts (env : Env) (request : Request) (policies : List Policy) (document : Fields)
    (out : Bytes) : Prop :=
  DistinctPrompts policies (joinedPrompts policies) ∧
    if isChatPath request.path then
      (joinedPrompts policies = [] → out = request.body) ∧
        (joinedPrompts policies ≠ [] → ∃ written, env.codec.parse out = .json [.object written] ∧
          Prompted env.text (join (joinedPrompts policies) "\n\n") (.object document)
            (.object written))
    else ∀ written, env.codec.parse out = .json [.object written] →
      fieldOf document "messages" = none → fieldOf written "messages" = none

/-- The requests with which they do that: there is no prompt, or the content of a first system
message of a chat is a text, a list, null or missing, or a body that is no chat has messages. -/
def Promptable (env : Env) (request : Request) (policies : List Policy) (document : Fields) :
    Prop :=
  (∀ policy ∈ dedup policies, trimSpace policy.config.prompt = "") ∨
    if isChatPath request.path then Readable env.text (.object document)
    else fieldOf document "messages" ≠ none

variable {env : Env} {request : Request} {policies : List Policy} {document raw : Fields}
  {snapshot : Snapshot} {progress : Progress} {upstream : String}

/-- The hop that finds a backend first guards the body, whatever the path is. -/
theorem guardOnce_body {guarded : Guarded} (fresh : progress.guarded = none)
    (passes : guardOnce env request snapshot progress upstream = .ok guarded) :
    guarded.body = guardBody env request
      (hopPolicies snapshot progress.model request.queueAlias upstream) := by
  simp only [guardOnce, fresh] at passes
  split at passes
  · cases passes
  · cases passes
    rfl

theorem joinedPrompts_eq_nil : joinedPrompts policies = [] ↔
    ∀ policy ∈ dedup policies, trimSpace policy.config.prompt = "" := by
  have member := (distinctPrompts policies).mem_iff
  rw [List.eq_nil_iff_forall_not_mem]
  constructor
  · intro none policy inside
    by_contra filled
    exact none _ ((member _).mpr ⟨filled, policy, inside, rfl⟩)
  · intro blank prompt inside
    rcases (member prompt).mp inside with ⟨filled, policy, isPolicy, rfl⟩
    exact filled (blank policy isPolicy)

theorem fieldOf_injectSystem (text : TextLibrary) (raw : Fields) (prompt : String) :
    fieldOf (injectSystem text raw prompt) "messages" ≠ none := by
  rcases injectSystem_cases text raw prompt with ⟨first, rest, _, _, same⟩ | ⟨_, same⟩
  · rw [same, fieldOf_setField_self]
    simp
  · rw [same, fieldOf_setField_self]
    simp

/-- What the guard makes of a body when there is a prompt. -/
theorem parse_guardBody (system : ∀ policy ∈ policies, policy.kind = .systemPrompt)
    (parsed : env.codec.parse request.body = .json [.object document])
    (loads : loadFields document = some raw) (prompts : joinedPrompts policies ≠ []) :
    ∃ written, env.codec.parse (guardBody env request policies) = .json [.object written] ∧
      Alike (.object written)
        (.object (injectSystem env.text raw (join (joinedPrompts policies) "\n\n"))) := by
  have decodes : env.codec.decode request.body = some raw := by
    rw [Codec.decode, parsed, ← loads]
    rfl
  rw [guardBody, (apply_systemPrompt system decodes).2, if_neg prompts]
  rcases env.codec.parse_marshal _ (injectSystem_loads env.text _ (loadFields_loadFields loads))
    with ⟨written, _, parses, isWritten, _⟩
  exact ⟨written, parses, isWritten.alike⟩

theorem guardBody_silent (system : ∀ policy ∈ policies, policy.kind = .systemPrompt)
    (parsed : env.codec.parse request.body = .json [.object document])
    (loads : loadFields document = some raw) (silent : joinedPrompts policies = []) :
    guardBody env request policies = request.body := by
  have decodes : env.codec.decode request.body = some raw := by
    rw [Codec.decode, parsed, ← loads]
    rfl
  rw [guardBody, (apply_systemPrompt system decodes).2, if_pos silent]

theorem prompts_of_promptable (system : ∀ policy ∈ policies, policy.kind = .systemPrompt)
    (parsed : env.codec.parse request.body = .json [.object document])
    (loads : loadFields document = some raw)
    (same : ∀ path, (Json.object document).faceAt path = (Json.object raw).faceAt path)
    (promptable : Promptable env request policies document) :
    Prompts env request policies document (guardBody env request policies) := by
  refine ⟨distinctPrompts policies, ?_⟩
  rw [Promptable, ← joinedPrompts_eq_nil] at promptable
  by_cases silent : joinedPrompts policies = []
  · have kept := guardBody_silent system parsed loads silent
    split
    · exact ⟨fun _ => kept, fun prompts => absurd silent prompts⟩
    · intro written isWritten missing
      rw [kept, parsed, Body.json.injEq, List.singleton_inj, Json.object.injEq] at isWritten
      rw [← isWritten, missing]
  · have promptable := promptable.resolve_left silent
    split at promptable
    · rename_i chat
      rw [if_pos chat]
      refine ⟨fun empty => absurd empty silent, fun prompts => ?_⟩
      rcases parse_guardBody system parsed loads prompts with ⟨written, parses, alike⟩
      refine ⟨written, parses, ?_⟩
      rw [prompted_congr same alike, prompted_injectSystem, ← readable_congr same]
      exact promptable
    · rename_i other
      rw [if_neg other]
      intro _ _ missing
      exact absurd missing promptable

theorem promptable_of_prompts (system : ∀ policy ∈ policies, policy.kind = .systemPrompt)
    (parsed : env.codec.parse request.body = .json [.object document])
    (loads : loadFields document = some raw)
    (same : ∀ path, (Json.object document).faceAt path = (Json.object raw).faceAt path)
    (prompts : Prompts env request policies document (guardBody env request policies)) :
    Promptable env request policies document := by
  rw [Promptable, ← joinedPrompts_eq_nil]
  by_cases silent : joinedPrompts policies = []
  · exact Or.inl silent
  · right
    rcases parse_guardBody system parsed loads silent with ⟨written, parses, alike⟩
    rcases prompts with ⟨_, prompts⟩
    split at prompts
    · rename_i chat
      rcases prompts.2 silent with ⟨next, isNext, holds⟩
      rw [parses, Body.json.injEq, List.singleton_inj, Json.object.injEq] at isNext
      rw [← isNext, prompted_congr same alike, prompted_injectSystem, ← readable_congr same] at holds
      rw [if_pos chat]
      exact holds
    · rename_i other
      rw [if_neg other]
      intro missing
      have none' := prompts written parses missing
      have face := alike [.key "messages"]
      rw [faceAt_key, none', faceAt_key] at face
      rcases Option.ne_none_iff_exists'.mp (fieldOf_injectSystem env.text raw
        (join (joinedPrompts policies) "\n\n")) with ⟨messages, found⟩
      rw [found] at face
      cases face

/-- System prompts do what they are to do with a request exactly if it is one of those. -/
theorem prompts_iff (system : ∀ policy ∈ policies, policy.kind = .systemPrompt)
    (parsed : env.codec.parse request.body = .json [.object document])
    (loads : loadFields document = some raw)
    (exact : ∀ path literal, (Json.object document).valueAt path = some (.number literal) →
      literal.exact) :
    Prompts env request policies document (guardBody env request policies) ↔
      Promptable env request policies document := by
  have same (path : Path) : (Json.object document).faceAt path = (Json.object raw).faceAt path := by
    have loadsObject := load_object loads
    exact ((faceAt_load loadsObject path).mpr fun literal found => exact path literal found).symm
  exact ⟨promptable_of_prompts system parsed loads same,
    prompts_of_promptable system parsed loads same⟩

/-- A request for an image. -/
def imageFields : Fields :=
  [("model", .string "sd"), ("prompt", .string "a cat")]

def imageDocuments : Documents where
  list := [(bytesOf "\x7b\"model\":\"sd\",\"prompt\":\"a cat\"\x7d", encode imageFields)]
  distinct := by decide
  texts := by decide

def imageRequest : Request where
  key := anyKey
  path := "/v1/images/generations"
  body := bytesOf "\x7b\"model\":\"sd\",\"prompt\":\"a cat\"\x7d"
  requested := "sd"
  queueAlias := ""

def politePolicy : Policy where
  id := 1
  name := "polite"
  kind := .systemPrompt
  action := .block
  mode := .pre
  enabled := true
  config := ⟨"Be polite.", [], "", [], [], []⟩

theorem parse_imageRequest :
    (trialEnv imageDocuments fun _ => none).codec.parse imageRequest.body =
      .json [.object imageFields] :=
  @Documents.read_of_mem imageDocuments _ _ List.mem_cons_self

theorem prompts_image :
    Prompts (trialEnv imageDocuments fun _ => none) imageRequest [politePolicy] imageFields
        (guardBody (trialEnv imageDocuments fun _ => none) imageRequest [politePolicy]) ↔
      Promptable (trialEnv imageDocuments fun _ => none) imageRequest [politePolicy] imageFields := by
  have self : (Json.object imageFields).load = some (.object imageFields) := rfl
  have exact : Exact some (.object imageFields) := exact_of_load self
  have system : ∀ policy ∈ [politePolicy], policy.kind = .systemPrompt := by simp [politePolicy]
  exact prompts_iff system parse_imageRequest rfl fun path literal found =>
    exact path path literal rfl found

theorem not_prompts : ¬∀ (env : Env) (request : Request) (policies : List Policy)
    (document raw : Fields), (∀ policy ∈ policies, policy.kind = .systemPrompt) →
    env.codec.parse request.body = .json [.object document] →
    loadFields document = some raw →
    (∀ path literal, (Json.object document).valueAt path = some (.number literal) →
      literal.exact) →
    Prompts env request policies document (guardBody env request policies) := by
  intro always
  have self : (Json.object imageFields).load = some (.object imageFields) := rfl
  have exact : Exact some (.object imageFields) := exact_of_load self
  have system : ∀ policy ∈ [politePolicy], policy.kind = .systemPrompt := by simp [politePolicy]
  have prompts := always (trialEnv imageDocuments fun _ => none) imageRequest [politePolicy]
    imageFields imageFields system parse_imageRequest rfl fun path literal found =>
      exact path path literal rfl found
  rcases promptable_of_prompts system parse_imageRequest rfl (fun _ => rfl) prompts with
    blank | there
  · have filled : trimSpace politePolicy.config.prompt ≠ "" := by decide
    exact filled (blank politePolicy (by decide))
  · exact absurd rfl there

end Paths

end MikroLLM.Proxy
