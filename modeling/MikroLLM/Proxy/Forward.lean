import MikroLLM.Proxy.Delegates

/-!
# Forwarding a request

`Forward` tries at most four aliases, the requested one and its fallbacks. A hop
picks a backend, filters the body before the first upstream call, and ends with
a response or with the alias of the next hop.
-/

namespace MikroLLM.Proxy

open Domain Go Guard

/-- What a call of `Forward` is about. `queueAlias` is the queue in the context. -/
structure Request where
  key : APIKey
  path : String
  body : Bytes
  requested : String
  queueAlias : String

/-- The world during one hop: what the proxy reads, and what the upstreams answer. -/
structure HopWorld where
  snapshot : Snapshot
  reply : Except String Reply
  codex : CodexWorld
  grok : GrokWorld

/-- The filtered body, the policies of the request, and as a history those it went through. -/
structure Guarded where
  body : Bytes
  policies : List Policy
  ran : List Policy

/-- What one hop hands to the next. -/
structure Progress where
  model : String
  tried : List String
  guarded : Option Guarded
  lastStatus : ℕ
  lastMessage : String
  exchange : Exchange

/-- What `Forward` returns. -/
structure Returned where
  exchange : Exchange
  backend : String
  provider : String
  status : ℕ
  error : Option String

/-- A hop goes on to the next one, leaves the loop, or returns. -/
inductive HopEnd
  | next (progress : Progress)
  | leave (progress : Progress)
  | done (returned : Returned)

section Requests

/-- `rewriteUpstreamPath`. -/
def rewriteUpstreamPath (backend : Backend) (path : String) : String :=
  if path = "/api/chat" then
    if backend.nativeOllama then "/api/chat" else backend.openAIChatPath
  else if path = "/v1/chat/completions" then backend.openAIChatPath
  else if path = "/v1/images/generations" then
    if backend.kind = .openrouter then "/images" else "/v1/images/generations"
  else if imagePollPath path then path
  else if hasPrefix path "/v1/videos" then
    if backend.kind = .openrouter then trimPrefix path "/v1" else path
  else path

/-- The prompt cache mode of a hop. -/
def cacheMode (env : Env) (snapshot : Snapshot) (model : String) (backend : Backend) :
    PromptCache.Mode :=
  if backend.kind = .openrouter then
    PromptCache.resolve env.text snapshot.promptCacheMode
      (((snapshot.models.getModelByAlias model).map (·.promptCache)).getD "")
  else .off

/-- The body with the parameters of the alias. -/
def withParams (env : Env) (snapshot : Snapshot) (model path : String) (backend : Backend)
    (body : Bytes) : Bytes :=
  if backend.kind = .hub ∨ backend.kind = .opencomfy then body
  else
    match snapshot.models.getModelByAlias model with
    | some row =>
        if trimSpace row.params = "" then body
        else env.inject row.params backend.kind (backend.nativeOllama && path = "/api/chat") body
    | none => body

/-- The payload of a hop, for the alias `model` of a request for `requested`. -/
def hopPayload (env : Env) (snapshot : Snapshot) (requested model path : String)
    (backend : Backend) (upstream : String) (filtered : Bytes) : Bytes :=
  PromptCache.prepare env.text env.codec {
    body := withParams env snapshot model path backend filtered
    sendAs := upstream
    origModel := model
    kind := backend.kind
    provider := providerMeta snapshot [upstream, model, requested]
    mode := cacheMode env snapshot model backend }

/-- A request that asks about a job is a `GET` without a body. -/
def isPoll (path : String) : Bool :=
  hasPrefix path "/v1/videos/" || imagePollPath path

end Requests

section Hops

variable (env : Env) (request : Request)

/-- The policies that `Forward` asks for. -/
def hopPolicies (snapshot : Snapshot) (model queueAlias upstream : String) : List Policy :=
  let aliasName :=
    match snapshot.models.getModelByAlias model with
    | some row => if row.enabled then row.aliasName else ""
    | none => ""
  snapshot.policies.policiesFor aliasName queueAlias upstream

/-- The guard, which runs in the first hop that finds a backend. -/
def guardOnce (snapshot : Snapshot) (progress : Progress) (upstream : String) :
    Except Block Guarded :=
  match progress.guarded with
  | some guarded => .ok guarded
  | none =>
      let policies := hopPolicies snapshot progress.model request.queueAlias upstream
      let pre := apply env.text env.filters env.codec request.body policies .pre
      match pre.block with
      | some block => .error block
      | none => .ok ⟨pre.body, policies, pre.ran⟩

/-- The client gets the error of a policy. -/
def refusedByGuard (exchange : Exchange) (block : Block) : Returned where
  exchange := exchange.respond (writeJSON env
    (exchange.writer.setHeader "X-Mikrollm-Guardrail" block.policy) 400 (writeError block))
  backend := "guard"
  provider := "guard"
  status := 400
  error := some block.message

/-- A hop without a reply: on to the fallback of the alias, or an error. -/
def fallBack (snapshot : Snapshot) (progress : Progress) (backend provider message : String) :
    HopEnd :=
  match (fallbackOf snapshot progress.model).filter (· ∉ progress.tried) with
  | some next => .next { progress with
      model := next
      lastStatus := 502
      lastMessage := message }
  | none => .done {
      exchange := progress.exchange.respond
        (writeJSON env progress.exchange.writer 502 (errorFields message))
      backend := backend
      provider := provider
      status := 502
      error := some message }

/-- What `Forward` does with the reply of a plain upstream, after the call. -/
def onReply (hop : ℕ) (snapshot : Snapshot) (progress : Progress) (guarded : Guarded)
    (backend : Backend) (provider : String) (reply : Reply) : HopEnd :=
  if 400 ≤ reply.code then
    let errBody := reply.body.take 8192
    let closed := progress.exchange.record (.dec backend.id)
    let next :=
      if isBillingError env reply.code errBody then
        (fallbackOf snapshot progress.model).filter (· ∉ progress.tried)
      else none
    match next with
    | some next => .next { progress with
        model := next
        lastStatus := reply.code
        lastMessage := trimSpace (env.codec.text errBody)
        exchange := closed }
    | none => .done {
        exchange := closed.respond
          (((copyHeaders closed.writer reply.header).writeHeader reply.code).write errBody)
        backend := backend.name
        provider := provider
        status := reply.code
        error := none }
  else
    let begun :=
      if 0 < hop then
        progress.exchange.writer.setHeader "X-Mikrollm-Fallback"
          (request.requested ++ " -> " ++ progress.model)
      else progress.exchange.writer
    let written := writeUpstream env begun reply guarded.body guarded.policies
    match written.block with
    | some block => .done (refusedByGuard env
        (((progress.exchange.respond begun).record (.dec backend.id)).record (.blocked block))
          block)
    | none => .done {
          exchange := (progress.exchange.deliver
            ⟨reply.code, reply.body, written.writer.output, written.ran⟩ written.writer).record
              (.dec backend.id)
          backend := backend.name
          provider := provider
          status := reply.code
          error := none }

/-- A request to a plain upstream. -/
def callUpstream (world : HopWorld) (hop : ℕ) (progress : Progress) (guarded : Guarded)
    (call : Call) (payload : Bytes) : HopEnd :=
  let backend := call.backend
  let provider := providerOf world.snapshot backend progress.model call.upstream
  let url := trimRight backend.baseURL '/' ++ rewriteUpstreamPath backend request.path
  match env.requestError url with
  | some message =>
      let closed := progress.exchange.record (.dec backend.id)
      .done {
        exchange := closed.respond (closed.writer.httpError message 500)
        backend := backend.name
        provider := provider
        status := 500
        error := some message }
  | none =>
      let sent := progress.exchange.record (.call { call with
        url := url
        payload := if isPoll request.path then none else some payload })
      match world.reply with
      | .error message =>
          fallBack env world.snapshot { progress with exchange := sent.record (.dec backend.id) }
            backend.name provider message
      | .ok reply =>
          onReply env request hop world.snapshot { progress with exchange := sent } guarded backend
            provider reply

/-- What `Forward` returns for the outcome of a delegate. -/
def delegated (backend : Backend) (provider : String) (outcome : Outcome) : HopEnd :=
  .done {
    exchange := outcome.exchange.record (.dec backend.id)
    backend := backend.name
    provider := provider
    status := outcome.status
    error := outcome.error }

/-- A hop that found a backend and has a filtered body. -/
def sendHop (world : HopWorld) (hop : ℕ) (progress : Progress) (guarded : Guarded)
    (backend : Backend) (upstream : String) : HopEnd :=
  let snapshot := world.snapshot
  let model := progress.model
  let opened := progress.exchange.record (.inc backend.id)
  let call : Call := ⟨model, upstream, backend, "", none, guarded.ran⟩
  if backend.kind = .hub then
    delegated backend (providerOf snapshot backend model upstream)
      (forwardHub env opened snapshot.hubURL call request.path guarded.body world.reply)
  else
    let payload := hopPayload env snapshot request.requested model request.path backend upstream
      guarded.body
    if backend.kind = .codex then
      delegated backend "OpenAI" (forwardCodex env opened call payload world.codex)
    else if backend.kind = .grok then
      delegated backend "xAI" (forwardGrok env opened call payload world.grok)
    else
      callUpstream env request world hop { progress with exchange := opened } guarded call payload

/-- One hop. -/
def forwardHop (world : HopWorld) (hop : ℕ) (progress : Progress) : HopEnd :=
  if progress.model = "" ∨ progress.model ∈ progress.tried then .leave progress
  else
    let progress := { progress with tried := progress.model :: progress.tried }
    if 0 < hop ∧ request.key.allows progress.model = false then .leave progress
    else
      let progress := { progress with exchange := progress.exchange.record (.hop progress.model) }
      match pick world.snapshot progress.model with
      | .error message => fallBack env world.snapshot progress "" "" message
      | .ok (backend, upstream) =>
          match guardOnce env request world.snapshot progress upstream with
          | .error block => .done (refusedByGuard env progress.exchange block)
          | .ok guarded =>
              sendHop env request world hop { progress with guarded := some guarded } guarded
                backend upstream

/-- The end of `Forward`, after the loop. -/
def afterHops (progress : Progress) : Returned :=
  let status := if progress.lastStatus = 0 then 502 else progress.lastStatus
  let message :=
    if progress.lastMessage = "" then "no healthy backend for model " ++ request.requested
    else progress.lastMessage
  {
    exchange := progress.exchange.respond
      (writeJSON env progress.exchange.writer status (errorFields message))
    backend := ""
    provider := ""
    status := status
    error := some message }

/-- The loop, with the hops that are left. -/
def forwardFrom (worlds : ℕ → HopWorld) : ℕ → ℕ → Progress → Returned
  | _, 0, progress => afterHops env request progress
  | hop, left + 1, progress =>
      match forwardHop env request (worlds hop) hop progress with
      | .next progress => forwardFrom worlds (hop + 1) left progress
      | .leave progress => afterHops env request progress
      | .done returned => returned

/-- `Forward`, for a client to whom nothing was sent yet. -/
def forward (worlds : ℕ → HopWorld) (header : Header) : Returned :=
  forwardFrom env request worlds 0 4 {
    model := request.requested
    tried := []
    guarded := none
    lastStatus := 0
    lastMessage := ""
    exchange := ⟨⟨header, []⟩, [], none⟩ }

end Hops

end MikroLLM.Proxy
