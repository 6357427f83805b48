import MikroLLM.PromptCache.Hints
import MikroLLM.Proxy.Course

/-!
# The payload of a fallback

The body that a fallback hop sends, next to the one that is sent when its alias
is requested in the first place. The catalog is asked for the requested alias,
too, so its provider can decide on a cache hint for another model.
-/

namespace MikroLLM.Proxy

open Domain Go Guard PromptCache Store

/-- The start of a request for an alias, with a body that is filtered. -/
def firstProgress (model : String) (guarded : Guarded) (header : Header) : Progress where
  model := model
  tried := []
  guarded := some guarded
  lastStatus := 0
  lastMessage := ""
  exchange := ⟨⟨header, []⟩, [], none⟩

/-- The first hop of that request. -/
def requestedFirst (env : Env) (request : Request) (world : HopWorld) (model : String)
    (guarded : Guarded) (header : Header) : HopEnd :=
  forwardHop env { request with requested := model } world 0 (firstProgress model guarded header)

def HopEnd.events : HopEnd → List Event
  | .next progress => progress.exchange.events
  | .leave progress => progress.exchange.events
  | .done returned => returned.exchange.events

/-- A fallback hop sends what is sent when its alias is requested first. -/
def FallbackIndependent (env : Env) (request : Request) (worlds : ℕ → HopWorld)
    (header : Header) : Prop :=
  ∀ hop stage sending, 0 < hop → begunAt env request worlds hop = some stage →
    stage.sending env request (worlds hop) = some sending →
      ∀ carried direct, .call carried ∈ (forward env request worlds header).exchange.events →
        carried.aliasName = stage.model →
        .call direct ∈ (requestedFirst env request (worlds hop) stage.model sending.guarded
          header).events →
        carried.payload = direct.payload

/-- The provider of the requested alias decides on the hint for another one. -/
structure Leaks (env : Env) (request : Request) (world : HopWorld) (model : String)
    (sending : Sending) : Prop where
  kind : sending.backend.kind = .openrouter
  requested : env.requestError (plainURL request.path sending.backend) = none
  posts : isPoll request.path = false
  mode : cacheMode env world.snapshot model sending.backend = .auto
  unlisted : catalogMeta world.snapshot [sending.upstream, model] = none
  unhinted : ∃ raw, env.codec.decode (withParams env world.snapshot model request.path
      sending.backend sending.guarded.body) = some raw ∧
    hasCacheHints (prepared sending.upstream raw) = false
  decides : needsAnthropicTopLevel env.text (providerMeta world.snapshot [request.requested])
      sending.upstream model ≠
    needsAnthropicTopLevel env.text "" sending.upstream model

section Payloads

variable {env : Env} {request : Request} {world : HopWorld} {model : String} {sending : Sending}

/-- What `Prepare` is called with when the alias is requested first. -/
def directInput (env : Env) (request : Request) (world : HopWorld) (model : String)
    (sending : Sending) : PrepInput where
  body := withParams env world.snapshot model request.path sending.backend sending.guarded.body
  sendAs := sending.upstream
  origModel := model
  kind := sending.backend.kind
  provider := providerMeta world.snapshot [sending.upstream, model, model]
  mode := cacheMode env world.snapshot model sending.backend

theorem catalogMeta_append (snapshot : Snapshot) (names more : List String) :
    catalogMeta snapshot (names ++ more) =
      (catalogMeta snapshot names).or (catalogMeta snapshot more) := by
  simp [catalogMeta, List.findSome?_append]

/-- An alias whose entries are listed has its own provider. -/
theorem providerMeta_listed {snapshot : Snapshot} {upstream : String} {entry : CatalogEntry}
    (listed : catalogMeta snapshot [upstream, model] = some entry) (requested : String) :
    providerMeta snapshot [upstream, model, requested] = entry.provider := by
  have names : [upstream, model, requested] = [upstream, model] ++ [requested] := rfl
  rw [providerMeta, names, catalogMeta_append, listed]
  rfl

theorem providerMeta_unlisted {snapshot : Snapshot} {upstream : String}
    (unlisted : catalogMeta snapshot [upstream, model] = none) (requested : String) :
    providerMeta snapshot [upstream, model, requested] = providerMeta snapshot [requested] := by
  have names : [upstream, model, requested] = [upstream, model] ++ [requested] := rfl
  rw [providerMeta, names, catalogMeta_append, unlisted]
  rfl

/-- Without entries there is no provider. -/
theorem providerMeta_direct {snapshot : Snapshot} {upstream : String}
    (unlisted : catalogMeta snapshot [upstream, model] = none) :
    providerMeta snapshot [upstream, model, model] = "" := by
  have names : [upstream, model] = [upstream] ++ [model] := rfl
  rw [names, catalogMeta_append, Option.or_eq_none_iff] at unlisted
  rw [providerMeta_unlisted (by rw [names, catalogMeta_append, unlisted.1, unlisted.2]; rfl),
    providerMeta, unlisted.2]
  rfl

/-- The payload of a hop, as a call for another provider. -/
theorem hopPayload_eq (requested : String) :
    hopPayload env world.snapshot requested model request.path sending.backend sending.upstream
        sending.guarded.body =
      prepare env.text env.codec ((directInput env request world model sending).underProvider
        (providerMeta world.snapshot [sending.upstream, model, requested])) :=
  rfl

theorem hopPayload_direct :
    hopPayload env world.snapshot model model request.path sending.backend sending.upstream
        sending.guarded.body =
      prepare env.text env.codec (directInput env request world model sending) :=
  rfl

/-- The catalog is asked for the alias first, so another provider decides only for an alias
without an entry. -/
theorem anthropic_eq_iff :
    ((directInput env request world model sending).underProvider (providerMeta world.snapshot
        [sending.upstream, model, request.requested])).anthropic env.text =
      (directInput env request world model sending).anthropic env.text ↔
    ¬(catalogMeta world.snapshot [sending.upstream, model] = none ∧
      needsAnthropicTopLevel env.text (providerMeta world.snapshot [request.requested])
          sending.upstream model ≠
        needsAnthropicTopLevel env.text "" sending.upstream model) := by
  simp only [PrepInput.anthropic, PrepInput.underProvider, directInput]
  cases listed : catalogMeta world.snapshot [sending.upstream, model] with
  | some entry =>
      rw [providerMeta_listed listed, providerMeta_listed listed]
      simp
  | none =>
      rw [providerMeta_unlisted listed, providerMeta_direct listed]
      simp

theorem hopSends_congr {requested : String}
    (same : hopPayload env world.snapshot requested model request.path sending.backend
        sending.upstream sending.guarded.body =
      hopPayload env world.snapshot model model request.path sending.backend sending.upstream
        sending.guarded.body) :
    hopSends env request world requested model sending =
      hopSends env request world model model sending := by
  simp only [hopSends, same]

theorem leaks_iff {raw : Fields} (kind : sending.backend.kind = .openrouter)
    (requested : env.requestError (plainURL request.path sending.backend) = none)
    (posts : isPoll request.path = false)
    (decodes : env.codec.decode (directInput env request world model sending).body = some raw) :
    (hasCacheHints (prepared sending.upstream raw) = true ∨
        cacheMode env world.snapshot model sending.backend ≠ .auto ∨
        ¬(catalogMeta world.snapshot [sending.upstream, model] = none ∧
          needsAnthropicTopLevel env.text (providerMeta world.snapshot [request.requested])
              sending.upstream model ≠
            needsAnthropicTopLevel env.text "" sending.upstream model)) ↔
      ¬Leaks env request world model sending := by
  constructor
  · rintro same leaks
    rcases leaks.unhinted with ⟨found, decoded, unhinted⟩
    have sameRaw : found = raw := Option.some.inj (decoded.symm.trans decodes)
    subst sameRaw
    rcases same with hinted | fixed | listed
    · simp [unhinted] at hinted
    · exact fixed leaks.mode
    · exact listed ⟨leaks.unlisted, leaks.decides⟩
  · intro kept
    by_contra differs
    simp only [not_or, Bool.not_eq_true, not_not] at differs
    rcases differs with ⟨unhinted, mode, unlisted, decides⟩
    exact kept ⟨kind, requested, posts, mode, unlisted, ⟨raw, decodes, unhinted⟩, decides⟩

/-- When a hop sends the same for an alias that was not requested. -/
theorem hopSends_eq_iff (named : model ≠ "") :
    hopSends env request world request.requested model sending =
        hopSends env request world model model sending ↔
      ¬Leaks env request world model sending := by
  by_cases kind : sending.backend.kind = .openrouter
  · have isPlain : plain sending.backend = true := by simp [plain, kind]
    rw [hopSends_of_plain env request world request.requested model isPlain,
      hopSends_of_plain env request world model model isPlain, hopPayload_eq, hopPayload_direct]
    cases requested : env.requestError (plainURL request.path sending.backend) with
    | some message =>
        simp only [Option.isSome_some, if_true, true_iff]
        intro leaks
        simp [leaks.requested] at requested
    | none =>
        cases polls : isPoll request.path with
        | true =>
            simp only [Option.isSome_none, Bool.false_eq_true, if_false, if_true, true_iff]
            intro leaks
            simp [leaks.posts] at polls
        | false =>
            simp only [Option.isSome_none, Bool.false_eq_true, if_false, Option.some.injEq]
            cases decodes : env.codec.decode (directInput env request world model sending).body with
            | none =>
                rw [prepare_undecoded decodes]
                simp only [true_iff]
                intro leaks
                rcases leaks.unhinted with ⟨raw, decoded, _⟩
                simp [directInput, decoded] at decodes
            | some raw =>
                rw [prepare_provider_iff named kind decodes, anthropic_eq_iff]
                exact leaks_iff kind requested polls decodes
  · have differs : (directInput env request world model sending).kind ≠ .openrouter := kind
    constructor
    · intro _ leaks
      exact kind leaks.kind
    · intro _
      apply hopSends_congr
      rw [hopPayload_eq, hopPayload_direct]
      exact prepare_other differs _

end Payloads

section Runs

variable {env : Env} {request : Request} {worlds : ℕ → HopWorld} {world : HopWorld}
  {stage : Stage} {sending : Sending} {header : Header}

theorem Ends.visit_events {start : Exchange} {hopEnd : HopEnd}
    (ends : Ends env request world stage start hopEnd) :
    ∃ events, Visit env request world stage events ∧ hopEnd.events = start.events ++ events := by
  cases ends with
  | next progress events visit advance exchange unblocked =>
      refine ⟨events, visit, ?_⟩
      rw [HopEnd.events, exchange]
  | done returned events visit advance added answers => exact ⟨events, visit, added⟩

/-- The stage of an alias that is requested first. -/
def firstStage (model : String) (guarded : Guarded) : Stage :=
  ⟨model, [], some guarded⟩

theorem sending_firstStage (sends : stage.sending env request world = some sending) :
    (firstStage stage.model sending.guarded).sending env { request with requested := stage.model }
      world = some sending := by
  rcases picked_of_sending sends with ⟨picked, _⟩
  simp only [Stage.sending, firstStage, picked]
  rfl

/-- What the first hop sends when its alias is requested. -/
theorem requestedFirst_visit (named : stage.model ≠ "") (guarded : Guarded) (header : Header) :
    ∃ events, Visit env { request with requested := stage.model } world
        (firstStage stage.model guarded) events ∧
      (requestedFirst env request world stage.model guarded header).events =
        .hop stage.model :: events := by
  have begins : (firstProgress stage.model guarded header).stage.begins
      { request with requested := stage.model } 0 = true :=
    begins_iff.mpr ⟨named, List.not_mem_nil, fun later => absurd later (by omega)⟩
  have ends : Ends env { request with requested := stage.model } world
      (firstStage stage.model guarded) _ (requestedFirst env request world stage.model guarded
        header) := forwardHop_ends begins rfl
  rcases ends.visit_events with ⟨events, visit, same⟩
  exact ⟨events, visit, same⟩

theorem named_of_begunAt {hop : ℕ} (begun : begunAt env request worlds hop = some stage) :
    stage.model ≠ "" := by
  have begins := (begunAt_eq_some.mp begun).2.2
  simp only [Stage.begins, Bool.and_eq_true, decide_eq_true_eq] at begins
  exact begins.1.1

/-- The call of a fallback hop and the one of the same alias requested first. -/
theorem payloads_of_calls {hop : ℕ} {carried direct : Call}
    (begun : begunAt env request worlds hop = some stage)
    (sends : stage.sending env request (worlds hop) = some sending)
    (made : .call carried ∈ (forward env request worlds header).exchange.events)
    (ofHop : carried.aliasName = stage.model)
    (madeFirst : .call direct ∈ (requestedFirst env request (worlds hop) stage.model
      sending.guarded header).events) :
    hopSends env request (worlds hop) request.requested stage.model sending =
        some carried.payload ∧
      hopSends env request (worlds hop) stage.model stage.model sending = some direct.payload := by
  constructor
  · rcases (forward_course env request worlds header).1.call_of_mem made with
      ⟨later, other, found, url, payload, begunLater, sendsLater, sent, rfl⟩
    have sameHop := begunAt_unique begunLater begun ofHop
    subst sameHop
    rw [begun, Option.some.injEq] at begunLater
    subst begunLater
    rw [sends, Option.some.injEq] at sendsLater
    subst sendsLater
    exact sent
  · rcases requestedFirst_visit (named_of_begunAt begun) sending.guarded header with
      ⟨events, visit, same⟩
    rw [same] at madeFirst
    have now : .call direct ∈ events := by simpa using madeFirst
    rcases visit.call_of_mem now with ⟨found, url, payload, sendsFirst, sent, rfl⟩
    rw [sending_firstStage sends, Option.some.injEq] at sendsFirst
    subst sendsFirst
    exact sent

/-- A hop that leaks has something to send either way. -/
theorem Leaks.sends {hop : ℕ} {model : String} (leaks : Leaks env request (worlds hop) model sending)
    (requested : String) :
    ∃ payload, hopSends env request (worlds hop) requested model sending = some payload := by
  have isPlain : plain sending.backend = true := by simp [plain, leaks.kind]
  rw [hopSends_of_plain env request (worlds hop) requested model isPlain, leaks.requested]
  exact ⟨_, rfl⟩

theorem FallbackIndependent.kept {hop : ℕ}
    (independent : FallbackIndependent env request worlds header) (later : 0 < hop)
    (begun : begunAt env request worlds hop = some stage)
    (sends : stage.sending env request (worlds hop) = some sending) :
    ¬Leaks env request (worlds hop) stage.model sending := by
  intro leaks
  have named := named_of_begunAt begun
  rcases leaks.sends request.requested with ⟨payload, sent⟩
  rcases leaks.sends stage.model with ⟨first, sentFirst⟩
  rcases (forward_course env request worlds header).1.mem_of_sends (Nat.zero_le hop) begun sends
    sent with ⟨url, made⟩
  rcases requestedFirst_visit named sending.guarded header with ⟨events, visit, same⟩
  rcases visit.mem_of_sends (sending_firstStage sends) sentFirst with ⟨urlFirst, madeFirst⟩
  have samePayload := independent hop stage sending later begun sends _ _ made rfl
    (same ▸ List.mem_cons_of_mem _ madeFirst)
  have sameSends : hopSends env request (worlds hop) request.requested stage.model sending =
      hopSends env request (worlds hop) stage.model stage.model sending := by
    rw [sent, sentFirst, Option.some.injEq]
    exact samePayload
  exact (hopSends_eq_iff named).mp sameSends leaks

/-- Exactly when nothing is carried to the fallback hops of a run. -/
theorem fallbackIndependent_iff (env : Env) (request : Request) (worlds : ℕ → HopWorld)
    (header : Header) :
    FallbackIndependent env request worlds header ↔
      ∀ hop stage sending, 0 < hop → begunAt env request worlds hop = some stage →
        stage.sending env request (worlds hop) = some sending →
          ¬Leaks env request (worlds hop) stage.model sending := by
  constructor
  · intro independent hop stage sending later begun sends
    exact independent.kept later begun sends
  · intro kept hop stage sending later begun sends carried direct made ofHop madeFirst
    rcases payloads_of_calls begun sends made ofHop madeFirst with ⟨sent, sentFirst⟩
    have same := (hopSends_eq_iff (named_of_begunAt begun)).mpr
      (kept hop stage sending later begun sends)
    rw [sent, sentFirst, Option.some.injEq] at same
    exact same

end Runs

section Trial

/-- The bodies of a request for Claude and of its fallback, without a hint and with one. -/
def claudeDocuments : Documents where
  list := [
    (bytesOf "\x7b\"model\":\"claude\"\x7d", encode [("model", .string "claude")]),
    (bytesOf "\x7b\"cache_control\":\x7b\"type\":\"ephemeral\"\x7d,\"model\":\"claude\"\x7d",
      encode (hinted [("model", .string "claude")])),
    (bytesOf "\x7b\"model\":\"qwen3-max\"\x7d", encode [("model", .string "qwen3-max")]),
    (bytesOf "\x7b\"cache_control\":\x7b\"type\":\"ephemeral\"\x7d,\"model\":\"qwen3-max\"\x7d",
      encode (hinted [("model", .string "qwen3-max")]))]
  distinct := by decide
  texts := by decide

/-- Two aliases at OpenRouter, one the fallback of the other. -/
def routed : ModelTables where
  models := [
    ⟨1, "claude", "claude", "", true, [1], 0, "qwen", "inherit", "", [], false, "", ""⟩,
    ⟨2, "qwen", "qwen3-max", "", true, [1], 0, "", "inherit", "", [], false, "", ""⟩]
  backends := [⟨1, "openrouter", "https://openrouter.ai/api/v1", .openrouter, "key", true⟩]
  models_id_nodup := by decide
  models_alias_nodup := by decide
  backends_id_nodup := by decide
  backends_id_pos := by decide

/-- The catalog lists the model of Anthropic only. -/
def claudeListed : Snapshot :=
  { allUp routed unfiltered with catalog := [⟨"claude", "Anthropic", "", "", false⟩] }

/-- The account has run out of credits. -/
def outOfCredits (_hop : ℕ) : HopWorld :=
  answering claudeListed (.ok ⟨⟨402, by decide⟩, [], [bytesOf "payment required"]⟩)

def claudeRequest : Request where
  key := anyKey
  path := "/v1/chat/completions"
  body := bytesOf "\x7b\"model\":\"claude\"\x7d"
  requested := "claude"
  queueAlias := ""

def qwenSending : Sending :=
  ⟨⟨1, "openrouter", "https://openrouter.ai/api/v1", .openrouter, "key", true⟩, "qwen3-max",
    ⟨claudeRequest.body, [], []⟩⟩

def qwenStage : Stage :=
  ⟨"qwen", ["claude"], some ⟨claudeRequest.body, [], []⟩⟩

theorem qwenStage_begun :
    begunAt (trialEnv claudeDocuments fun _ => none) claudeRequest outOfCredits 1 =
      some qwenStage := by
  rfl

theorem qwenStage_sends :
    qwenStage.sending (trialEnv claudeDocuments fun _ => none) claudeRequest (outOfCredits 1) =
      some qwenSending := by
  rfl

/-- The provider of Claude decides on the hint for Qwen. -/
theorem qwen_leaks :
    Leaks (trialEnv claudeDocuments fun _ => none) claudeRequest (outOfCredits 1) "qwen"
      qwenSending where
  kind := rfl
  requested := rfl
  posts := by decide
  mode := by decide +kernel
  unlisted := by decide
  unhinted := ⟨[("model", .string "claude")], rfl, by decide⟩
  decides := by decide +kernel

/-- A hint for Anthropic is carried to a model that is not theirs. -/
theorem not_fallbackIndependent :
    ¬∀ (env : Env) (request : Request) (worlds : ℕ → HopWorld) (header : Header),
      FallbackIndependent env request worlds header := by
  intro claim
  have independent := claim (trialEnv claudeDocuments fun _ => none) claudeRequest outOfCredits []
  exact independent.kept (by decide) qwenStage_begun qwenStage_sends qwen_leaks

end Trial

end MikroLLM.Proxy
