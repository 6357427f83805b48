import MikroLLM.Go.Codec
import MikroLLM.Proxy.Hops

/-!
# The course of a request

The hops of a whole run of `Forward`: which aliases it tries, which upstreams it
calls for them, and which hop the client has its response from.
-/

namespace MikroLLM.Proxy

open Domain Go Guard Store

section Stages

variable (env : Env) (request : Request) (worlds : ℕ → HopWorld)

/-- The stage before a hop of a run, if the run comes to it. -/
def stageAt : ℕ → Option Stage
  | 0 => some ⟨request.requested, [], none⟩
  | hop + 1 =>
      match stageAt hop with
      | none => none
      | some stage =>
          if stage.begins request hop then stage.advance env request (worlds hop) else none

/-- The stage of a hop that the run begins. -/
def begunAt (hop : ℕ) : Option Stage :=
  if hop < 4 then (stageAt env request worlds hop).filter (·.begins request hop) else none

/-- The reply that a hop passes on to the client. -/
def relayedAt (hop : ℕ) : Option (Sending × Reply) :=
  (begunAt env request worlds hop).bind (·.relays env request (worlds hop))

/-- What a hop delivers to the client. -/
def deliveredAt (hop : ℕ) : Option Delivery :=
  (begunAt env request worlds hop).bind (·.delivers env request (worlds hop))

/-- The events of a run from a hop on. -/
inductive Course : ℕ → List Event → Prop
  | ended {hop : ℕ} (ends : begunAt env request worlds hop = none) : Course hop []
  | visit {hop : ℕ} {events later : List Event} (stage : Stage)
      (begun : begunAt env request worlds hop = some stage)
      (visit : Visit env request (worlds hop) stage events) (rest : Course (hop + 1) later) :
      Course hop (.hop stage.model :: (events ++ later))

/-- When a policy kept a reply back, its error is all that the client has. -/
def BlockedAnswer (start : Writer) (events : List Event) (exchange : Exchange) : Prop :=
  ∀ block, Event.blocked block ∈ events →
    ∃ begun : Writer, (begun = start ∨ ∃ model, begun = start.setHeader "X-Mikrollm-Fallback"
        (request.requested ++ " -> " ++ model)) ∧
      exchange.writer = writeJSON env (begun.setHeader "X-Mikrollm-Guardrail" block.policy) 400
        (writeError block)

/-- What the client has in the end, from a hop on. -/
structure Finishes (hop : ℕ) (start exchange : Exchange) : Prop where
  relayed : ∀ later, hop ≤ later → ∀ sending reply,
    relayedAt env request worlds later = some (sending, reply) →
      ∃ header, lengthsOf header = lengthsOf start.writer.header ++ lengthsOf reply.header ∧
        Answered exchange.writer reply.code header (answerBody env sending.guarded reply)
  own : (∀ later, hop ≤ later → relayedAt env request worlds later = none) →
    AnsweredWith (lengthsOf start.writer.header) exchange.writer
  delivered : ∀ later, hop ≤ later → ∀ delivery,
    deliveredAt env request worlds later = some delivery → exchange.delivery = some delivery
  undelivered : (∀ later, hop ≤ later → deliveredAt env request worlds later = none) →
    exchange.delivery = start.delivery

end Stages

section Spec

variable {env : Env} {request : Request} {worlds : ℕ → HopWorld} {hop : ℕ} {stage : Stage}

theorem stageAt_succ (comes : stageAt env request worlds hop = some stage) :
    stageAt env request worlds (hop + 1) =
      if stage.begins request hop then stage.advance env request (worlds hop) else none := by
  simp only [stageAt, comes]

theorem stageAt_none_add (ends : stageAt env request worlds hop = none) (more : ℕ) :
    stageAt env request worlds (hop + more) = none := by
  induction more with
  | zero => exact ends
  | succ more ih =>
      rw [← Nat.add_assoc]
      simp only [stageAt, ih]

theorem begunAt_eq_some :
    begunAt env request worlds hop = some stage ↔
      hop < 4 ∧ stageAt env request worlds hop = some stage ∧
        stage.begins request hop = true := by
  unfold begunAt
  by_cases small : hop < 4
  · simp [small, Option.filter_eq_some_iff]
  · simp [small]

theorem begunAt_of_stage (small : hop < 4) (comes : stageAt env request worlds hop = some stage)
    (begins : stage.begins request hop = true) : begunAt env request worlds hop = some stage :=
  begunAt_eq_some.mpr ⟨small, comes, begins⟩

/-- After a hop that does not lead to another none begins. -/
theorem begunAt_after (ends : stageAt env request worlds (hop + 1) = none) {later : ℕ}
    (after : hop < later) : begunAt env request worlds later = none := by
  have never := stageAt_none_add ends (later - (hop + 1))
  rw [Nat.add_sub_cancel' after] at never
  simp [begunAt, never]

theorem begunAt_stays (comes : stageAt env request worlds hop = some stage)
    (stays : stage.begins request hop = false) {later : ℕ} (after : hop ≤ later) :
    begunAt env request worlds later = none := by
  rcases Nat.eq_or_lt_of_le after with rfl | after
  · simp [begunAt, comes, stays]
  · exact begunAt_after (by simp [stageAt_succ comes, stays]) after

theorem begunAt_four {later : ℕ} (after : 4 ≤ later) : begunAt env request worlds later = none := by
  have large : ¬later < 4 := by omega
  simp [begunAt, large]

/-- A run begins its hops one after the other. -/
theorem begunAt_none (ends : begunAt env request worlds hop = none) {later : ℕ}
    (after : hop ≤ later) : begunAt env request worlds later = none := by
  by_cases small : hop < 4
  · rcases Nat.exists_eq_add_of_le after with ⟨more, rfl⟩
    cases comes : stageAt env request worlds hop with
    | none => simp [begunAt, stageAt_none_add comes more]
    | some stage =>
        cases begins : stage.begins request hop with
        | true => simp [begunAt_of_stage small comes begins] at ends
        | false => exact begunAt_stays comes begins after
  · exact begunAt_four (by omega)

/-- Only the writer and the delivery before matter. -/
theorem Finishes.congr {start between exchange : Exchange}
    (finishes : Finishes env request worlds hop between exchange)
    (sameWriter : between.writer = start.writer) (sameDelivery : between.delivery = start.delivery) :
    Finishes env request worlds hop start exchange := by
  rcases finishes with ⟨relayed, own, delivered, undelivered⟩
  rw [sameWriter] at relayed own
  rw [sameDelivery] at undelivered
  exact ⟨relayed, own, delivered, undelivered⟩

/-- The client gets one response. -/
theorem Finishes.answered {start exchange : Exchange}
    (finishes : Finishes env request worlds hop start exchange) :
    ∃ code header bytes, Answered exchange.writer code header bytes := by
  by_cases own : ∀ later, hop ≤ later → relayedAt env request worlds later = none
  · rcases finishes.own own with ⟨code, header, bytes, _, answered⟩
    exact ⟨code, header, bytes, answered⟩
  · simp only [not_forall] at own
    rcases own with ⟨later, after, some⟩
    rcases Option.ne_none_iff_exists'.mp some with ⟨⟨sending, reply⟩, relayed⟩
    rcases finishes.relayed later after sending reply relayed with ⟨header, _, answered⟩
    exact ⟨_, header, _, answered⟩

/-- A run that nothing begins in any more, with an answer of the proxy itself. -/
theorem finishes_own {start exchange : Exchange}
    (ends : ∀ later, hop ≤ later → begunAt env request worlds later = none)
    (answered : AnsweredWith (lengthsOf start.writer.header) exchange.writer)
    (delivery : exchange.delivery = start.delivery) :
    Finishes env request worlds hop start exchange := by
  refine ⟨fun later after sending reply relayed => ?_, fun _ => answered,
    fun later after delivery delivered => ?_, fun _ => delivery⟩
  · simp [relayedAt, ends later after] at relayed
  · simp [deliveredAt, ends later after] at delivered

/-- What is known of a hop that the loop comes to. -/
structure Arrives (env : Env) (request : Request) (worlds : ℕ → HopWorld) (hop : ℕ)
    (progress : Progress) : Prop where
  comes : stageAt env request worlds hop = some progress.stage
  unsent : progress.exchange.writer.sent = []

variable {progress : Progress}

theorem afterHops_finishes (unsent : progress.exchange.writer.sent = [])
    (ends : ∀ later, hop ≤ later → begunAt env request worlds later = none) :
    Finishes env request worlds hop progress.exchange (afterHops env request progress).exchange :=
  finishes_own ends (answeredWith_writeJSON unsent _ _) rfl

/-- A hop that is the last decides what the client has. -/
theorem finishes_last {start : Exchange} {events : List Event} {exchange : Exchange}
    (small : hop < 4) (comes : stageAt env request worlds hop = some stage)
    (begins : stage.begins request hop = true)
    (advance : stage.advance env request (worlds hop) = none)
    (answers : Answers env request (worlds hop) stage start events exchange) :
    Finishes env request worlds hop start exchange := by
  have begun := begunAt_of_stage small comes begins
  have ends : stageAt env request worlds (hop + 1) = none := by
    rw [stageAt_succ comes, if_pos begins, advance]
  have relayed : relayedAt env request worlds hop = stage.relays env request (worlds hop) := by
    simp [relayedAt, begun]
  have delivered : deliveredAt env request worlds hop = stage.delivers env request (worlds hop) := by
    simp [deliveredAt, begun]
  refine ⟨fun later after sending reply relays => ?_, fun none => ?_,
    fun later after delivery delivers => ?_, fun none => ?_⟩
  · rcases Nat.eq_or_lt_of_le after with rfl | after
    · exact answers.relayed sending reply (relayed ▸ relays)
    · simp [relayedAt, begunAt_after ends after] at relays
  · exact answers.own (relayed ▸ none hop le_rfl)
  · rcases Nat.eq_or_lt_of_le after with rfl | after
    · rw [answers.delivery, ← delivered, delivers]
      rfl
    · simp [deliveredAt, begunAt_after ends after] at delivers
  · rw [answers.delivery, ← delivered, none hop le_rfl]
    rfl

/-- A hop that leads to another gives the client nothing. -/
theorem finishes_next {start exchange : Exchange} (small : hop < 4)
    (comes : stageAt env request worlds hop = some stage) (begins : stage.begins request hop = true)
    (advance : stage.advance env request (worlds hop) ≠ none)
    (finishes : Finishes env request worlds (hop + 1) start exchange) :
    Finishes env request worlds hop start exchange := by
  have begun := begunAt_of_stage small comes begins
  have unrelayed : relayedAt env request worlds hop = none := by
    simp [relayedAt, begun, relays_of_advance advance]
  have undelivered : deliveredAt env request worlds hop = none := by
    simp [deliveredAt, begun, delivers_of_advance advance]
  refine ⟨fun later after sending reply relays => ?_, fun none => ?_,
    fun later after delivery delivers => ?_, fun none => ?_⟩
  · rcases Nat.eq_or_lt_of_le after with rfl | after
    · simp [unrelayed] at relays
    · exact finishes.relayed later after sending reply relays
  · exact finishes.own fun later after => none later (by omega)
  · rcases Nat.eq_or_lt_of_le after with rfl | after
    · simp [undelivered] at delivers
    · exact finishes.delivered later after delivery delivers
  · exact finishes.undelivered fun later after => none later (by omega)

/-- The loop of `Forward` goes through the stages of the run. -/
theorem forwardFrom_course (left : ℕ) (counted : hop + left = 4)
    (arrives : Arrives env request worlds hop progress) :
    ∃ events, (forwardFrom env request worlds hop left progress).exchange.events =
        progress.exchange.events ++ events ∧
      Course env request worlds hop events ∧
      BlockedAnswer env request progress.exchange.writer events
        (forwardFrom env request worlds hop left progress).exchange ∧
      Finishes env request worlds hop progress.exchange
        (forwardFrom env request worlds hop left progress).exchange := by
  induction left generalizing hop progress with
  | zero =>
      have ends : ∀ later, hop ≤ later → begunAt env request worlds later = none :=
        fun later after => begunAt_four (by omega)
      refine ⟨[], ?_, .ended (ends hop le_rfl), fun block listed => absurd listed (by simp),
        afterHops_finishes arrives.unsent ends⟩
      simp [forwardFrom, afterHops, Exchange.respond]
  | succ left ih =>
      have small : hop < 4 := by omega
      cases begins : progress.stage.begins request hop with
      | false =>
          have ends : ∀ later, hop ≤ later → begunAt env request worlds later = none :=
            fun later after => begunAt_stays arrives.comes begins after
          have leaves : ∃ left', forwardHop env request (worlds hop) hop progress = .leave left' ∧
              left'.exchange = progress.exchange ∧ left'.lastStatus = progress.lastStatus ∧
              left'.lastMessage = progress.lastMessage := forwardHop_leaves begins
          rcases leaves with ⟨last, leaves, sameExchange, _, _⟩
          simp only [forwardFrom, leaves]
          refine ⟨[], ?_, .ended (ends hop le_rfl), fun block listed => absurd listed (by simp), ?_⟩
          · simp [afterHops, Exchange.respond, sameExchange]
          · rw [← sameExchange]
            exact afterHops_finishes (sameExchange ▸ arrives.unsent) ends
      | true =>
          have begun := begunAt_of_stage small arrives.comes begins
          have hopEnds : Ends env request (worlds hop) progress.stage
              (progress.exchange.record (.hop progress.model))
              (forwardHop env request (worlds hop) hop progress) :=
            forwardHop_ends begins arrives.unsent
          have model : progress.stage.model = progress.model := rfl
          simp only [forwardFrom]
          generalize forwardHop env request (worlds hop) hop progress = hopEnd at hopEnds
          cases hopEnds with
          | next following events visit advance exchange unblocked =>
              have comes : stageAt env request worlds (hop + 1) = some following.stage := by
                rw [stageAt_succ arrives.comes, if_pos begins, advance]
              have unsent : following.exchange.writer.sent = [] := by
                rw [exchange]
                exact arrives.unsent
              have sameWriter : following.exchange.writer = progress.exchange.writer := by
                rw [exchange]
                rfl
              rcases ih (by omega) ⟨comes, unsent⟩ with ⟨later, added, course, blocked, finishes⟩
              refine ⟨.hop progress.model :: (events ++ later), ?_, ?_, ?_, ?_⟩
              · simp [added, exchange, Exchange.record]
              · rw [← model]
                exact .visit progress.stage begun visit course
              · intro block listed
                have after : Event.blocked block ∈ later := by
                  simpa [unblocked block] using listed
                rw [← sameWriter]
                exact blocked block after
              · refine finishes_next small arrives.comes begins (by simp [advance]) ?_
                apply finishes.congr sameWriter
                rw [exchange]
                rfl
          | done returned events visit advance added answers =>
              have ends : stageAt env request worlds (hop + 1) = none := by
                rw [stageAt_succ arrives.comes, if_pos begins, advance]
              refine ⟨.hop progress.model :: (events ++ []), ?_, ?_, ?_, ?_⟩
              · simp [added, Exchange.record]
              · rw [← model]
                exact .visit progress.stage begun visit
                  (.ended (begunAt_after ends (Nat.lt_succ_self hop)))
              · intro block listed
                have now : Event.blocked block ∈ events := by simpa using listed
                rcases answers.blocked block now with ⟨begun, named, same⟩
                exact ⟨begun, named.imp_right fun named => ⟨_, named⟩, same⟩
              · have last := finishes_last small arrives.comes begins advance answers
                exact last.congr rfl rfl

/-- The whole run. -/
theorem forward_course (env : Env) (request : Request) (worlds : ℕ → HopWorld) (header : Header) :
    Course env request worlds 0 (forward env request worlds header).exchange.events ∧
      BlockedAnswer env request ⟨header, []⟩ (forward env request worlds header).exchange.events
        (forward env request worlds header).exchange ∧
      Finishes env request worlds 0 ⟨⟨header, []⟩, [], none⟩
        (forward env request worlds header).exchange := by
  have arrives : Arrives env request worlds 0 ⟨request.requested, [], none, 0, "",
      ⟨⟨header, []⟩, [], none⟩⟩ := ⟨rfl, rfl⟩
  rcases forwardFrom_course 4 (by omega) arrives with ⟨events, added, course, blocked, finishes⟩
  have same : (forward env request worlds header).exchange.events = events := by
    simpa [forward] using added
  rw [same]
  exact ⟨course, blocked, finishes⟩

/-- An alias stays tried. -/
theorem tried_of_stageAt {model : String} {next : Stage} (more : ℕ)
    (comes : stageAt env request worlds hop = some stage) (tried : model ∈ stage.tried)
    (later : stageAt env request worlds (hop + more) = some next) : model ∈ next.tried := by
  induction more generalizing next with
  | zero =>
      rw [Nat.add_zero, comes, Option.some.injEq] at later
      exact later ▸ tried
  | succ more ih =>
      cases before : stageAt env request worlds (hop + more) with
      | none => simp [stageAt, before] at later
      | some previous =>
          rw [← Nat.add_assoc, stageAt_succ before, Option.ite_none_right_eq_some] at later
          rw [advance_tried later.2]
          exact List.mem_cons_of_mem _ (ih before)

/-- Two hops of a run try two aliases. -/
theorem model_ne_of_begunAt {later : ℕ} {next : Stage} (before : hop < later)
    (begun : begunAt env request worlds hop = some stage)
    (begunLater : begunAt env request worlds later = some next) : stage.model ≠ next.model := by
  rcases begunAt_eq_some.mp begun with ⟨_, comes, begins⟩
  rcases begunAt_eq_some.mp begunLater with ⟨_, comesLater, beginsLater⟩
  rcases Nat.exists_eq_add_of_le before with ⟨more, rfl⟩
  have fresh : next.model ∉ next.tried := by
    simp only [Stage.begins, Bool.and_eq_true, Bool.not_eq_true', decide_eq_false_iff_not]
      at beginsLater
    exact beginsLater.1.2
  cases between : stageAt env request worlds (hop + 1) with
  | none => simp [stageAt_none_add between] at comesLater
  | some following =>
      have advance := between
      rw [stageAt_succ comes, if_pos begins] at advance
      have tried : stage.model ∈ following.tried := by
        rw [advance_tried advance]
        exact List.mem_cons_self
      intro same
      exact fresh (same ▸ tried_of_stageAt more between tried comesLater)

theorem begunAt_unique {later : ℕ} {next : Stage}
    (begun : begunAt env request worlds hop = some stage)
    (begunLater : begunAt env request worlds later = some next)
    (same : stage.model = next.model) : hop = later := by
  by_contra different
  rcases Nat.lt_or_gt_of_ne different with before | after
  · exact model_ne_of_begunAt before begun begunLater same
  · exact model_ne_of_begunAt after begunLater begun same.symm

/-- Every call is made by a hop of the run. -/
theorem Course.call_of_mem {events : List Event} {call : Call}
    (course : Course env request worlds hop events) (made : Event.call call ∈ events) :
    ∃ later stage sending url payload, begunAt env request worlds later = some stage ∧
      stage.sending env request (worlds later) = some sending ∧
      hopSends env request (worlds later) request.requested stage.model sending = some payload ∧
      call = ⟨stage.model, sending.upstream, sending.backend, url, payload,
        sending.guarded.ran⟩ := by
  induction course with
  | ended ends => simp at made
  | visit stage begun visit rest ih =>
      simp only [List.mem_cons, reduceCtorEq, false_or, List.mem_append] at made
      rcases made with now | later
      · rcases visit.call_of_mem now with ⟨sending, url, payload, sends, sent, same⟩
        exact ⟨_, stage, sending, url, payload, begun, sends, sent, same⟩
      · exact ih later

/-- Every hop that has something to send calls its upstream. -/
theorem Course.mem_of_sends {events : List Event} {later : ℕ} {sending : Sending}
    {payload : Option Bytes} (course : Course env request worlds hop events) (after : hop ≤ later)
    (begun : begunAt env request worlds later = some stage)
    (sends : stage.sending env request (worlds later) = some sending)
    (sent : hopSends env request (worlds later) request.requested stage.model sending =
      some payload) :
    ∃ url, Event.call ⟨stage.model, sending.upstream, sending.backend, url, payload,
      sending.guarded.ran⟩ ∈ events := by
  induction course with
  | ended ends => simp [begunAt_none ends after] at begun
  | @visit hop events following now begunNow visit rest ih =>
      rcases Nat.eq_or_lt_of_le after with rfl | after
      · rw [begun, Option.some.injEq] at begunNow
        subst begunNow
        rcases visit.mem_of_sends sends sent with ⟨url, made⟩
        exact ⟨url, by simp [made]⟩
      · rcases ih after with ⟨url, made⟩
        exact ⟨url, by simp [made]⟩

/-- A run comes to each of its stages with an unused writer. -/
theorem forward_arrives {header : Header} (small : hop ≤ 4)
    (comes : stageAt env request worlds hop = some stage) :
    ∃ progress : Progress, progress.stage = stage ∧ progress.exchange.writer = ⟨header, []⟩ ∧
      forward env request worlds header =
        forwardFrom env request worlds hop (4 - hop) progress := by
  induction hop generalizing stage with
  | zero =>
      rw [stageAt, Option.some.injEq] at comes
      subst comes
      exact ⟨_, rfl, rfl, rfl⟩
  | succ hop ih =>
      cases before : stageAt env request worlds hop with
      | none => simp [stageAt, before] at comes
      | some previous =>
          rw [stageAt_succ before, Option.ite_none_right_eq_some] at comes
          rcases comes with ⟨begins, advance⟩
          rcases ih (by omega) before with ⟨progress, rfl, writer, same⟩
          have hopEnds : Ends env request (worlds hop) progress.stage
              (progress.exchange.record (.hop progress.model))
              (forwardHop env request (worlds hop) hop progress) :=
            forwardHop_ends begins (by simp [writer])
          have left : 4 - hop = 4 - (hop + 1) + 1 := by omega
          rw [same, left]
          simp only [forwardFrom]
          generalize forwardHop env request (worlds hop) hop progress = hopEnd at hopEnds
          cases hopEnds with
          | next following events visit follows exchange unblocked =>
              rw [advance, Option.some.injEq] at follows
              refine ⟨following, follows.symm, ?_, rfl⟩
              rw [exchange]
              exact writer
          | done returned events visit ends added answers =>
              exact absurd advance (by simp [ends])

end Spec

section Trials

/-- A request and the body it has upstream. -/
def chatDocuments : Documents where
  list := [
    (bytesOf "\x7b\"model\":\"chat\"\x7d", encode [("model", .string "chat")]),
    (bytesOf "\x7b\"model\":\"qwen3\"\x7d", encode [("model", .string "qwen3")])]
  distinct := by decide
  texts := by decide

/-- An environment that knows some documents and in which no request fails. -/
noncomputable def trialEnv (documents : Documents) (filters : Filters) : Env where
  text := asciiText
  codec := knownCodec documents
  filters := filters
  inject _ _ _ body := body
  cacheTokens _ := (0, 0)
  hubStream body := [body]
  pathEscape text := text
  requestError _ := none
  codexSession _ := .error "codex: empty session"
  codexRequest _ body := .ok body
  grokSession _ := .error "grok: empty session"
  grokRequest _ body := .ok body

def macServer : Backend :=
  ⟨1, "mac", "http://192.168.88.82:8000", .vllm, "", true⟩

/-- One alias on one server. -/
def oneServer : ModelTables where
  models := [⟨1, "chat", "qwen3", "", true, [1], 0, "", "inherit", "", [], false, "", ""⟩]
  backends := [macServer]
  models_id_nodup := by decide
  models_alias_nodup := by decide
  backends_id_nodup := by decide
  backends_id_pos := by decide

/-- Every server is up, and no catalog is known. -/
def allUp (models : ModelTables) (policies : PolicyTables) : Snapshot where
  models := models
  policies := policies
  healthy _ := true
  served _ := []
  conns _ := 0
  catalog := []
  turns := 0
  promptCacheMode := "auto"
  hubURL := ""

def unfiltered : PolicyTables where
  policies := []
  targets := []
  policies_id_nodup := List.nodup_nil

/-- The upstream of a hop answers with this. -/
def answering (snapshot : Snapshot) (reply : Except String Reply) : HopWorld where
  snapshot := snapshot
  reply := reply
  codex := ⟨none, .error "unreachable"⟩
  grok := ⟨.error "unreachable", false, .error "unreachable"⟩

/-- A key for everything. -/
def anyKey : APIKey := ⟨1, "team", "mk-1", [], 0, true⟩

/-- A chat with that alias. -/
def chatRequest : Request where
  key := anyKey
  path := "/v1/chat/completions"
  body := bytesOf "\x7b\"model\":\"chat\"\x7d"
  requested := "chat"
  queueAlias := ""

end Trials

end MikroLLM.Proxy
