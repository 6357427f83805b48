import MikroLLM.Proxy.Answers

/-!
# Hops

Which aliases `Forward` tries follows from the request and the world alone. A
`Stage` is what a hop starts from and `advance` is the stage after it; the loop
of `Forward` goes through these stages, and a hop gives the client something
only when it is the last.
-/

namespace MikroLLM.Proxy

open Domain Go Guard

/-- What a hop starts from. -/
structure Stage where
  model : String
  tried : List String
  guarded : Option Guarded

def Progress.stage (progress : Progress) : Stage :=
  ⟨progress.model, progress.tried, progress.guarded⟩

/-- A hop with a backend and a body for it. -/
structure Sending where
  backend : Backend
  upstream : String
  guarded : Guarded

section Stages

variable (env : Env) (request : Request) (world : HopWorld) (stage : Stage)

/-- The alias was not tried, and the key may use it unless it was requested. -/
def Stage.begins (hop : ℕ) : Bool :=
  stage.model ≠ "" && !decide (stage.model ∈ stage.tried) &&
    (hop = 0 || request.key.allows stage.model)

/-- The fallback of the alias, unless it was tried. -/
def Stage.fallback : Option String :=
  (fallbackOf world.snapshot stage.model).filter (· ∉ stage.model :: stage.tried)

/-- The guard of a hop, which a hop before may have run. -/
def Stage.guard (upstream : String) : Except Block Guarded :=
  guardOnce env request world.snapshot
    ⟨stage.model, stage.tried, stage.guarded, 0, "", ⟨⟨[], []⟩, [], none⟩⟩ upstream

/-- The backend of a hop, the name of the model there and the filtered body. -/
def Stage.sending : Option Sending :=
  match pick world.snapshot stage.model with
  | .error _ => none
  | .ok (backend, upstream) =>
      (stage.guard env request world upstream).toOption.map (⟨backend, upstream, ·⟩)

/-- A backend that `Forward` does not leave to a delegate. -/
def plain (backend : Backend) : Bool :=
  backend.kind ≠ .hub && backend.kind ≠ .codex && backend.kind ≠ .grok

def plainURL (path : String) (backend : Backend) : String :=
  trimRight backend.baseURL '/' ++ rewriteUpstreamPath backend path

/-- A reply after which `Forward` looks for a fallback. -/
def fails : Except String Reply → Bool
  | .error _ => true
  | .ok reply => 400 ≤ reply.code && isBillingError env reply.code (reply.body.take 8192)

/-- The request of a hop has no answer for the client. -/
def unanswered (sending : Sending) : Bool :=
  plain sending.backend && (env.requestError (plainURL request.path sending.backend)).isNone &&
    fails env world.reply

/-- The stage after a hop that falls back. -/
def Stage.advance : Option Stage :=
  match pick world.snapshot stage.model with
  | .error _ => (stage.fallback world).map (⟨·, stage.model :: stage.tried, stage.guarded⟩)
  | .ok _ =>
      match stage.sending env request world with
      | none => none
      | some sending =>
          if unanswered env request world sending then
            (stage.fallback world).map (⟨·, stage.model :: stage.tried, some sending.guarded⟩)
          else none

/-- The body that a hop sends, if it sends a request: none inside for a request without a body. -/
def hopSends (requested model : String) (sending : Sending) : Option (Option Bytes) :=
  let backend := sending.backend
  let body := sending.guarded.body
  let payload := hopPayload env world.snapshot requested model request.path backend
    sending.upstream body
  if backend.kind = .hub then
    (hubSends env world.snapshot.hubURL request.path sending.upstream backend body).map some
  else if backend.kind = .codex then (codexSends env backend payload world.codex).map some
  else if backend.kind = .grok then (grokSends env backend payload).map some
  else if (env.requestError (plainURL request.path backend)).isSome then none
  else some (if isPoll request.path then none else some payload)

/-- A reply that `Forward` passes on to the client. -/
def Stage.relays : Option (Sending × Reply) :=
  match stage.sending env request world, world.reply with
  | some sending, .ok reply =>
      if plain sending.backend = true ∧
          (env.requestError (plainURL request.path sending.backend)).isNone ∧
          stage.advance env request world = none ∧
          (400 ≤ reply.code ∨
            relayedBlock env sending.guarded.body sending.guarded.policies reply = none) then
        some (sending, reply)
      else none
  | _, _ => none

/-- The body of a reply that is passed on. -/
def answerBody (guarded : Guarded) (reply : Reply) : Bytes :=
  if 400 ≤ reply.code then reply.body.take 8192
  else relayedBody env guarded.body guarded.policies reply

/-- What the client gets of a hop as a reply that is no error of the proxy. -/
def Stage.delivers : Option Delivery :=
  match stage.sending env request world with
  | none => none
  | some sending =>
      let backend := sending.backend
      let body := sending.guarded.body
      let payload := hopPayload env world.snapshot request.requested stage.model request.path
        backend sending.upstream body
      if backend.kind = .hub then
        hubDelivers env request.path body world.reply
          (hubSends env world.snapshot.hubURL request.path sending.upstream backend body)
      else if backend.kind = .codex then
        codexDelivers world.codex (codexSends env backend payload world.codex)
      else if backend.kind = .grok then
        grokDelivers env world.grok (grokSends env backend payload)
      else
        match stage.relays env request world with
        | none => none
        | some (sending, reply) =>
            if 400 ≤ reply.code then none
            else some ⟨reply.code, reply.body, answerBody env sending.guarded reply,
              relayedRan env sending.guarded.body sending.guarded.policies reply⟩

end Stages

/-- What a hop adds to the events, after the one for its alias. -/
inductive Visit (env : Env) (request : Request) (world : HopWorld) (stage : Stage) :
    List Event → Prop
  | unsent (nothing : stage.sending env request world = none) : Visit env request world stage []
  | sent (sending : Sending) (calls : List Call) (tail : List Event)
      (sends : stage.sending env request world = some sending)
      (made : calls = [] ↔ hopSends env request world request.requested stage.model sending = none)
      (ofHop : ∀ call ∈ calls, ∃ url payload,
        hopSends env request world request.requested stage.model sending = some payload ∧
          call = ⟨stage.model, sending.upstream, sending.backend, url, payload,
            sending.guarded.ran⟩)
      (blocked : tail = [] ∨ ∃ block, tail = [.blocked block]) :
      Visit env request world stage
        (.inc sending.backend.id :: (calls.map Event.call ++ .dec sending.backend.id :: tail))

/-- What the client gets of a hop that is the last. -/
structure Answers (env : Env) (request : Request) (world : HopWorld) (stage : Stage)
    (start : Exchange) (events : List Event) (exchange : Exchange) : Prop where
  relayed : ∀ sending reply, stage.relays env request world = some (sending, reply) →
    ∃ header, lengthsOf header = lengthsOf start.writer.header ++ lengthsOf reply.header ∧
      Answered exchange.writer reply.code header (answerBody env sending.guarded reply)
  own : stage.relays env request world = none →
    AnsweredWith (lengthsOf start.writer.header) exchange.writer
  delivery : exchange.delivery = (stage.delivers env request world).or start.delivery
  blocked : ∀ block, Event.blocked block ∈ events →
    ∃ begun : Writer, (begun = start.writer ∨ begun = start.writer.setHeader "X-Mikrollm-Fallback"
        (request.requested ++ " -> " ++ stage.model)) ∧
      exchange.writer = writeJSON env (begun.setHeader "X-Mikrollm-Guardrail" block.policy) 400
        (writeError block)

/-- How a hop ends that begins at a stage. -/
inductive Ends (env : Env) (request : Request) (world : HopWorld) (stage : Stage)
    (start : Exchange) : HopEnd → Prop
  | next (progress : Progress) (events : List Event)
      (visit : Visit env request world stage events)
      (advance : stage.advance env request world = some progress.stage)
      (exchange : progress.exchange = { start with events := start.events ++ events })
      (unblocked : ∀ block, Event.blocked block ∉ events) :
      Ends env request world stage start (.next progress)
  | done (returned : Returned) (events : List Event)
      (visit : Visit env request world stage events)
      (advance : stage.advance env request world = none)
      (added : returned.exchange.events = start.events ++ events)
      (answers : Answers env request world stage start events returned.exchange) :
      Ends env request world stage start (.done returned)

section Spec

variable {env : Env} {request : Request} {world : HopWorld} {stage : Stage} {start : Exchange}
  {sending : Sending}

theorem advance_of_unpicked {message : String}
    (unpicked : pick world.snapshot stage.model = .error message) :
    stage.advance env request world =
      (stage.fallback world).map (⟨·, stage.model :: stage.tried, stage.guarded⟩) := by
  simp only [Stage.advance, unpicked]

theorem sending_of_unpicked {message : String}
    (unpicked : pick world.snapshot stage.model = .error message) :
    stage.sending env request world = none := by
  simp only [Stage.sending, unpicked]

/-- A hop that sends was picked. -/
theorem picked_of_sending (sends : stage.sending env request world = some sending) :
    pick world.snapshot stage.model = .ok (sending.backend, sending.upstream) ∧
      stage.guard env request world sending.upstream = .ok sending.guarded := by
  unfold Stage.sending at sends
  split at sends
  · exact absurd sends (by simp)
  · rename_i backend upstream picked
    cases passed : stage.guard env request world upstream with
    | error block => simp [passed, Except.toOption] at sends
    | ok guarded =>
        simp only [passed, Except.toOption, Option.map_some, Option.some.injEq] at sends
        subst sends
        exact ⟨picked, passed⟩

theorem advance_of_sending (sends : stage.sending env request world = some sending) :
    stage.advance env request world =
      if unanswered env request world sending then
        (stage.fallback world).map (⟨·, stage.model :: stage.tried, some sending.guarded⟩)
      else none := by
  simp only [Stage.advance, (picked_of_sending sends).1, sends]

theorem advance_tried {next : Stage} (advance : stage.advance env request world = some next) :
    next.tried = stage.model :: stage.tried := by
  have falls : ∀ guarded : Option Guarded,
      (stage.fallback world).map (⟨·, stage.model :: stage.tried, guarded⟩) = some next →
        next.tried = stage.model :: stage.tried := by
    intro guarded falls
    rcases Option.map_eq_some_iff.mp falls with ⟨name, _, rfl⟩
    rfl
  cases picked : pick world.snapshot stage.model with
  | error message => exact falls _ (advance_of_unpicked picked ▸ advance)
  | ok found =>
      cases sends : stage.sending env request world with
      | none => simp [Stage.advance, picked, sends] at advance
      | some sending =>
          rw [advance_of_sending sends, Option.ite_none_right_eq_some] at advance
          exact falls _ advance.2

/-- A hop that finds a backend and sends nothing was blocked. -/
theorem advance_of_blocked {backend : Backend} {upstream : String}
    (picked : pick world.snapshot stage.model = .ok (backend, upstream))
    (nothing : stage.sending env request world = none) :
    stage.advance env request world = none := by
  simp only [Stage.advance, picked, nothing]

/-- When a reply is passed on. -/
theorem relays_eq_some {reply : Reply} :
    stage.relays env request world = some (sending, reply) ↔
      stage.sending env request world = some sending ∧ world.reply = .ok reply ∧
        plain sending.backend = true ∧
        (env.requestError (plainURL request.path sending.backend)).isNone ∧
        stage.advance env request world = none ∧
        (400 ≤ reply.code ∨
          relayedBlock env sending.guarded.body sending.guarded.policies reply = none) := by
  unfold Stage.relays
  cases sends : stage.sending env request world with
  | none => simp
  | some found =>
      cases replied : world.reply with
      | error message => simp
      | ok answer =>
          simp only [Option.ite_none_right_eq_some, Option.some.injEq, Prod.mk.injEq,
            Except.ok.injEq]
          constructor
          · rintro ⟨conditions, rfl, rfl⟩
            exact ⟨rfl, rfl, conditions⟩
          · rintro ⟨rfl, rfl, conditions⟩
            exact ⟨conditions, rfl, rfl⟩

theorem relays_of_nothing (nothing : stage.sending env request world = none) :
    stage.relays env request world = none := by
  simp only [Stage.relays, nothing]

theorem delivers_of_nothing (nothing : stage.sending env request world = none) :
    stage.delivers env request world = none := by
  simp only [Stage.delivers, nothing]

theorem relays_of_delegate (sends : stage.sending env request world = some sending)
    (delegate : plain sending.backend = false) : stage.relays env request world = none := by
  rw [Option.eq_none_iff_forall_not_mem]
  rintro ⟨found, reply⟩ relayed
  rcases relays_eq_some.mp relayed with ⟨found, _, isPlain, _⟩
  rw [sends, Option.some.injEq] at found
  subst found
  exact absurd isPlain (by simp [delegate])

theorem advance_of_delegate (sends : stage.sending env request world = some sending)
    (delegate : plain sending.backend = false) : stage.advance env request world = none := by
  simp [advance_of_sending sends, unanswered, delegate]

/-- Without a reply nothing is passed on. -/
theorem relays_of_error {message : String} (error : world.reply = .error message) :
    stage.relays env request world = none := by
  rw [Option.eq_none_iff_forall_not_mem]
  rintro ⟨found, reply⟩ relayed
  rcases relays_eq_some.mp relayed with ⟨_, replied, _⟩
  exact absurd replied (by simp [error])

theorem delivers_of_plain (sends : stage.sending env request world = some sending)
    (isPlain : plain sending.backend = true) (nothing : stage.relays env request world = none) :
    stage.delivers env request world = none := by
  simp only [plain, Bool.and_eq_true, decide_eq_true_eq] at isPlain
  simp only [Stage.delivers, sends, if_neg isPlain.1.1, if_neg isPlain.1.2, if_neg isPlain.2,
    nothing]

/-- A hop that leads to another gives the client nothing. -/
theorem relays_of_advance (advance : stage.advance env request world ≠ none) :
    stage.relays env request world = none := by
  rw [Option.eq_none_iff_forall_not_mem]
  rintro ⟨found, reply⟩ relayed
  exact advance (relays_eq_some.mp relayed).2.2.2.2.1

theorem delivers_of_advance (advance : stage.advance env request world ≠ none) :
    stage.delivers env request world = none := by
  cases sends : stage.sending env request world with
  | none => exact delivers_of_nothing sends
  | some sending =>
      cases isPlain : plain sending.backend with
      | false => exact absurd (advance_of_delegate sends isPlain) advance
      | true => exact delivers_of_plain sends isPlain (relays_of_advance advance)

theorem hopSends_of_plain (env : Env) (request : Request) (world : HopWorld)
    (requested model : String) (isPlain : plain sending.backend = true) :
    hopSends env request world requested model sending =
      if (env.requestError (plainURL request.path sending.backend)).isSome then none
      else some (if isPoll request.path then none
        else some (hopPayload env world.snapshot requested model request.path sending.backend
          sending.upstream sending.guarded.body)) := by
  simp only [plain, Bool.and_eq_true, decide_eq_true_eq] at isPlain
  simp only [hopSends, if_neg isPlain.1.1, if_neg isPlain.1.2, if_neg isPlain.2]

/-- The calls of a hop are those of what it sends. -/
theorem Visit.call_of_mem {events : List Event} {call : Call}
    (visit : Visit env request world stage events) (made : Event.call call ∈ events) :
    ∃ sending url payload, stage.sending env request world = some sending ∧
      hopSends env request world request.requested stage.model sending = some payload ∧
      call = ⟨stage.model, sending.upstream, sending.backend, url, payload,
        sending.guarded.ran⟩ := by
  cases visit with
  | unsent nothing => simp at made
  | sent sending calls tail sends sent ofHop blocked =>
      have unlisted : Event.call call ∉ tail := by
        rcases blocked with rfl | ⟨block, rfl⟩ <;> simp
      simp only [List.mem_cons, reduceCtorEq, List.mem_append, List.mem_map, Event.call.injEq,
        exists_eq_right, unlisted, or_false, false_or] at made
      rcases ofHop call made with ⟨url, payload, sent, same⟩
      exact ⟨sending, url, payload, sends, sent, same⟩

theorem Visit.mem_of_sends {events : List Event} {payload : Option Bytes}
    (visit : Visit env request world stage events)
    (sends : stage.sending env request world = some sending)
    (sent : hopSends env request world request.requested stage.model sending = some payload) :
    ∃ url, Event.call ⟨stage.model, sending.upstream, sending.backend, url, payload,
      sending.guarded.ran⟩ ∈ events := by
  cases visit with
  | unsent nothing => simp [nothing] at sends
  | sent found calls tail sends' made ofHop blocked =>
      rw [sends, Option.some.injEq] at sends'
      subst sends'
      have some : calls ≠ [] := fun none => by simp [made.mp none] at sent
      rcases List.exists_mem_of_ne_nil calls some with ⟨call, listed⟩
      rcases ofHop call listed with ⟨url, other, same, rfl⟩
      rw [sent, Option.some.injEq] at same
      subst same
      exact ⟨url, by simp [listed]⟩

/-- An answer of the proxy itself. -/
theorem answers_own {exchange : Exchange} {events : List Event}
    (answered : AnsweredWith (lengthsOf start.writer.header) exchange.writer)
    (unrelayed : stage.relays env request world = none)
    (delivery : exchange.delivery = (stage.delivers env request world).or start.delivery)
    (unblocked : ∀ block, Event.blocked block ∉ events) :
    Answers env request world stage start events exchange :=
  ⟨fun sending reply relays => absurd relays (by simp [unrelayed]), fun _ => answered, delivery,
    fun block listed => absurd listed (unblocked block)⟩

theorem fallBack_ends {progress : Progress} {events : List Event}
    (unsent : start.writer.sent = []) (visit : Visit env request world stage events)
    (sameModel : progress.model = stage.model)
    (sameTried : progress.tried = stage.model :: stage.tried)
    (advance : stage.advance env request world =
      (stage.fallback world).map (⟨·, stage.model :: stage.tried, progress.guarded⟩))
    (exchange : progress.exchange = { start with events := start.events ++ events })
    (unrelayed : stage.relays env request world = none)
    (undelivered : stage.delivers env request world = none)
    (unblocked : ∀ block, Event.blocked block ∉ events) (backend provider message : String) :
    Ends env request world stage start
      (fallBack env world.snapshot progress backend provider message) := by
  unfold fallBack
  rw [sameModel, sameTried]
  cases next : stage.fallback world with
  | some name =>
      have follows : (fallbackOf world.snapshot stage.model).filter
          (· ∉ stage.model :: stage.tried) = some name := next
      simp only [follows]
      refine .next _ events visit ?_ exchange unblocked
      rw [advance, next]
      rfl
  | none =>
      have ends : (fallbackOf world.snapshot stage.model).filter
          (· ∉ stage.model :: stage.tried) = none := next
      simp only [ends]
      refine .done _ events visit (by rw [advance, next]; rfl) (by simp [exchange, Exchange.respond])
        (answers_own ?_ unrelayed ?_ unblocked)
      · rw [exchange]
        exact answeredWith_writeJSON unsent 502 _
      · simp [exchange, Exchange.respond, undelivered]

/-- The events of a hop that calls its upstream once. -/
theorem visit_called {url : String} {payload : Option Bytes} {tail : List Event}
    (sends : stage.sending env request world = some sending)
    (sent : hopSends env request world request.requested stage.model sending = some payload)
    (blocked : tail = [] ∨ ∃ block, tail = [.blocked block]) :
    Visit env request world stage
      (.inc sending.backend.id ::
        .call ⟨stage.model, sending.upstream, sending.backend, url, payload,
          sending.guarded.ran⟩ :: .dec sending.backend.id :: tail) := by
  refine .sent sending [_] tail sends (by simp [sent]) ?_ blocked
  intro call listed
  exact ⟨url, payload, sent, List.mem_singleton.mp listed⟩

/-- The header of a response after a fallback. -/
theorem begun_spec (hop : ℕ) (writer : Writer) (requested model : String) :
    let begun := if 0 < hop then
      writer.setHeader "X-Mikrollm-Fallback" (requested ++ " -> " ++ model) else writer
    (begun = writer ∨
        begun = writer.setHeader "X-Mikrollm-Fallback" (requested ++ " -> " ++ model)) ∧
      begun.sent = writer.sent ∧ lengthsOf begun.header = lengthsOf writer.header := by
  intro begun
  by_cases later : 0 < hop
  · have named : begun =
        writer.setHeader "X-Mikrollm-Fallback" (requested ++ " -> " ++ model) := if_pos later
    rw [named]
    exact ⟨Or.inr rfl, rfl, lengthsOf_headerSet _ _ (by decide)⟩
  · have named : begun = writer := if_neg later
    rw [named]
    exact ⟨Or.inl rfl, rfl, rfl⟩

/-- A plain upstream was called, and this was its reply. -/
structure Replied (env : Env) (request : Request) (world : HopWorld) (stage : Stage)
    (sending : Sending) (start : Exchange) (call : Call) (reply : Reply)
    (progress : Progress) : Prop where
  unsent : start.writer.sent = []
  sends : stage.sending env request world = some sending
  isPlain : plain sending.backend = true
  requested : env.requestError (plainURL request.path sending.backend) = none
  replied : world.reply = .ok reply
  sameModel : progress.model = stage.model
  sameTried : progress.tried = stage.model :: stage.tried
  sameGuarded : progress.guarded = some sending.guarded
  exchange : progress.exchange = { start with
    events := start.events ++ [.inc sending.backend.id, .call call] }
  visit : ∀ tail : List Event, (tail = [] ∨ ∃ block, tail = [.blocked block]) →
    Visit env request world stage
      (.inc sending.backend.id :: .call call :: .dec sending.backend.id :: tail)

section Replies

variable {call : Call} {reply : Reply} {progress : Progress}

theorem Replied.unanswered
    (after : Replied env request world stage sending start call reply progress) :
    unanswered env request world sending =
      (400 ≤ reply.code && isBillingError env reply.code (reply.body.take 8192)) := by
  simp [Proxy.unanswered, after.isPlain, after.requested, after.replied, fails]

theorem Replied.relays
    (after : Replied env request world stage sending start call reply progress)
    (advance : stage.advance env request world = none)
    (passes : 400 ≤ reply.code ∨
      relayedBlock env sending.guarded.body sending.guarded.policies reply = none) :
    stage.relays env request world = some (sending, reply) :=
  relays_eq_some.mpr ⟨after.sends, after.replied, after.isPlain, by simp [after.requested], advance,
    passes⟩

theorem Replied.delivers
    (after : Replied env request world stage sending start call reply progress)
    (relays : stage.relays env request world = some (sending, reply)) :
    stage.delivers env request world =
      if 400 ≤ reply.code then none
      else some ⟨reply.code, reply.body, answerBody env sending.guarded reply,
        relayedRan env sending.guarded.body sending.guarded.policies reply⟩ := by
  have isPlain := after.isPlain
  simp only [plain, Bool.and_eq_true, decide_eq_true_eq] at isPlain
  simp only [Stage.delivers, after.sends, if_neg isPlain.1.1, if_neg isPlain.1.2,
    if_neg isPlain.2, relays]

/-- An error of the upstream that is passed on. -/
theorem Replied.errorReply
    (after : Replied env request world stage sending start call reply progress)
    (large : 400 ≤ reply.code) (advance : stage.advance env request world = none)
    (provider : String) :
    Ends env request world stage start (.done {
      exchange := (progress.exchange.record (.dec sending.backend.id)).respond
        (((copyHeaders (progress.exchange.record (.dec sending.backend.id)).writer
          reply.header).writeHeader reply.code).write (reply.body.take 8192))
      backend := sending.backend.name
      provider := provider
      status := reply.code
      error := none }) := by
  have relays := after.relays advance (Or.inl large)
  have writer : (progress.exchange.record (.dec sending.backend.id)).writer = start.writer := by
    simp [Exchange.record, after.exchange]
  refine .done _ _ (after.visit [] (Or.inl rfl)) advance ?_ ⟨?_, ?_, ?_, ?_⟩
  · simp [Exchange.respond, Exchange.record, after.exchange]
  · intro found answer relayed
    rw [relays, Option.some.injEq, Prod.mk.injEq] at relayed
    rcases relayed with ⟨rfl, rfl⟩
    simp only [answerBody, if_pos large, Exchange.respond, writer]
    have copied : (copyHeaders start.writer reply.header).sent = [] := after.unsent
    exact ⟨_, lengthsOf_copySafeHeaders _ _, answered_write copied _ _⟩
  · intro unrelayed
    exact absurd unrelayed (by simp [relays])
  · simp [after.delivers relays, large, Exchange.respond, Exchange.record, after.exchange]
  · intro block listed
    simp at listed

/-- A reply that a policy blocks. -/
theorem Replied.blockedReply {begun : Writer} {block : Block}
    (after : Replied env request world stage sending start call reply progress)
    (small : ¬400 ≤ reply.code) (advance : stage.advance env request world = none)
    (blocks : relayedBlock env sending.guarded.body sending.guarded.policies reply = some block)
    (named : begun = start.writer ∨ begun = start.writer.setHeader "X-Mikrollm-Fallback"
      (request.requested ++ " -> " ++ stage.model)) :
    Ends env request world stage start (.done (refusedByGuard env
      (((progress.exchange.respond begun).record (.dec sending.backend.id)).record
        (.blocked block)) block)) := by
  have unrelayed : stage.relays env request world = none := by
    rw [Option.eq_none_iff_forall_not_mem]
    rintro ⟨found, answer⟩ relayed
    rcases relays_eq_some.mp relayed with ⟨sends, replied, _, _, _, passes⟩
    rw [after.sends, Option.some.injEq] at sends
    rw [after.replied, Except.ok.injEq] at replied
    subst sends replied
    rcases passes with large | passes
    · exact small large
    · exact absurd passes (by simp [blocks])
  have undelivered := delivers_of_plain after.sends after.isPlain unrelayed
  have unsent : begun.sent = [] := by
    rcases named with rfl | rfl <;> exact after.unsent
  have lengths : lengthsOf begun.header = lengthsOf start.writer.header := by
    rcases named with rfl | rfl
    · rfl
    · exact lengthsOf_headerSet _ _ (by decide)
  refine .done _ _ (after.visit [.blocked block] (Or.inr ⟨block, rfl⟩)) advance ?_
    ⟨?_, fun _ => ?_, ?_, ?_⟩
  · simp [refusedByGuard, Exchange.respond, Exchange.record, after.exchange]
  · intro found answer relayed
    exact absurd relayed (by simp [unrelayed])
  · have marked : (begun.setHeader "X-Mikrollm-Guardrail" block.policy).sent = [] := unsent
    have refused : AnsweredWith _ (writeJSON env _ 400 (writeError block)) :=
      answeredWith_writeJSON marked 400 _
    rwa [setHeader_header, lengthsOf_headerSet _ _ (by decide), lengths] at refused
  · simp [refusedByGuard, Exchange.respond, Exchange.record, after.exchange, undelivered]
  · intro other listed
    have same : other = block := by simpa using listed
    subst same
    exact ⟨begun, named, rfl⟩

/-- A reply that the client gets. -/
theorem Replied.goodReply {answered : Writer} {header : Header}
    (after : Replied env request world stage sending start call reply progress)
    (small : ¬400 ≤ reply.code) (advance : stage.advance env request world = none)
    (passes : relayedBlock env sending.guarded.body sending.guarded.policies reply = none)
    (declared : lengthsOf header = lengthsOf start.writer.header ++ lengthsOf reply.header)
    (answers : Answered answered reply.code header
      (relayedBody env sending.guarded.body sending.guarded.policies reply)) (provider : String) :
    Ends env request world stage start (.done {
      exchange := (progress.exchange.deliver ⟨reply.code, reply.body, answered.output,
        relayedRan env sending.guarded.body sending.guarded.policies reply⟩ answered).record
          (.dec sending.backend.id)
      backend := sending.backend.name
      provider := provider
      status := reply.code
      error := none }) := by
  have relays := after.relays advance (Or.inr passes)
  have body : answerBody env sending.guarded reply =
      relayedBody env sending.guarded.body sending.guarded.policies reply := if_neg small
  refine .done _ _ (after.visit [] (Or.inl rfl)) advance ?_ ⟨?_, ?_, ?_, ?_⟩
  · simp [Exchange.deliver, Exchange.record, after.exchange]
  · intro found answer relayed
    rw [relays, Option.some.injEq, Prod.mk.injEq] at relayed
    rcases relayed with ⟨rfl, rfl⟩
    rw [body]
    exact ⟨header, declared, answers⟩
  · intro unrelayed
    exact absurd unrelayed (by simp [relays])
  · simp [after.delivers relays, small, Exchange.deliver, Exchange.record, body, answers.output]
  · intro block listed
    simp at listed

theorem Replied.ends
    (after : Replied env request world stage sending start call reply progress) (hop : ℕ)
    (provider : String) :
    Ends env request world stage start (onReply env request hop world.snapshot progress
      sending.guarded sending.backend provider reply) := by
  have advances := advance_of_sending after.sends
  rw [after.unanswered] at advances
  unfold onReply
  by_cases large : 400 ≤ reply.code
  · simp only [large, decide_true, Bool.true_and] at advances
    simp only [if_pos large, after.sameModel, after.sameTried]
    by_cases bills : isBillingError env reply.code (reply.body.take 8192) = true
    · simp only [if_pos bills] at advances ⊢
      cases next : stage.fallback world with
      | some name =>
          have follows : (fallbackOf world.snapshot stage.model).filter
              (· ∉ stage.model :: stage.tried) = some name := next
          simp only [follows]
          refine .next _ _ (after.visit [] (Or.inl rfl)) ?_ ?_ (by simp)
          · rw [advances, next, ← after.sameGuarded]
            rfl
          · simp [Exchange.record, after.exchange]
      | none =>
          have ends : (fallbackOf world.snapshot stage.model).filter
              (· ∉ stage.model :: stage.tried) = none := next
          simp only [ends]
          exact after.errorReply large (by simp [advances, next]) provider
    · simp only [if_neg bills] at advances ⊢
      exact after.errorReply large advances provider
  · have advance : stage.advance env request world = none := by
      simpa [large] using advances
    have sameWriter : progress.exchange.writer = start.writer := by rw [after.exchange]
    simp only [if_neg large, sameWriter, after.sameModel]
    rcases begun_spec hop start.writer request.requested stage.model with ⟨named, sent, lengths⟩
    generalize (if 0 < hop then start.writer.setHeader "X-Mikrollm-Fallback"
      (request.requested ++ " -> " ++ stage.model) else start.writer) = begun at named sent lengths ⊢
    rcases writeUpstream_spec env (sent.trans after.unsent) reply sending.guarded.body
        sending.guarded.policies with ⟨block, blocks, written⟩ | ⟨answered, header, passes, written,
          declared, answers⟩
    · simp only [written]
      exact after.blockedReply large advance blocks named
    · simp only [written]
      exact after.goodReply large advance passes (declared.trans (by rw [lengths])) answers provider

end Replies

theorem callUpstream_ends {progress : Progress} (hop : ℕ) (unsent : start.writer.sent = [])
    (sends : stage.sending env request world = some sending)
    (isPlain : plain sending.backend = true) (sameModel : progress.model = stage.model)
    (sameTried : progress.tried = stage.model :: stage.tried)
    (sameGuarded : progress.guarded = some sending.guarded)
    (exchange : progress.exchange = start.record (.inc sending.backend.id)) :
    Ends env request world stage start (callUpstream env request world hop progress
      sending.guarded
      ⟨stage.model, sending.upstream, sending.backend, "", none, sending.guarded.ran⟩
      (hopPayload env world.snapshot request.requested stage.model request.path sending.backend
        sending.upstream sending.guarded.body)) := by
  have sent := hopSends_of_plain env request world request.requested stage.model isPlain
  have isPlainURL : trimRight sending.backend.baseURL '/' ++
      rewriteUpstreamPath sending.backend request.path = plainURL request.path sending.backend := rfl
  unfold callUpstream
  simp only [isPlainURL]
  cases requested : env.requestError (plainURL request.path sending.backend) with
  | some message =>
      simp only [requested, Option.isSome_some, if_true] at sent
      have unrelayed : stage.relays env request world = none := by
        rw [Option.eq_none_iff_forall_not_mem]
        rintro ⟨found, answer⟩ relayed
        rcases relays_eq_some.mp relayed with ⟨same, _, _, noError, _⟩
        rw [sends, Option.some.injEq] at same
        subst same
        simp [requested] at noError
      refine .done _ [.inc sending.backend.id, .dec sending.backend.id]
        (.sent sending [] [] sends (by simp [sent]) (by simp) (Or.inl rfl)) ?_ ?_
        (answers_own ?_ unrelayed ?_ (by simp))
      · simp [advance_of_sending sends, unanswered, requested]
      · simp [Exchange.respond, Exchange.record, exchange]
      · simp only [Exchange.respond, Exchange.record, exchange]
        exact answeredWith_httpError unsent message 500
      · rw [delivers_of_plain sends isPlain unrelayed]
        simp [Exchange.respond, Exchange.record, exchange]
  | none =>
      simp only [requested, Option.isSome_none, Bool.false_eq_true, if_false] at sent
      generalize called : Call.mk stage.model sending.upstream sending.backend
        (plainURL request.path sending.backend)
        (if isPoll request.path then none else some (hopPayload env world.snapshot
          request.requested stage.model request.path sending.backend sending.upstream
            sending.guarded.body)) sending.guarded.ran = call
      have visit : ∀ tail : List Event, (tail = [] ∨ ∃ block, tail = [.blocked block]) →
          Visit env request world stage
            (.inc sending.backend.id :: .call call :: .dec sending.backend.id :: tail) := by
        intro tail blocked
        rw [← called]
        exact visit_called sends sent blocked
      cases replied : world.reply with
      | error message =>
          have unrelayed : stage.relays env request world = none := relays_of_error replied
          apply fallBack_ends unsent (visit [] (Or.inl rfl)) ?_ ?_ ?_ ?_ unrelayed
            (delivers_of_plain sends isPlain unrelayed) (by simp)
          · exact sameModel
          · exact sameTried
          · simp [advance_of_sending sends, unanswered, requested, isPlain, replied, fails,
              sameGuarded]
          · simp [Exchange.record, exchange]
      | ok reply =>
          have after : Replied env request world stage sending start call reply { progress with
              exchange := progress.exchange.record (.call call) } :=
            { unsent := unsent
              sends := sends
              isPlain := isPlain
              requested := requested
              replied := replied
              sameModel := sameModel
              sameTried := sameTried
              sameGuarded := sameGuarded
              exchange := by simp [Exchange.record, exchange]
              visit := visit }
          exact after.ends hop _

theorem delegated_ends {call : Call} {outcome : Outcome} {payload : Option Bytes}
    {delivers : Option Delivery} {url : String} {preset : Option Bytes}
    (sends : stage.sending env request world = some sending)
    (delegate : plain sending.backend = false)
    (sent : hopSends env request world request.requested stage.model sending = payload.map some)
    (delivered : stage.delivers env request world = delivers)
    (ofHop : call = ⟨stage.model, sending.upstream, sending.backend, url, preset,
      sending.guarded.ran⟩)
    (delegates : Delegates (start.record (.inc sending.backend.id)) call payload delivers outcome)
    (provider : String) :
    Ends env request world stage start (delegated sending.backend provider outcome) := by
  rcases delegates.events with ⟨calls, events, made, ofCall⟩
  refine .done _ _ (.sent sending calls [] sends ?_ ?_ (Or.inl rfl))
    (advance_of_delegate sends delegate) ?_
    (answers_own delegates.answered (relays_of_delegate sends delegate) ?_ (by simp))
  · rw [made, sent, Option.map_eq_none_iff]
  · intro sentCall listed
    rcases ofCall sentCall listed with ⟨url, same⟩
    have some : payload ≠ none := fun none => by simp [made.mpr none] at listed
    rcases Option.ne_none_iff_exists'.mp some with ⟨bytes, holds⟩
    exact ⟨url, payload, by simp [sent, holds], by rw [same, ofHop]⟩
  · simp [Exchange.record, events]
  · rw [delivered]
    exact delegates.delivery

theorem sendHop_ends {progress : Progress} (hop : ℕ) (unsent : start.writer.sent = [])
    (sends : stage.sending env request world = some sending)
    (sameModel : progress.model = stage.model)
    (sameTried : progress.tried = stage.model :: stage.tried)
    (sameGuarded : progress.guarded = some sending.guarded) (exchange : progress.exchange = start) :
    Ends env request world stage start (sendHop env request world hop progress
      sending.guarded sending.backend sending.upstream) := by
  have opened : (start.record (.inc sending.backend.id)).writer.sent = [] := unsent
  unfold sendHop
  simp only [sameModel, exchange]
  by_cases hub : sending.backend.kind = .hub
  · simp only [if_pos hub]
    refine delegated_ends sends ?_ ?_ ?_ rfl (forwardHub_delegates opened _ _ _ _) _
    · simp [plain, hub]
    · simp [hopSends, hub]
    · simp [Stage.delivers, sends, hub]
  · simp only [if_neg hub]
    by_cases codex : sending.backend.kind = .codex
    · simp only [if_pos codex]
      refine delegated_ends sends ?_ ?_ ?_ rfl (forwardCodex_delegates opened _ _) _
      · simp [plain, codex]
      · simp [hopSends, codex]
      · simp [Stage.delivers, sends, codex]
    · simp only [if_neg codex]
      by_cases grok : sending.backend.kind = .grok
      · simp only [if_pos grok]
        refine delegated_ends sends ?_ ?_ ?_ rfl (forwardGrok_delegates opened _ _) _
        · simp [plain, grok]
        · simp [hopSends, grok]
        · simp [Stage.delivers, sends, grok]
      · simp only [if_neg grok]
        have isPlain : plain sending.backend = true := by simp [plain, hub, codex, grok]
        apply callUpstream_ends hop unsent sends isPlain
        · rfl
        · exact sameTried
        · exact sameGuarded
        · rfl

end Spec

section Hop

variable {env : Env} {request : Request} {world : HopWorld} {progress : Progress} {hop : ℕ}

theorem begins_iff :
    progress.stage.begins request hop = true ↔
      progress.model ≠ "" ∧ progress.model ∉ progress.tried ∧
        (0 < hop → request.key.allows progress.model = true) := by
  unfold Stage.begins Progress.stage
  by_cases first : hop = 0
  · simp [first]
  · simp [first, Nat.pos_of_ne_zero first, and_assoc]

/-- A hop that does not begin leaves the loop with what it was given. -/
theorem forwardHop_leaves (stays : progress.stage.begins request hop = false) :
    ∃ left, forwardHop env request world hop progress = .leave left ∧
      left.exchange = progress.exchange ∧ left.lastStatus = progress.lastStatus ∧
      left.lastMessage = progress.lastMessage := by
  have not : ¬progress.stage.begins request hop = true := by simp [stays]
  rw [begins_iff] at not
  unfold forwardHop
  by_cases known : progress.model = "" ∨ progress.model ∈ progress.tried
  · rw [if_pos known]
    exact ⟨progress, rfl, rfl, rfl, rfl⟩
  · rw [if_neg known]
    simp only [not_or] at known
    have refused : 0 < hop ∧ request.key.allows progress.model = false := by
      by_contra allowed
      refine not ⟨known.1, known.2, fun later => ?_⟩
      by_contra denied
      exact allowed ⟨later, by simpa using denied⟩
    simp only [if_pos refused]
    exact ⟨_, rfl, rfl, rfl, rfl⟩

/-- What a hop does that begins. -/
theorem forwardHop_ends (begins : progress.stage.begins request hop = true)
    (unsent : progress.exchange.writer.sent = []) :
    Ends env request world progress.stage (progress.exchange.record (.hop progress.model))
      (forwardHop env request world hop progress) := by
  rcases begins_iff.mp begins with ⟨named, fresh, allowed⟩
  have known : ¬(progress.model = "" ∨ progress.model ∈ progress.tried) :=
    not_or.mpr ⟨named, fresh⟩
  have refused : ¬(0 < hop ∧ request.key.allows progress.model = false) :=
    fun denied => absurd (allowed denied.1) (by simpa using denied.2)
  unfold forwardHop
  simp only [if_neg known, if_neg refused]
  cases picked : pick world.snapshot progress.model with
  | error message =>
      have nothing : progress.stage.sending env request world = none := sending_of_unpicked picked
      apply fallBack_ends ?_ (.unsent nothing) ?_ ?_ ?_ ?_ (relays_of_nothing nothing)
        (delivers_of_nothing nothing) (by simp)
      · exact unsent
      · rfl
      · rfl
      · exact advance_of_unpicked picked
      · simp [Exchange.record]
  | ok found =>
      rcases found with ⟨backend, upstream⟩
      have guarding : ∀ tried exchange, guardOnce env request world.snapshot
          { progress with tried := tried, exchange := exchange } upstream =
            progress.stage.guard env request world upstream := fun _ _ => rfl
      simp only [guarding]
      cases passed : progress.stage.guard env request world upstream with
      | error block =>
          have nothing : progress.stage.sending env request world = none := by
            simp only [Stage.sending]
            rw [show progress.stage.model = progress.model from rfl, picked]
            simp [passed, Except.toOption]
          have marked : (progress.exchange.writer.setHeader "X-Mikrollm-Guardrail"
              block.policy).sent = [] := unsent
          refine .done _ [] (.unsent nothing) (advance_of_blocked picked nothing) ?_
            (answers_own ?_ (relays_of_nothing nothing) ?_ (by simp))
          · simp [refusedByGuard, Exchange.respond]
          · have refused : AnsweredWith _ (writeJSON env _ 400 (writeError block)) :=
              answeredWith_writeJSON marked 400 _
            rwa [setHeader_header, lengthsOf_headerSet _ _ (by decide)] at refused
          · rw [delivers_of_nothing nothing]
            rfl
      | ok guarded =>
          have sends : progress.stage.sending env request world =
              some ⟨backend, upstream, guarded⟩ := by
            simp only [Stage.sending]
            rw [show progress.stage.model = progress.model from rfl, picked]
            simp [passed, Except.toOption]
          simp only
          apply sendHop_ends hop ?_ sends
          · rfl
          · rfl
          · rfl
          · rfl
          · exact unsent

end Hop

end MikroLLM.Proxy
