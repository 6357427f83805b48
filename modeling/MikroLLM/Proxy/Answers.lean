import MikroLLM.Proxy.Forward

/-!
# What the client gets

`writeUpstream` and the delegates of `Forward` write on their own. Each of them
sends one status line and one body, with the lengths that were declared before,
and `writeUpstream` also declares those of the reply.
-/

namespace MikroLLM.Proxy

open Domain Go Guard

/-- One status line and one body, with no other declared lengths than these. -/
def AnsweredWith (lengths : List String) (writer : Writer) : Prop :=
  ∃ code header bytes, lengthsOf header ⊆ lengths ∧ Answered writer code header bytes

section Writers

variable {env : Env} {writer : Writer} {reply : Reply}

theorem Reply.code_ne_zero (reply : Reply) : reply.code ≠ 0 := by
  rcases reply.status.property with switching | final
  · simp [Reply.code, switching]
  · simp only [Reply.code]
    omega

theorem answered_writeJSON (unsent : writer.sent = []) (code : ℕ) (fields : Fields) :
    Answered (writeJSON env writer code fields) code
      (headerSet writer.header "Content-Type" "application/json") (encodeLine env fields) := by
  have named : (writer.setHeader "Content-Type" "application/json").sent = [] := unsent
  have begun := answered_writeHeader named code
  simpa [writeJSON] using begun.write (encodeLine env fields)

theorem answered_write (unsent : writer.sent = []) (code : ℕ) (bytes : Bytes) :
    Answered ((writer.writeHeader code).write bytes) code writer.header bytes := by
  simpa using (answered_writeHeader unsent code).write bytes

theorem answered_writeAll (unsent : writer.sent = []) (code : ℕ) (chunks : List Bytes) :
    Answered ((writer.writeHeader code).writeAll chunks) code writer.header chunks.flatten := by
  simpa using (answered_writeHeader unsent code).writeAll chunks

@[simp]
theorem copyHeaders_sent (source : Header) : (copyHeaders writer source).sent = writer.sent := rfl

@[simp]
theorem copyHeaders_header (source : Header) :
    (copyHeaders writer source).header = copySafeHeaders writer.header source := rfl

/-- `Content-Length` is a header that is copied. -/
theorem lengthsOf_copySafeHeaders (target source : Header) :
    lengthsOf (copySafeHeaders target source) = lengthsOf target ++ lengthsOf source := by
  have kept : dropResponseHeader "Content-Length" = false := by decide
  rw [copySafeHeaders, lengthsOf_append]
  simp only [lengthsOf, List.filter_filter]
  congr 2
  apply List.filter_congr
  intro entry _
  by_cases isLength : entry.1 = "Content-Length"
  · simp [isLength, kept]
  · simp [isLength]

@[simp]
theorem setCacheHeaders_sent (tokens : ℕ × ℕ) :
    (setCacheHeaders writer tokens).sent = writer.sent := by
  unfold setCacheHeaders
  simp only
  split <;> split <;> rfl

@[simp]
theorem lengthsOf_setCacheHeaders (tokens : ℕ × ℕ) :
    lengthsOf (setCacheHeaders writer tokens).header = lengthsOf writer.header := by
  unfold setCacheHeaders
  simp only
  split <;> split <;> simp [lengthsOf_headerSet]

theorem answered_writeStream (unsent : writer.sent = []) (reply : Reply) :
    ∃ header, lengthsOf header = lengthsOf writer.header ++ lengthsOf reply.header ∧
      Answered (writeStream writer reply) reply.code header reply.body := by
  refine ⟨_, ?_, answered_writeAll ?_ _ _⟩
  · simp [lengthsOf_headerSet, lengthsOf_copySafeHeaders]
  · simpa using unsent

theorem foldl_memWriter {code : ℕ} (hasCode : code ≠ 0) (header : Header) (buffer : Bytes)
    (chunks : List Bytes) :
    chunks.foldl MemWriter.write ⟨header, code, buffer⟩ =
      ⟨header, code, buffer ++ chunks.flatten⟩ := by
  induction chunks generalizing buffer with
  | nil => simp
  | cons chunk rest ih => simp [MemWriter.write, hasCode, ih]

/-- The reply that is held back is blocked, or sent as the policies leave it. -/
theorem writeFiltered_spec (unsent : writer.sent = []) (reply : Reply) (policies : List Policy)
    {post : Result} (applied : apply env.text env.filters env.codec reply.body policies .post = post) :
    (∃ block, post.block = some block ∧
        writeFiltered env writer reply policies = ⟨writer, some block, []⟩) ∨
      ∃ answered header, post.block = none ∧
        writeFiltered env writer reply policies = ⟨answered, none, post.ran⟩ ∧
        lengthsOf header = lengthsOf writer.header ++ lengthsOf reply.header ∧
        Answered answered reply.code header post.body := by
  have captured : reply.chunks.foldl MemWriter.write
      ⟨copySafeHeaders [] reply.header, reply.code, []⟩ =
        ⟨copySafeHeaders [] reply.header, reply.code, reply.body⟩ :=
    foldl_memWriter reply.code_ne_zero _ _ _
  unfold writeFiltered
  simp only [captured, applied, reply.code_ne_zero, if_false]
  split
  · rename_i block blocks
    exact Or.inl ⟨block, blocks, rfl⟩
  · rename_i passes
    right
    refine ⟨_, _, passes, rfl, ?_, answered_write ?_ _ _⟩
    · have none : lengthsOf [] = [] := rfl
      simp [lengthsOf_copySafeHeaders, none]
    · simpa using unsent

/-- What was read is still kept, or it was sent after the header of the reply. -/
structure Buffering.Holds (writer : Writer) (reply : Reply) (read : Bytes) (state : Buffering) :
    Prop where
  kept : state.overflow = false → state.writer = writer ∧ state.buffer = read
  sent : state.overflow = true →
    Answered state.writer reply.code (copySafeHeaders writer.header reply.header) read

theorem Buffering.Holds.chunk {read : Bytes} {state : Buffering} (unsent : writer.sent = [])
    (holds : state.Holds writer reply read) (chunk : Bytes) :
    (bufferChunk reply state chunk).Holds writer reply (read ++ chunk) := by
  unfold bufferChunk
  by_cases small : state.overflow = false ∧
      state.buffer.length + chunk.length ≤ maxUsageBuffer
  · rw [if_pos small]
    refine ⟨fun _ => ?_, fun overflowed => ?_⟩
    · rcases holds.kept small.1 with ⟨sameWriter, sameBuffer⟩
      exact ⟨sameWriter, by rw [sameBuffer]⟩
    · exact absurd overflowed (by simp [small.1])
  · rw [if_neg small]
    refine ⟨fun overflowed => absurd overflowed (by simp), fun _ => ?_⟩
    by_cases overflowed : state.overflow = true
    · simp only [overflowed, if_true]
      exact (holds.sent overflowed).write chunk
    · have under : state.overflow = false := by simpa using overflowed
      rcases holds.kept under with ⟨sameWriter, sameBuffer⟩
      simp only [under, Bool.false_eq_true, if_false, sameWriter, sameBuffer]
      apply Answered.write
      have copied : (copyHeaders writer reply.header).sent = [] := unsent
      exact answered_write copied reply.code read

theorem Buffering.Holds.chunks {read : Bytes} {state : Buffering} (unsent : writer.sent = [])
    (holds : state.Holds writer reply read) (chunks : List Bytes) :
    (chunks.foldl (bufferChunk reply) state).Holds writer reply (read ++ chunks.flatten) := by
  induction chunks generalizing state read with
  | nil => simpa using holds
  | cons chunk rest ih =>
      have later := ih (holds.chunk unsent chunk)
      simpa using later

theorem answered_writeBuffered (env : Env) (unsent : writer.sent = []) (reply : Reply) :
    ∃ header, lengthsOf header = lengthsOf writer.header ++ lengthsOf reply.header ∧
      Answered (writeBuffered env writer reply) reply.code header reply.body := by
  have begun : Buffering.Holds writer reply [] ⟨writer, [], false⟩ :=
    ⟨fun _ => ⟨rfl, rfl⟩, fun overflowed => absurd overflowed (by simp)⟩
  have read := begun.chunks unsent reply.chunks
  unfold writeBuffered
  simp only
  split
  · rename_i overflowed
    exact ⟨_, lengthsOf_copySafeHeaders _ _, by simpa [Reply.body] using read.sent overflowed⟩
  · rename_i overflowed
    rcases read.kept (by simpa using overflowed) with ⟨sameWriter, sameBuffer⟩
    rw [sameWriter, sameBuffer, List.nil_append]
    refine ⟨_, ?_, answered_write ?_ _ _⟩
    · simp [lengthsOf_copySafeHeaders]
    · simpa using unsent

/-- The reply goes through the policies for replies when the request asked for no stream. -/
def filtersReply (env : Env) (filtered : Bytes) (policies : List Policy) : Bool :=
  !isStream env.codec filtered && hasPost policies

/-- The body that the client gets for a reply that is relayed. -/
def relayedBody (env : Env) (filtered : Bytes) (policies : List Policy) (reply : Reply) : Bytes :=
  if filtersReply env filtered policies then
    (apply env.text env.filters env.codec reply.body policies .post).body
  else reply.body

/-- The policies that a relayed reply goes through. -/
def relayedRan (env : Env) (filtered : Bytes) (policies : List Policy) (reply : Reply) :
    List Policy :=
  if filtersReply env filtered policies then
    (apply env.text env.filters env.codec reply.body policies .post).ran
  else []

/-- A policy that blocks the reply. -/
def relayedBlock (env : Env) (filtered : Bytes) (policies : List Policy) (reply : Reply) :
    Option Block :=
  if filtersReply env filtered policies then
    (apply env.text env.filters env.codec reply.body policies .post).block
  else none

/-- `writeUpstream` leaves the writer alone and returns the block, or sends the reply. -/
theorem writeUpstream_spec (env : Env) (unsent : writer.sent = []) (reply : Reply)
    (filtered : Bytes) (policies : List Policy) :
    (∃ block, relayedBlock env filtered policies reply = some block ∧
        writeUpstream env writer reply filtered policies = ⟨writer, some block, []⟩) ∨
      ∃ answered header, relayedBlock env filtered policies reply = none ∧
        writeUpstream env writer reply filtered policies =
          ⟨answered, none, relayedRan env filtered policies reply⟩ ∧
        lengthsOf header = lengthsOf writer.header ++ lengthsOf reply.header ∧
        Answered answered reply.code header (relayedBody env filtered policies reply) := by
  unfold writeUpstream relayedBlock relayedRan relayedBody filtersReply
  by_cases streams : isStream env.codec filtered = true
  · simp only [streams, if_true, Bool.not_true, Bool.false_and, Bool.false_eq_true, if_false]
    right
    rcases answered_writeStream unsent reply with ⟨header, declared, answered⟩
    exact ⟨_, header, trivial, rfl, declared, answered⟩
  · have answers : isStream env.codec filtered = false := by simpa using streams
    by_cases posts : hasPost policies = true
    · simp only [answers, posts, Bool.not_false, Bool.and_self, if_true, Bool.false_eq_true,
        if_false]
      exact writeFiltered_spec unsent reply policies rfl
    · simp only [answers, posts, Bool.not_false, Bool.true_and, Bool.false_eq_true, if_false]
      right
      rcases answered_writeBuffered env unsent reply with ⟨header, declared, answered⟩
      exact ⟨_, header, trivial, rfl, declared, answered⟩

/-- An answer whose header declares no other lengths than the header of the writer did. -/
theorem answeredWith_of {answered : Writer} {code : ℕ} {header : Header} {bytes : Bytes}
    (same : lengthsOf header = lengthsOf writer.header) (sent : Answered answered code header bytes) :
    AnsweredWith (lengthsOf writer.header) answered :=
  ⟨code, header, bytes, by simp [same], sent⟩

theorem answeredWith_writeJSON (unsent : writer.sent = []) (code : ℕ) (fields : Fields) :
    AnsweredWith (lengthsOf writer.header) (writeJSON env writer code fields) :=
  answeredWith_of (lengthsOf_headerSet _ _ (by decide)) (answered_writeJSON unsent code fields)

theorem answeredWith_httpError (unsent : writer.sent = []) (message : String) (code : ℕ) :
    AnsweredWith (lengthsOf writer.header) (writer.httpError message code) := by
  refine ⟨code, _, _, ?_, answered_write ?_ _ _⟩
  · simp [lengthsOf_headerSet, lengthsOf_headerDel]
  · simpa using unsent

theorem answeredWith_writeEvents (unsent : writer.sent = []) (reply : Reply) :
    AnsweredWith (lengthsOf writer.header) (writeEvents writer reply) := by
  refine answeredWith_of ?_ (answered_writeAll ?_ _ _)
  · simp [lengthsOf_headerSet]
  · simpa using unsent

theorem answeredWith_writeDocument (unsent : writer.sent = []) (reply : Reply) (document : Bytes) :
    AnsweredWith (lengthsOf writer.header) (writeDocument writer reply document) := by
  refine answeredWith_of ?_ (answered_write ?_ _ _)
  · simp [lengthsOf_headerSet]
  · simpa using unsent

end Writers

section Delegating

/-- So far a delegate has only made these calls of its upstream, with the payload `sends`. -/
structure OnlyCalls (start : Exchange) (call : Call) (sends : Option Bytes) (calls : List Call)
    (exchange : Exchange) : Prop where
  writer : exchange.writer = start.writer
  delivery : exchange.delivery = start.delivery
  events : exchange.events = start.events ++ calls.map Event.call
  ofCall : ∀ sent ∈ calls, ∃ url, sent = { call with url := url, payload := sends }

/-- A delegate answers the client itself. It calls its upstream when there is a payload, and
delivers a reply when there is one. -/
structure Delegates (start : Exchange) (call : Call) (sends : Option Bytes)
    (delivers : Option Delivery) (outcome : Outcome) : Prop where
  answered : AnsweredWith (lengthsOf start.writer.header) outcome.exchange.writer
  delivery : outcome.exchange.delivery = delivers.or start.delivery
  events : ∃ calls : List Call, outcome.exchange.events = start.events ++ calls.map Event.call ∧
    (calls = [] ↔ sends = none) ∧
    ∀ sent ∈ calls, ∃ url, sent = { call with url := url, payload := sends }

variable {env : Env} {start exchange : Exchange} {call : Call} {sends : Option Bytes}
  {calls : List Call}

theorem OnlyCalls.refl (start : Exchange) (call : Call) (sends : Option Bytes) :
    OnlyCalls start call sends [] start :=
  ⟨rfl, rfl, by simp, by simp⟩

theorem OnlyCalls.record (only : OnlyCalls start call sends calls exchange) (url : String) :
    OnlyCalls start call sends (calls ++ [{ call with url := url, payload := sends }])
      (exchange.record (.call { call with url := url, payload := sends })) := by
  refine ⟨only.writer, only.delivery, ?_, ?_⟩
  · simp [Exchange.record, only.events]
  · intro sent listed
    rcases List.mem_append.mp listed with earlier | last
    · exact only.ofCall sent earlier
    · exact ⟨url, List.mem_singleton.mp last⟩

/-- The calls that were made are those that there should be. -/
theorem OnlyCalls.events_spec (only : OnlyCalls start call sends calls exchange)
    (made : calls = [] ↔ sends = none) :
    ∃ calls : List Call, exchange.events = start.events ++ calls.map Event.call ∧
      (calls = [] ↔ sends = none) ∧
      ∀ sent ∈ calls, ∃ url, sent = { call with url := url, payload := sends } :=
  ⟨calls, only.events, made, only.ofCall⟩

theorem OnlyCalls.refuse (only : OnlyCalls start call sends calls exchange)
    (unsent : start.writer.sent = []) (made : calls = [] ↔ sends = none) (code : ℕ)
    (message : String) : Delegates start call sends none (refuse env exchange code message) := by
  refine ⟨?_, only.delivery, only.events_spec made⟩
  rw [← only.writer] at unsent ⊢
  exact answeredWith_writeJSON unsent code _

theorem OnlyCalls.deliver (only : OnlyCalls start call sends calls exchange) {writer : Writer}
    (made : calls = [] ↔ sends = none)
    (answered : AnsweredWith (lengthsOf start.writer.header) writer) (delivery : Delivery)
    (status : ℕ) (error : Option String) :
    Delegates start call sends (some delivery)
      ⟨exchange.deliver delivery writer, status, error⟩ :=
  ⟨answered, rfl, only.events_spec made⟩

theorem Delegates.ofCall {url : String} {preset : Option Bytes} {outcome : Outcome}
    {delivers : Option Delivery}
    (delegates : Delegates start { call with url := url, payload := preset } sends delivers
      outcome) : Delegates start call sends delivers outcome :=
  ⟨delegates.answered, delegates.delivery, delegates.events⟩

/-- The writer with the model that the hub chose in its header. -/
theorem answeredWith_routed {writer routed : Writer} {answered : Writer} {model : String}
    (named : routed = writer.setHeader "X-Mikrollm-Routed-Model" model ∨ routed = writer)
    (answers : AnsweredWith (lengthsOf routed.header) answered) :
    AnsweredWith (lengthsOf writer.header) answered := by
  rcases named with rfl | rfl
  · have same : lengthsOf (writer.setHeader "X-Mikrollm-Routed-Model" model).header =
        lengthsOf writer.header := lengthsOf_headerSet _ _ (by decide)
    rwa [same] at answers
  · exact answers

/-- The reply of the hub that is delivered. -/
def hubDelivery (env : Env) (suffix : String) (streams : Bool) (reply : Reply) : Delivery :=
  if isEventStream env reply then ⟨reply.code, reply.body, reply.body, []⟩
  else
    let document := reply.body.take (12 * 2 ^ 20)
    if suffix = "/chat" ∧ streams = true ∧ reply.code < 400 then
      ⟨reply.code, document, (env.hubStream document).flatten, []⟩
    else ⟨reply.code, document, document, []⟩

theorem writeHub_delegates (only : OnlyCalls start call sends calls exchange)
    (unsent : start.writer.sent = []) (made : calls = [] ↔ sends = none) (suffix : String)
    (streams : Bool) (reply : Reply) :
    Delegates start call sends (some (hubDelivery env suffix streams reply))
      (writeHub env exchange suffix streams reply) := by
  unfold writeHub hubDelivery
  simp only [only.writer, if_neg reply.code_ne_zero]
  generalize routedAs : (if trimSpace (headerGet reply.header "X-Mikrollm-Routed-Model") ≠ ""
    then start.writer.setHeader "X-Mikrollm-Routed-Model"
      (trimSpace (headerGet reply.header "X-Mikrollm-Routed-Model"))
    else start.writer) = routed
  have named : routed = start.writer.setHeader "X-Mikrollm-Routed-Model"
      (trimSpace (headerGet reply.header "X-Mikrollm-Routed-Model")) ∨ routed = start.writer := by
    rw [← routedAs]
    split
    · exact Or.inl rfl
    · exact Or.inr rfl
  have unsentRouted : routed.sent = [] := by
    rcases named with rfl | rfl <;> exact unsent
  by_cases events : isEventStream env reply = true
  · simp only [if_pos events]
    exact only.deliver made
      (answeredWith_routed named (answeredWith_writeEvents unsentRouted reply)) _ _ _
  · simp only [if_neg events]
    by_cases streamed : suffix = "/chat" ∧ streams = true ∧ reply.code < 400
    · simp only [if_pos streamed]
      apply only.deliver made
      apply answeredWith_routed named
      refine answeredWith_of (lengthsOf_headerSet _ _ (by decide)) (answered_writeAll ?_ _ _)
      simpa using unsentRouted
    · simp only [if_neg streamed]
      exact only.deliver made
        (answeredWith_routed named (answeredWith_writeDocument unsentRouted reply _)) _ _ _

/-- The URL of a relay request. -/
def hubRelayURL (env : Env) (hubURL path : String) (backend : Backend) : String :=
  trimRight hubURL '/' ++ "/v1/relay/" ++ env.pathEscape backend.baseURL ++
    hubRelaySuffix env path

/-- The body of the relay request, when the hub can be called. -/
def hubSends (env : Env) (hubURL path upstream : String) (backend : Backend) (body : Bytes) :
    Option Bytes :=
  if trimSpace hubURL = "" then none
  else if (env.requestError (hubRelayURL env hubURL path backend)).isSome then none
  else some (hubPayload env upstream (hubRelaySuffix env path) body)

/-- What the hub delivers for a payload. -/
def hubDelivers (env : Env) (path : String) (body : Bytes) (reply : Except String Reply) :
    Option Bytes → Option Delivery
  | none => none
  | some _ =>
      match reply with
      | .error _ => none
      | .ok reply => some (hubDelivery env (hubRelaySuffix env path) (wantStream env body) reply)

theorem forwardHub_delegates (unsent : start.writer.sent = []) (hubURL path : String)
    (body : Bytes) (reply : Except String Reply) :
    Delegates start call (hubSends env hubURL path call.upstream call.backend body)
      (hubDelivers env path body reply
        (hubSends env hubURL path call.upstream call.backend body))
      (forwardHub env start hubURL call path body reply) := by
  have relayURL : trimRight hubURL '/' ++ "/v1/relay/" ++ env.pathEscape call.backend.baseURL ++
      hubRelaySuffix env path = hubRelayURL env hubURL path call.backend := rfl
  unfold forwardHub hubSends
  by_cases unset : trimSpace hubURL = ""
  · simp only [if_pos unset]
    exact (OnlyCalls.refl start call none).refuse unsent (by simp) 502 _
  · simp only [if_neg unset, relayURL]
    cases failure : env.requestError (hubRelayURL env hubURL path call.backend) with
    | some message =>
        exact (OnlyCalls.refl start call none).refuse unsent (by simp) 500 message
    | none =>
        have only := (OnlyCalls.refl start call
          (some (hubPayload env call.upstream (hubRelaySuffix env path) body))).record
            (hubRelayURL env hubURL path call.backend)
        cases reply with
        | error message => exact only.refuse unsent (by simp) 502 message
        | ok reply => exact writeHub_delegates only unsent (by simp) _ _ _

/-- The body of the request to Codex, when the session, its refresh and the request are good. -/
def codexSends (env : Env) (backend : Backend) (payload : Bytes) (world : CodexWorld) :
    Option Bytes :=
  let payload := if payload = [] then bytesOf "\x7b\"messages\":[]\x7d" else payload
  match env.codexSession backend.token with
  | .error _ => none
  | .ok model =>
      if world.refreshError.isSome then none else (env.codexRequest model payload).toOption

/-- What Codex delivers for a payload. -/
def codexDelivers (world : CodexWorld) : Option Bytes → Option Delivery
  | none => none
  | some _ =>
      match world.reply with
      | .error _ => none
      | .ok (status, body) => some ⟨status, body, body, []⟩

theorem forwardCodex_delegates (unsent : start.writer.sent = []) (payload : Bytes)
    (world : CodexWorld) :
    Delegates start call (codexSends env call.backend payload world)
      (codexDelivers world (codexSends env call.backend payload world))
      (forwardCodex env start call payload world) := by
  have refuses : ∀ code message, Delegates start call none none (refuse env start code message) :=
    (OnlyCalls.refl start call none).refuse unsent (by simp)
  unfold forwardCodex codexSends
  simp only
  generalize (if payload = [] then bytesOf "\x7b\"messages\":[]\x7d" else payload) = body
  cases session : env.codexSession call.backend.token with
  | error message => exact refuses 400 message
  | ok model =>
      cases refresh : world.refreshError with
      | some message => exact refuses 502 message
      | none =>
          simp only [Option.isSome_none, Bool.false_eq_true, if_false]
          cases translated : env.codexRequest model body with
          | error message => exact refuses 502 message
          | ok request =>
              have only := (OnlyCalls.refl start call (some request)).record
              cases replied : world.reply with
              | error message =>
                  simp only [Except.toOption, codexDelivers, replied]
                  exact (only _).refuse unsent (by simp) 502 message
              | ok answer =>
                  rcases answer with ⟨status, body⟩
                  have code : (if status.val = 0 then 200 else status.val) = status.val :=
                    if_neg (Reply.code_ne_zero ⟨status, [], []⟩)
                  simp only [Except.toOption, codexDelivers, replied, code]
                  apply (only _).deliver (by simp)
                  refine answeredWith_of ?_ (answered_write ?_ _ _)
                  · exact lengthsOf_headerSet _ _ (by decide)
                  · exact unsent

/-- What a chat of Grok delivers. -/
def chatDelivers (env : Env) : Except String Reply → Option Delivery
  | .error _ => none
  | .ok reply =>
      if reply.code = 401 then none
      else if isEventStream env reply then some ⟨reply.code, reply.body, reply.body, []⟩
      else
        let document := reply.body.take (8 * 2 ^ 20)
        some ⟨reply.code, document, document, []⟩

/-- `writeChat` writes once, or it only called. -/
theorem writeChat_spec (env : Env)
    (only : OnlyCalls start call call.payload calls exchange)
    (unsent : start.writer.sent = []) (requested : env.requestError call.url = none)
    (payload : call.payload ≠ none) (reply : Except String Reply) :
    let written := writeChat env exchange call reply
    (written.wrote = true ∧ written.error = none ∧ written.status ≠ 401 ∧
        ∀ status error, Delegates start call call.payload (chatDelivers env reply)
          ⟨written.exchange, status, error⟩) ∨
      (written.wrote = false ∧
        OnlyCalls start call call.payload (calls ++ [call]) written.exchange ∧
        chatDelivers env reply = none ∧
        (written.error.isSome ∧ (∃ message, reply = .error message) ∨
          written.error = none ∧ written.status = 401)) := by
  intro written
  have called := only.record call.url
  have made : calls ++ [call] = [] ↔ call.payload = none := by simp [payload]
  have sameWriter : (exchange.record (.call call)).writer = start.writer := only.writer
  simp only [written, writeChat, requested]
  cases reply with
  | error message => exact Or.inr ⟨rfl, called, rfl, Or.inl ⟨rfl, message, rfl⟩⟩
  | ok reply =>
      simp only [chatDelivers, if_neg reply.code_ne_zero]
      by_cases unauthorized : reply.code = 401
      · simp only [if_pos unauthorized]
        exact Or.inr ⟨trivial, called, trivial, Or.inr ⟨trivial, trivial⟩⟩
      · simp only [if_neg unauthorized]
        left
        by_cases events : isEventStream env reply = true
        · simp only [if_pos events]
          refine ⟨trivial, trivial, unauthorized, fun final error => ?_⟩
          apply called.deliver made
          rw [sameWriter]
          exact answeredWith_writeEvents unsent reply
        · simp only [if_neg events]
          refine ⟨trivial, trivial, unauthorized, fun final error => ?_⟩
          apply called.deliver made
          rw [sameWriter]
          exact answeredWith_writeDocument unsent reply _

/-- What sends `grok.Write` to its second request. -/
theorem writeChat_status (start : Exchange) (requested : env.requestError call.url = none)
    (reply : Except String Reply) :
    (∃ good, reply = .ok good ∧ good.code = 401) ↔
      (writeChat env start call reply).error = none ∧
        (writeChat env start call reply).wrote = false ∧
        (writeChat env start call reply).status = 401 := by
  cases reply with
  | error message => simp [writeChat, requested]
  | ok reply =>
      by_cases unauthorized : reply.code = 401
      · simp [writeChat, requested, unauthorized]
      · by_cases events : isEventStream env reply = true
        · simp [writeChat, requested, unauthorized, events]
        · simp [writeChat, requested, unauthorized, events]

/-- What `grok.Write` delivers: the reply to the request, or after a refusal the one to the
request with the fresh session. -/
def grokReply (world : GrokWorld) : Except String Reply :=
  match world.first with
  | .error message => .error message
  | .ok reply => if reply.code = 401 ∧ world.refreshes = true then world.second else .ok reply

/-- `grok.Write` writes once, or it only called. -/
theorem grokWrite_spec (env : Env) (call : Call) (unsent : start.writer.sent = [])
    (requested : env.requestError call.url = none) (payload : call.payload ≠ none)
    (world : GrokWorld) :
    let written := grokWrite env start call world
    (written.wrote = true ∧ written.error = none ∧ written.status ≠ 401 ∧
        ∀ status error, Delegates start call call.payload (chatDelivers env (grokReply world))
          ⟨written.exchange, status, error⟩) ∨
      ∃ calls, written.wrote = false ∧
        OnlyCalls start call call.payload (calls ++ [call]) written.exchange ∧
        chatDelivers env (grokReply world) = none ∧
        (written.error.isSome ∨ written.error = none ∧ written.status = 401) := by
  have first := writeChat_spec env (OnlyCalls.refl start call call.payload) unsent requested
    payload world.first
  have again := writeChat_status start requested world.first
  simp only [grokWrite]
  by_cases retries : world.refreshes = true ∧ ∃ reply, world.first = .ok reply ∧ reply.code = 401
  · rcases retries with ⟨refreshes, reply, replied, unauthorized⟩
    have last : grokReply world = world.second := by simp [grokReply, replied, unauthorized, refreshes]
    rcases again.mp ⟨reply, replied, unauthorized⟩ with ⟨noError, unwritten, status⟩
    simp only [noError, unwritten, status, refreshes, last, Option.isSome_none,
      Bool.false_eq_true, Bool.true_eq_false, ne_eq, not_true_eq_false, or_self, if_false]
    rcases first with ⟨wrote, _⟩ | ⟨_, only, _⟩
    · exact absurd wrote (by simp [unwritten])
    · rcases writeChat_spec env only unsent requested payload world.second with wrote | failed
      · exact Or.inl wrote
      · exact Or.inr ⟨_, failed.1, failed.2.1, failed.2.2.1, failed.2.2.2.imp And.left id⟩
  · have last : grokReply world = world.first := by
      unfold grokReply
      split
      · rename_i replied
        exact replied.symm
      · rename_i reply replied
        rw [if_neg, replied]
        exact fun both => retries ⟨both.2, reply, replied, both.1⟩
    rw [if_pos, last]
    · rcases first with wrote | failed
      · exact Or.inl wrote
      · exact Or.inr ⟨[], failed.1, failed.2.1, failed.2.2.1, failed.2.2.2.imp And.left id⟩
    · by_contra another
      simp only [not_or, Bool.not_eq_true, Option.isSome_eq_false_iff, Option.isNone_iff_eq_none,
        not_not, Bool.not_eq_false] at another
      exact retries ⟨another.2.2.2, again.mpr ⟨another.1, another.2.1, another.2.2.1⟩⟩

/-- The URL of a chat of Grok. -/
def grokURL (backend : Backend) : String :=
  trimRight (if backend.baseURL = "" then grokDefaultBase else backend.baseURL) '/' ++
    "/chat/completions"

/-- The body of the request to Grok, when the session and the request are good. -/
def grokSends (env : Env) (backend : Backend) (payload : Bytes) : Option Bytes :=
  match env.grokSession backend.token with
  | .error _ => none
  | .ok model =>
      match env.grokRequest model payload with
      | .error _ => none
      | .ok request => if (env.requestError (grokURL backend)).isSome then none else some request

/-- What Grok delivers for a payload. -/
def grokDelivers (env : Env) (world : GrokWorld) : Option Bytes → Option Delivery
  | none => none
  | some _ => chatDelivers env (grokReply world)

theorem forwardGrok_delegates (unsent : start.writer.sent = []) (payload : Bytes)
    (world : GrokWorld) :
    Delegates start call (grokSends env call.backend payload)
      (grokDelivers env world (grokSends env call.backend payload))
      (forwardGrok env start call payload world) := by
  have refuses : ∀ code message, Delegates start call none none (refuse env start code message) :=
    (OnlyCalls.refl start call none).refuse unsent (by simp)
  unfold forwardGrok grokSends
  cases session : env.grokSession call.backend.token with
  | error message => exact refuses 400 message
  | ok model =>
      simp only
      cases translated : env.grokRequest model payload with
      | error message => exact refuses 502 message
      | ok request =>
          simp only
          rw [show trimRight (if call.backend.baseURL = "" then grokDefaultBase
            else call.backend.baseURL) '/' ++ "/chat/completions" = grokURL call.backend from rfl]
          generalize grokURL call.backend = url
          cases failure : env.requestError url with
          | some message =>
              have unwritten : grokWrite env start { call with
                  url := url
                  payload := some request } world = ⟨start, 0, false, some message⟩ := by
                simp [grokWrite, writeChat, failure]
              rw [unwritten]
              exact refuses 502 message
          | none =>
              have spec := grokWrite_spec env { call with
                url := url
                payload := some request } unsent failure (by simp) world
              simp only at spec
              rcases spec with ⟨_, noError, status, delegates⟩ | ⟨calls, _, only, nothing, failed⟩
              · simp only [noError, if_neg status]
                exact (delegates _ _).ofCall
              · cases unsentTo : (grokWrite env start { call with
                    url := url
                    payload := some request } world).error with
                | some message =>
                    simp only [Option.isSome_none, Bool.false_eq_true, if_false, grokDelivers,
                      nothing]
                    exact (only.refuse unsent (by simp) 502 message).ofCall
                | none =>
                    have unauthorized := (failed.resolve_left (by simp [unsentTo])).2
                    simp only [Option.isSome_none, Bool.false_eq_true, if_false, grokDelivers,
                      nothing, if_pos unauthorized]
                    have refused : Delegates start _ (some request) none
                        (refuse env _ 401 "grok unauthorized") := only.refuse unsent (by simp) _ _
                    exact ⟨refused.answered, refused.delivery, refused.events⟩

end Delegating

end MikroLLM.Proxy
