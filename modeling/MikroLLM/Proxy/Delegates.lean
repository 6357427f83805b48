import MikroLLM.Proxy.Upstream

/-!
# Backends with a writer of their own

The hub, Codex and Grok answer in other ways than an OpenAI server, and
`Forward` hands the client over to them. What happens on the way is an
`Exchange`: what the client got, and which upstreams were called.
-/

namespace MikroLLM.Proxy

open Domain Go Guard

/-- A request that goes to an upstream. `aliasName` is the alias of the hop, `guarded` are the
policies that the body went through before it; both are histories. -/
structure Call where
  aliasName : String
  upstream : String
  backend : Backend
  url : String
  payload : Option Bytes
  guarded : List Policy

/-- What `Forward` does, in order: it begins a hop with an alias, counts a connection, calls an
upstream, or keeps a reply back that a policy blocks. -/
inductive Event
  | hop (aliasName : String)
  | inc (id : BackendId)
  | dec (id : BackendId)
  | call (call : Call)
  | blocked (block : Block)

/-- A reply that the client gets: what came in, what goes out, and the policies in between. -/
structure Delivery where
  code : ℕ
  received : Bytes
  given : Bytes
  ran : List Policy

/-- The client's response and, as histories, the events and the reply that was delivered. -/
structure Exchange where
  writer : Writer
  events : List Event
  delivery : Option Delivery

namespace Exchange

def record (exchange : Exchange) (event : Event) : Exchange :=
  { exchange with events := exchange.events ++ [event] }

def respond (exchange : Exchange) (writer : Writer) : Exchange :=
  { exchange with writer := writer }

def deliver (exchange : Exchange) (delivery : Delivery) (writer : Writer) : Exchange :=
  { exchange with writer := writer, delivery := some delivery }

end Exchange

/-- What a delegate returns: a status and an error. -/
structure Outcome where
  exchange : Exchange
  status : ℕ
  error : Option String

/-- An error that the client gets as JSON. -/
def refuse (env : Env) (exchange : Exchange) (code : ℕ) (message : String) : Outcome where
  exchange := exchange.respond (writeJSON env exchange.writer code (errorFields message))
  status := code
  error := some message

section Hub

/-- `imagePollPath`. -/
def imagePollPath (path : String) : Bool :=
  hasPrefix path "/v1/images/" && !hasPrefix path "/v1/images/generations"

/-- `hubRelaySuffix`. -/
def hubRelaySuffix (env : Env) (path : String) : String :=
  if path = "/v1/images/generations" then "/images"
  else if path = "/v1/videos" then "/videos"
  else if imagePollPath path then "/images/" ++ env.pathEscape (trimPrefix path "/v1/images/")
  else if hasPrefix path "/v1/videos/" then
    "/videos/" ++ join ((split (trimPrefix path "/v1/videos/") '/').map env.pathEscape) "/"
  else "/chat"

/-- The body of the relay request. -/
def hubPayload (env : Env) (upstream suffix : String) (body : Bytes) : Bytes :=
  let named := setField ((env.codec.decode body).getD []) "model" (.string upstream)
  env.codec.marshal (if suffix = "/chat" then setField named "stream" (.bool false) else named)

/-- The request asks for a stream, with a value that is a bool. -/
def wantStream (env : Env) (body : Bytes) : Bool :=
  field ((env.codec.decode body).getD []) "stream" = .bool true

def isEventStream (env : Env) (reply : Reply) : Bool :=
  contains (env.text.toLower (headerGet reply.header "Content-Type")) "text/event-stream"

/-- An event stream that is passed on as it comes. -/
def writeEvents (writer : Writer) (reply : Reply) : Writer :=
  ((((writer.setHeader "Content-Type" (headerGet reply.header "Content-Type")).setHeader
    "Cache-Control" "no-cache").setHeader "X-Accel-Buffering" "no").writeHeader
      (if reply.code = 0 then 200 else reply.code)).writeAll reply.chunks

/-- A document that is passed on with its type. -/
def writeDocument (writer : Writer) (reply : Reply) (document : Bytes) : Writer :=
  let contentType := headerGet reply.header "Content-Type"
  ((writer.setHeader "Content-Type"
    (if contentType = "" then "application/json" else contentType)).writeHeader
      (if reply.code = 0 then 200 else reply.code)).write document

/-- What `forwardHub` does with the reply. -/
def writeHub (env : Env) (exchange : Exchange) (suffix : String) (streams : Bool) (reply : Reply) :
    Outcome :=
  let code := if reply.code = 0 then 200 else reply.code
  let routed := trimSpace (headerGet reply.header "X-Mikrollm-Routed-Model")
  let writer :=
    if routed ≠ "" then exchange.writer.setHeader "X-Mikrollm-Routed-Model" routed
    else exchange.writer
  if isEventStream env reply then
    ⟨exchange.deliver ⟨code, reply.body, reply.body, []⟩ (writeEvents writer reply), code,
      if 400 ≤ code then some "hub stream" else none⟩
  else
    let document := reply.body.take (12 * 2 ^ 20)
    if suffix = "/chat" ∧ streams = true ∧ code < 400 then
      let chunks := env.hubStream document
      ⟨exchange.deliver ⟨code, document, chunks.flatten, []⟩
        (((writer.setHeader "Content-Type" "text/event-stream").writeHeader 200).writeAll chunks),
        200, none⟩
    else
      ⟨exchange.deliver ⟨code, document, document, []⟩ (writeDocument writer reply document), code,
        if 400 ≤ code then some (trimSpace (env.codec.text document)) else none⟩

/-- `forwardHub`. -/
def forwardHub (env : Env) (exchange : Exchange) (hubURL : String) (call : Call) (path : String)
    (body : Bytes) (reply : Except String Reply) : Outcome :=
  if trimSpace hubURL = "" then refuse env exchange 502 "hub is not configured"
  else
    let suffix := hubRelaySuffix env path
    let url :=
      trimRight hubURL '/' ++ "/v1/relay/" ++ env.pathEscape call.backend.baseURL ++ suffix
    match env.requestError url with
    | some message => refuse env exchange 500 message
    | none =>
        let sent := exchange.record (.call { call with
          url := url
          payload := some (hubPayload env call.upstream suffix body) })
        match reply with
        | .error message => refuse env sent 502 message
        | .ok reply => writeHub env sent suffix (wantStream env body) reply

end Hub

section Codex

/-- What happens around `codex.Complete`: the error of a refresh before the request, and what it
returns for the request. -/
structure CodexWorld where
  refreshError : Option String
  reply : Except String (Status × Bytes)

/-- `codex.DefaultBase`. -/
def codexDefaultBase : String := "https://chatgpt.com/backend-api/codex"

/-- `forwardCodex`, up to the deferred `Dec`. -/
def forwardCodex (env : Env) (exchange : Exchange) (call : Call) (payload : Bytes)
    (world : CodexWorld) : Outcome :=
  let payload := if payload = [] then bytesOf "\x7b\"messages\":[]\x7d" else payload
  match env.codexSession call.backend.token with
  | .error message => refuse env exchange 400 message
  | .ok model =>
      match world.refreshError with
      | some message => refuse env exchange 502 message
      | none =>
          match env.codexRequest model payload with
          | .error message => refuse env exchange 502 message
          | .ok request =>
              let base := if call.backend.baseURL = "" then codexDefaultBase else call.backend.baseURL
              let sent := exchange.record (.call { call with
                url := trimRight base '/' ++ "/responses"
                payload := some request })
              match world.reply with
              | .error message => refuse env sent 502 message
              | .ok (status, body) =>
                  let status := if status.val = 0 then 200 else status.val
                  let contentType :=
                    if hasPrefix (trimSpace (env.codec.text body)) "data:" then "text/event-stream"
                    else "application/json"
                  ⟨sent.deliver ⟨status, body, body, []⟩
                    (((sent.writer.setHeader "Content-Type" contentType).writeHeader status).write
                      body), status, none⟩

end Codex

section Grok

/-- What happens around `grok.Write`: the reply to the request, whether the session can be
refreshed, and the reply to the request with the fresh session. -/
structure GrokWorld where
  first : Except String Reply
  refreshes : Bool
  second : Except String Reply

/-- `grok.DefaultBase`. -/
def grokDefaultBase : String := "https://cli-chat-proxy.grok.com/v1"

/-- What `writeChat` returns, and whether it wrote. -/
structure ChatWritten where
  exchange : Exchange
  status : ℕ
  wrote : Bool
  error : Option String

/-- `writeChat`. -/
def writeChat (env : Env) (exchange : Exchange) (call : Call) (reply : Except String Reply) :
    ChatWritten :=
  match env.requestError call.url with
  | some message => ⟨exchange, 0, false, some message⟩
  | none =>
      let sent := exchange.record (.call call)
      match reply with
      | .error message => ⟨sent, 0, false, some message⟩
      | .ok reply =>
          let code := if reply.code = 0 then 200 else reply.code
          if reply.code = 401 then ⟨sent, 401, false, none⟩
          else if isEventStream env reply then
            ⟨sent.deliver ⟨code, reply.body, reply.body, []⟩ (writeEvents sent.writer reply), code,
              true, none⟩
          else
            let document := reply.body.take (8 * 2 ^ 20)
            ⟨sent.deliver ⟨code, document, document, []⟩
              (writeDocument sent.writer reply document), code, true, none⟩

/-- `grok.Write`. -/
def grokWrite (env : Env) (exchange : Exchange) (call : Call) (world : GrokWorld) : ChatWritten :=
  let first := writeChat env exchange call world.first
  if first.error.isSome ∨ first.wrote = true ∨ first.status ≠ 401 ∨ world.refreshes = false then
    first
  else writeChat env first.exchange call world.second

/-- `forwardGrok`, up to the deferred `Dec`. -/
def forwardGrok (env : Env) (exchange : Exchange) (call : Call) (payload : Bytes)
    (world : GrokWorld) : Outcome :=
  match env.grokSession call.backend.token with
  | .error message => refuse env exchange 400 message
  | .ok model =>
      match env.grokRequest model payload with
      | .error message => refuse env exchange 502 message
      | .ok request =>
          let base := if call.backend.baseURL = "" then grokDefaultBase else call.backend.baseURL
          let written := grokWrite env exchange { call with
            url := trimRight base '/' ++ "/chat/completions"
            payload := some request } world
          match written.error with
          | some message => refuse env written.exchange 502 message
          | none =>
              if written.status = 401 then
                ⟨(refuse env written.exchange 401 "grok unauthorized").exchange, 401, none⟩
              else ⟨written.exchange, if written.status = 0 then 200 else written.status, none⟩

end Grok

end MikroLLM.Proxy
