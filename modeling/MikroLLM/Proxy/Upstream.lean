import Mathlib.Algebra.Group.Nat.Defs
import MikroLLM.Go.Http
import MikroLLM.Guard.Apply
import MikroLLM.PromptCache.Prepare
import MikroLLM.Proxy.Pick

/-!
# Replies of an upstream

What the proxy does with the reply of an upstream that it called: the headers
that are copied, the errors that are about money, and `writeUpstream`, which
streams the reply, filters it or passes it on.
-/

namespace MikroLLM.Proxy

open Domain Go Guard

/-- The functions that the proxy is built over: the tables of Unicode, the bytes of bodies, what
policies do to texts, the parameters of a profile, the usage that a body reports, the chunks of a
stream made of a chat completion of the hub, `url.PathEscape`, and the errors of
`http.NewRequest` for an URL and of the sessions and bodies of Codex and Grok. -/
structure Env where
  text : TextLibrary
  codec : Codec
  filters : Filters
  inject : String → BackendKind → Bool → Bytes → Bytes
  cacheTokens : Bytes → ℕ × ℕ
  hubStream : Bytes → List Bytes
  pathEscape : String → String
  requestError : String → Option String
  codexSession : String → Except String String
  codexRequest : String → Bytes → Except String Bytes
  grokSession : String → Except String String
  grokRequest : String → Bytes → Except String Bytes

/-- A reply: status, header, and the body as it is read. -/
structure Reply where
  status : Status
  header : Header
  chunks : List Bytes

def Reply.code (reply : Reply) : ℕ :=
  reply.status.val

def Reply.body (reply : Reply) : Bytes :=
  reply.chunks.flatten

/-- A JSON object as `json.Encoder` writes it. -/
def encodeLine (env : Env) (fields : Fields) : Bytes :=
  env.codec.marshal fields ++ bytesOf "\n"

/-- `writeJSON`. -/
def writeJSON (env : Env) (writer : Writer) (code : ℕ) (fields : Fields) : Writer :=
  ((writer.setHeader "Content-Type" "application/json").writeHeader code).write
    (encodeLine env fields)

/-- The object with an error message. -/
def errorFields (message : String) : Fields :=
  [("error", .object [("message", .string message)])]

/-- `dropResponseHeader`, for a canonical key. -/
def dropResponseHeader (key : String) : Bool :=
  key ∈ ["Connection", "Keep-Alive", "Proxy-Authenticate", "Proxy-Authorization", "Te", "Trailer",
    "Transfer-Encoding", "Upgrade", "Set-Cookie", "Set-Cookie2", "Cookie", "Authorization",
    "Www-Authenticate", "Location", "Refresh", "Clear-Site-Data", "Access-Control-Allow-Origin",
    "Access-Control-Allow-Credentials", "Access-Control-Allow-Headers",
    "Access-Control-Allow-Methods", "Access-Control-Expose-Headers", "Access-Control-Max-Age",
    "Content-Security-Policy", "Content-Security-Policy-Report-Only", "X-Frame-Options",
    "X-Content-Type-Options"]

/-- `copySafeHeaders`. -/
def copySafeHeaders (target source : Header) : Header :=
  target ++ source.filter fun entry => !dropResponseHeader entry.1

/-- `w.Header()` with the headers of a reply. -/
def copyHeaders (writer : Writer) (source : Header) : Writer :=
  { writer with header := copySafeHeaders writer.header source }

def billingKeys : List String :=
  ["insufficient credits", "payment required", "credit limit", "out of credits", "no credits",
    "quota exceeded", "exceeded your current quota", "billing", "subscription", "spend limit",
    "budget exceeded", "limit_remaining"]

/-- `isBillingError`. -/
def isBillingError (env : Env) (code : ℕ) (body : Bytes) : Bool :=
  code = 402 ||
    (billingKeys.any (contains (env.text.toLower (env.codec.text body))) &&
      (code = 403 || code = 429 || (400 ≤ code && code < 500)))

/-- What `writeUpstream` returns, without the usage. `ran` is a history of the policies that the
reply went through. -/
structure Written where
  writer : Writer
  block : Option Block
  ran : List Policy

/-- `setCacheHeaders`. -/
def setCacheHeaders (writer : Writer) (tokens : ℕ × ℕ) : Writer :=
  let read :=
    if 0 < tokens.1 then writer.setHeader "X-Mikrollm-Cache-Tokens" (toString tokens.1) else writer
  if 0 < tokens.2 then read.setHeader "X-Mikrollm-Cache-Write-Tokens" (toString tokens.2) else read

/-- The first case of `writeUpstream`: the client asked for a stream. -/
def writeStream (writer : Writer) (reply : Reply) : Writer :=
  ((((copyHeaders writer reply.header).setHeader "Cache-Control" "no-cache").setHeader
    "X-Accel-Buffering" "no").writeHeader reply.code).writeAll reply.chunks

/-- A `memWriter`: code zero until there is a status. -/
structure MemWriter where
  header : Header
  code : ℕ
  buffer : Bytes

def MemWriter.write (writer : MemWriter) (bytes : Bytes) : MemWriter :=
  { writer with
    code := if writer.code = 0 then 200 else writer.code
    buffer := writer.buffer ++ bytes }

/-- The second case of `writeUpstream`: there are policies for replies. -/
def writeFiltered (env : Env) (writer : Writer) (reply : Reply) (policies : List Policy) :
    Written :=
  let captured := reply.chunks.foldl MemWriter.write
    ⟨copySafeHeaders [] reply.header, reply.code, []⟩
  let post := apply env.text env.filters env.codec captured.buffer policies .post
  match post.block with
  | some block => ⟨writer, some block, []⟩
  | none =>
      let code := if captured.code = 0 then 200 else captured.code
      ⟨((setCacheHeaders (copyHeaders writer captured.header)
        (env.cacheTokens post.body)).writeHeader code).write post.body, none, post.ran⟩

def maxUsageBuffer : ℕ := 2 ^ 20

/-- What the third case of `writeUpstream` keeps while it reads. -/
structure Buffering where
  writer : Writer
  buffer : Bytes
  overflow : Bool

/-- One read. -/
def bufferChunk (reply : Reply) (state : Buffering) (chunk : Bytes) : Buffering :=
  if state.overflow = false ∧ state.buffer.length + chunk.length ≤ maxUsageBuffer then
    { state with buffer := state.buffer ++ chunk }
  else
    let begun :=
      if state.overflow then state.writer
      else ((copyHeaders state.writer reply.header).writeHeader reply.code).write state.buffer
    ⟨begun.write chunk, [], true⟩

/-- The third case of `writeUpstream`. -/
def writeBuffered (env : Env) (writer : Writer) (reply : Reply) : Writer :=
  let read := reply.chunks.foldl (bufferChunk reply) ⟨writer, [], false⟩
  if read.overflow then read.writer
  else
    ((setCacheHeaders (copyHeaders read.writer reply.header)
      (env.cacheTokens read.buffer)).writeHeader reply.code).write read.buffer

/-- `writeUpstream`. -/
def writeUpstream (env : Env) (writer : Writer) (reply : Reply) (filtered : Bytes)
    (policies : List Policy) : Written :=
  if isStream env.codec filtered then ⟨writeStream writer reply, none, []⟩
  else if hasPost policies then writeFiltered env writer reply policies
  else ⟨writeBuffered env writer reply, none, []⟩

end MikroLLM.Proxy
