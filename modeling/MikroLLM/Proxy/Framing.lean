import MikroLLM.Proxy.Course

/-!
# The length of a response

The header of a reply is copied with its `Content-Length`, the body is not always
the same: an error is cut, and a policy may write another body.
-/

namespace MikroLLM.Proxy

open Domain Go Guard

/-- The length that a value of `Content-Length` stands for. -/
def contentLength (value : String) : Option ℕ :=
  let digits := trimSpace value
  if digits = "" then none else parseUint 0 digits.toList

/-- Every length that a header declares is this one. -/
def Declares (header : Header) (length : ℕ) : Prop :=
  ∀ value ∈ lengthsOf header, contentLength value = some length

/-- A reply as its upstream sent it, not cut short. -/
def Reply.Complete (reply : Reply) : Prop :=
  Declares reply.header reply.body.length

/-- The lengths that were declared to the client are those of the body. -/
def Framed (writer : Writer) : Prop :=
  ∀ code header, Sent.status code header ∈ writer.sent → Declares header writer.output.length

/-- The body of a reply is passed on with the length it came with. -/
def KeepsLength (env : Env) (guarded : Guarded) (reply : Reply) : Prop :=
  if 400 ≤ reply.code then reply.body.length ≤ 8192
  else isStream env.codec guarded.body = true ∨ hasPost guarded.policies = false ∨
    (apply env.text env.filters env.codec reply.body guarded.policies .post).body.length =
      reply.body.length

section Lengths

variable {env : Env} {reply : Reply} {guarded : Guarded} {writer : Writer} {code : ℕ}
  {header : Header} {bytes : Bytes}

theorem framed_iff_of_answered (answered : Answered writer code header bytes) :
    Framed writer ↔ Declares header bytes.length := by
  rcases answered with ⟨chunks, sent, rfl⟩
  have output : writer.output = chunks.flatten := Answered.output ⟨chunks, sent, rfl⟩
  unfold Framed
  rw [output, sent]
  constructor
  · intro framed
    exact framed code header (by simp)
  · intro declares other declared listed
    have same : other = code ∧ declared = header := by simpa using listed
    rw [same.2]
    exact declares

theorem answerBody_length_iff :
    (answerBody env guarded reply).length = reply.body.length ↔ KeepsLength env guarded reply := by
  unfold answerBody KeepsLength
  by_cases large : 400 ≤ reply.code
  · simp only [if_pos large, List.length_take]
    omega
  · simp only [if_neg large, relayedBody, filtersReply, Bool.and_eq_true, Bool.not_eq_true']
    cases streams : isStream env.codec guarded.body with
    | true => simp
    | false =>
        cases posts : hasPost guarded.policies with
        | true => simp
        | false => simp

theorem declares_iff_of_complete (complete : reply.Complete) (length : ℕ) :
    Declares reply.header length ↔ lengthsOf reply.header = [] ∨ length = reply.body.length := by
  constructor
  · intro declares
    rcases List.eq_nil_or_concat' (lengthsOf reply.header) with none | ⟨others, value, some⟩
    · exact Or.inl none
    · right
      have listed : value ∈ lengthsOf reply.header := by simp [some]
      have same := (declares value listed).symm.trans (complete value listed)
      exact Option.some.inj same
  · rintro (none | same) value listed
    · simp [none] at listed
    · rw [same]
      exact complete value listed

end Lengths

section Runs

variable {env : Env} {request : Request} {worlds : ℕ → HopWorld} {header : Header}

/-- The response to a run that passes a reply on. -/
theorem framed_iff_of_relayed {hop : ℕ} {sending : Sending} {reply : Reply}
    (clean : lengthsOf header = []) (complete : reply.Complete)
    (relayed : relayedAt env request worlds hop = some (sending, reply)) :
    Framed (forward env request worlds header).exchange.writer ↔
      lengthsOf reply.header = [] ∨ KeepsLength env sending.guarded reply := by
  rcases forward_course env request worlds header with ⟨_, _, finishes⟩
  rcases finishes.relayed hop (Nat.zero_le hop) sending reply relayed with
    ⟨declared, lengths, answered⟩
  simp only [clean, List.nil_append] at lengths
  rw [framed_iff_of_answered answered, ← answerBody_length_iff, ← declares_iff_of_complete complete]
  unfold Declares
  rw [lengths]

/-- The proxy's own responses declare no length. -/
theorem framed_of_own (clean : lengthsOf header = [])
    (own : ∀ hop, relayedAt env request worlds hop = none) :
    Framed (forward env request worlds header).exchange.writer := by
  rcases forward_course env request worlds header with ⟨_, _, finishes⟩
  rcases finishes.own (fun hop _ => own hop) with ⟨code, declared, bytes, lengths, answered⟩
  rw [framed_iff_of_answered answered]
  intro value listed
  have initial : value ∈ lengthsOf header := lengths listed
  simp [clean] at initial

theorem relayedAt_reply {hop : ℕ} {sending : Sending} {reply : Reply}
    (relayed : relayedAt env request worlds hop = some (sending, reply)) :
    (worlds hop).reply = .ok reply := by
  rcases Option.bind_eq_some_iff.mp relayed with ⟨stage, _, relays⟩
  exact (relays_eq_some.mp relays).2.1

/-- When the response is framed: the reply that is passed on declares no length, or its body is
passed on with the length it came with. -/
theorem framed_iff (clean : lengthsOf header = [])
    (complete : ∀ hop reply, (worlds hop).reply = .ok reply → reply.Complete) :
    Framed (forward env request worlds header).exchange.writer ↔
      ∀ hop sending reply, relayedAt env request worlds hop = some (sending, reply) →
        lengthsOf reply.header = [] ∨ KeepsLength env sending.guarded reply := by
  constructor
  · intro framed hop sending reply relayed
    exact (framed_iff_of_relayed clean (complete hop reply (relayedAt_reply relayed))
      relayed).mp framed
  · intro keeps
    by_cases own : ∀ hop, relayedAt env request worlds hop = none
    · exact framed_of_own clean own
    · simp only [not_forall] at own
      rcases own with ⟨hop, some⟩
      rcases Option.ne_none_iff_exists'.mp some with ⟨⟨sending, reply⟩, relayed⟩
      exact (framed_iff_of_relayed clean (complete hop reply (relayedAt_reply relayed))
        relayed).mpr (keeps hop sending reply relayed)

end Runs

/-- A page of an error that is one byte longer than what is kept of it. -/
def longError : Reply where
  status := ⟨500, by decide⟩
  header := [("Content-Length", "8193")]
  chunks := [List.replicate 8193 97]

theorem longError_length : longError.body.length = 8193 := by
  have body : longError.body = List.replicate 8193 97 ++ [] := rfl
  rw [body, List.append_nil, List.length_replicate]

theorem longError_complete : longError.Complete := by
  intro value listed
  have same : value = "8193" := List.mem_singleton.mp listed
  rw [same, longError_length]
  decide

/-- The world of the run. -/
def failing (_hop : ℕ) : HopWorld :=
  answering (allUp oneServer unfiltered) (.ok longError)

theorem failing_complete (hop : ℕ) (reply : Reply) (answered : (failing hop).reply = .ok reply) :
    reply.Complete := by
  have same : longError = reply := Except.ok.inj answered
  rw [← same]
  exact longError_complete

theorem framed_iff_failing :
    Framed (forward (trialEnv chatDocuments fun _ => none) chatRequest failing []).exchange.writer ↔
      ∀ hop sending reply,
        relayedAt (trialEnv chatDocuments fun _ => none) chatRequest failing hop =
            some (sending, reply) →
          lengthsOf reply.header = [] ∨
            KeepsLength (trialEnv chatDocuments fun _ => none) sending.guarded reply :=
  framed_iff rfl failing_complete

def failingSending : Sending :=
  ⟨⟨1, "mac", "http://192.168.88.82:8000", .vllm, "", true⟩, "qwen3", ⟨chatRequest.body, [], []⟩⟩

theorem failing_relays :
    relayedAt (trialEnv chatDocuments fun _ => none) chatRequest failing 0 =
      some (failingSending, longError) := by
  have begun : begunAt (trialEnv chatDocuments fun _ => none) chatRequest failing 0 =
      some ⟨"chat", [], none⟩ := begunAt_of_stage (by decide) rfl (by decide)
  have sends : (Stage.mk "chat" [] none).sending (trialEnv chatDocuments fun _ => none)
      chatRequest (failing 0) = some failingSending := by
    rfl
  have advance : (Stage.mk "chat" [] none).advance (trialEnv chatDocuments fun _ => none)
      chatRequest (failing 0) = none := by
    have code : longError.code = 500 := rfl
    have replied : (failing 0).reply = .ok longError := rfl
    rw [advance_of_sending sends]
    simp [unanswered, replied, fails, isBillingError, code]
  rw [relayedAt, begun, Option.bind_some]
  exact relays_eq_some.mpr ⟨sends, rfl, by decide, rfl, advance, Or.inl (by decide)⟩

/-- The length of the page is declared for what is left of it. -/
theorem not_framed :
    ¬∀ (env : Env) (request : Request) (worlds : ℕ → HopWorld) (header : Header),
      lengthsOf header = [] →
      (∀ hop reply, (worlds hop).reply = .ok reply → reply.Complete) →
      Framed (forward env request worlds header).exchange.writer := by
  intro claim
  have framed := claim (trialEnv chatDocuments fun _ => none) chatRequest failing [] rfl
    failing_complete
  rcases (framed_iff_of_relayed rfl longError_complete failing_relays).mp framed with none | keeps
  · exact absurd none (by decide)
  · have large : 400 ≤ longError.code := by decide
    simp [KeepsLength, large, longError_length] at keeps

end MikroLLM.Proxy
