import MikroLLM.Proxy.Course

/-!
# What the response depends on

Two hops that start alike end alike, whatever happened before them: a hop that
fails hands on its stage, an unused writer, and the status and message for the
case that no other hop follows.
-/

namespace MikroLLM.Proxy

open Domain Go Guard

section Delegating

variable {env : Env} {first second : Exchange}

/-- Two exchanges with one writer. -/
def Exchange.Alike (first second : Exchange) : Prop :=
  first.writer = second.writer

theorem Exchange.Alike.record (alike : first.Alike second) (event other : Event) :
    (first.record event).Alike (second.record other) :=
  alike

theorem Exchange.Alike.refuse (alike : first.Alike second) (code : ℕ) (message : String) :
    (refuse env first code message).exchange.Alike (refuse env second code message).exchange := by
  simp only [Exchange.Alike, Proxy.refuse, Exchange.respond]
  rw [show first.writer = second.writer from alike]

theorem writeHub_alike (alike : first.Alike second) (suffix : String) (streams : Bool)
    (reply : Reply) :
    (writeHub env first suffix streams reply).exchange.Alike
      (writeHub env second suffix streams reply).exchange := by
  simp only [Exchange.Alike] at alike ⊢
  simp only [writeHub, alike]
  by_cases events : isEventStream env reply = true
  · simp only [if_pos events]
    rfl
  · simp only [if_neg events]
    by_cases streamed : suffix = "/chat" ∧ streams = true ∧
        (if reply.code = 0 then 200 else reply.code) < 400
    · simp only [if_pos streamed]
      rfl
    · simp only [if_neg streamed]
      rfl

theorem forwardHub_alike (alike : first.Alike second) (hubURL : String) (call : Call)
    (path : String) (body : Bytes) (reply : Except String Reply) :
    (forwardHub env first hubURL call path body reply).exchange.Alike
      (forwardHub env second hubURL call path body reply).exchange := by
  by_cases unset : trimSpace hubURL = ""
  · simp only [forwardHub, if_pos unset]
    exact alike.refuse 502 _
  · simp only [forwardHub, if_neg unset]
    split
    · exact alike.refuse 500 _
    · cases reply with
      | error message => exact (alike.record _ _).refuse 502 message
      | ok reply => exact writeHub_alike (alike.record _ _) _ _ _

theorem forwardCodex_alike (alike : first.Alike second) (call : Call) (payload : Bytes)
    (world : CodexWorld) :
    (forwardCodex env first call payload world).exchange.Alike
      (forwardCodex env second call payload world).exchange := by
  simp only [forwardCodex]
  generalize (if payload = [] then bytesOf "\x7b\"messages\":[]\x7d" else payload) = body
  cases env.codexSession call.backend.token with
  | error message => exact alike.refuse 400 message
  | ok model =>
      simp only
      cases world.refreshError with
      | some message => exact alike.refuse 502 message
      | none =>
          simp only
          cases env.codexRequest model body with
          | error message => exact alike.refuse 502 message
          | ok request =>
              simp only
              cases world.reply with
              | error message => exact (alike.record _ _).refuse 502 message
              | ok reply =>
                  simp only [Exchange.Alike, Exchange.deliver, Exchange.record]
                  rw [show first.writer = second.writer from alike]

/-- What `writeChat` returns is alike, too. -/
structure ChatWritten.Alike (first second : ChatWritten) : Prop where
  exchange : first.exchange.Alike second.exchange
  status : first.status = second.status
  wrote : first.wrote = second.wrote
  error : first.error = second.error

theorem writeChat_alike (alike : first.Alike second) (call : Call) (reply : Except String Reply) :
    (writeChat env first call reply).Alike (writeChat env second call reply) := by
  have same : first.writer = second.writer := alike
  simp only [writeChat]
  cases env.requestError call.url with
  | some message => exact ⟨alike, rfl, rfl, rfl⟩
  | none =>
      cases reply with
      | error message => exact ⟨alike, rfl, rfl, rfl⟩
      | ok reply =>
          by_cases unauthorized : reply.code = 401
          · simp only [if_pos unauthorized]
            exact ⟨alike, rfl, rfl, rfl⟩
          · simp only [if_neg unauthorized, Exchange.record, same]
            by_cases events : isEventStream env reply = true
            · simp only [if_pos events]
              exact ⟨rfl, rfl, rfl, rfl⟩
            · simp only [if_neg events]
              exact ⟨rfl, rfl, rfl, rfl⟩

theorem grokWrite_alike (alike : first.Alike second) (call : Call) (world : GrokWorld) :
    (grokWrite env first call world).Alike (grokWrite env second call world) := by
  have begun : (writeChat env first call world.first).Alike
      (writeChat env second call world.first) := writeChat_alike alike call world.first
  simp only [grokWrite, begun.status, begun.wrote, begun.error]
  split
  · exact begun
  · exact writeChat_alike begun.exchange call world.second

theorem forwardGrok_alike (alike : first.Alike second) (call : Call) (payload : Bytes)
    (world : GrokWorld) :
    (forwardGrok env first call payload world).exchange.Alike
      (forwardGrok env second call payload world).exchange := by
  simp only [forwardGrok]
  generalize (if call.backend.baseURL = "" then grokDefaultBase else call.backend.baseURL) = base
  cases env.grokSession call.backend.token with
  | error message => exact alike.refuse 400 message
  | ok model =>
      simp only
      cases env.grokRequest model payload with
      | error message => exact alike.refuse 502 message
      | ok request =>
          have written : (grokWrite env first _ world).Alike (grokWrite env second _ world) :=
            grokWrite_alike alike { call with
              url := trimRight base '/' ++ "/chat/completions"
              payload := some request } world
          simp only [written.error, written.status]
          split
          · exact written.exchange.refuse 502 _
          · split
            · exact written.exchange.refuse 401 _
            · exact written.exchange

end Delegating

section Hops

variable {env : Env} {request : Request} {world : HopWorld}

/-- Two hops that come to the same stage with one writer. -/
structure Progress.Alike (first second : Progress) : Prop where
  stage : first.stage = second.stage
  writer : first.exchange.Alike second.exchange

/-- Two hops that end alike; those that go on also report alike. -/
inductive HopEnd.Alike : HopEnd → HopEnd → Prop
  | next {first second : Progress} (alike : first.Alike second)
      (status : first.lastStatus = second.lastStatus)
      (message : first.lastMessage = second.lastMessage) : HopEnd.Alike (.next first) (.next second)
  | done {first second : Returned} (writer : first.exchange.Alike second.exchange) :
      HopEnd.Alike (.done first) (.done second)

variable {first second : Progress}

theorem Progress.Alike.cases (alike : first.Alike second) :
    first.model = second.model ∧ first.tried = second.tried ∧ first.guarded = second.guarded ∧
      first.exchange.writer = second.exchange.writer := by
  have stage := alike.stage
  simp only [Progress.stage, Stage.mk.injEq] at stage
  exact ⟨stage.1, stage.2.1, stage.2.2, alike.writer⟩

theorem fallBack_alike (alike : first.Alike second) (snapshot : Snapshot)
    (backend provider message : String) :
    (fallBack env snapshot first backend provider message).Alike
      (fallBack env snapshot second backend provider message) := by
  rcases alike.cases with ⟨model, tried, guarded, writer⟩
  simp only [fallBack, model, tried]
  split
  · exact .next ⟨by simp [Progress.stage, guarded], writer⟩ rfl rfl
  · refine .done ?_
    simp only [Exchange.Alike, Exchange.respond, writer]

theorem onReply_alike (alike : first.Alike second) (hop : ℕ) (snapshot : Snapshot)
    (guarded : Guarded) (backend : Backend) (provider : String) (reply : Reply) :
    (onReply env request hop snapshot first guarded backend provider reply).Alike
      (onReply env request hop snapshot second guarded backend provider reply) := by
  rcases alike.cases with ⟨model, tried, sameGuarded, writer⟩
  by_cases large : 400 ≤ reply.code
  · simp only [onReply, if_pos large, model, tried]
    split
    · exact .next ⟨by simp [Progress.stage, sameGuarded], writer⟩ rfl rfl
    · refine .done ?_
      simp only [Exchange.Alike, Exchange.respond, Exchange.record, writer]
  · simp only [onReply, if_neg large, model, writer]
    split
    · exact .done rfl
    · exact .done rfl

theorem callUpstream_alike (alike : first.Alike second) (hop : ℕ) (guarded : Guarded) (call : Call)
    (payload : Bytes) :
    (callUpstream env request world hop first guarded call payload).Alike
      (callUpstream env request world hop second guarded call payload) := by
  rcases alike.cases with ⟨model, tried, sameGuarded, writer⟩
  simp only [callUpstream, model]
  split
  · refine .done ?_
    simp only [Exchange.Alike, Exchange.respond, Exchange.record, writer]
  · cases world.reply with
    | error message =>
        apply fallBack_alike
        exact ⟨by simp [Progress.stage, tried, sameGuarded], writer⟩
    | ok reply =>
        apply onReply_alike
        exact ⟨by simp [Progress.stage, tried, sameGuarded], writer⟩

theorem delegated_alike {one other : Outcome} (alike : one.exchange.Alike other.exchange)
    (backend : Backend) (provider : String) :
    (delegated backend provider one).Alike (delegated backend provider other) :=
  .done (alike.record _ _)

theorem refusedByGuard_alike {one other : Exchange} (alike : one.Alike other) (block : Block) :
    (refusedByGuard env one block).exchange.Alike (refusedByGuard env other block).exchange := by
  simp only [Exchange.Alike, refusedByGuard, Exchange.respond]
  rw [show one.writer = other.writer from alike]

theorem sendHop_alike (alike : first.Alike second) (hop : ℕ) (guarded : Guarded)
    (backend : Backend) (upstream : String) :
    (sendHop env request world hop first guarded backend upstream).Alike
      (sendHop env request world hop second guarded backend upstream) := by
  rcases alike.cases with ⟨model, tried, sameGuarded, writer⟩
  have opened : (first.exchange.record (.inc backend.id)).Alike
      (second.exchange.record (.inc backend.id)) := writer
  simp only [sendHop, model]
  split
  · exact delegated_alike (forwardHub_alike opened _ _ _ _ _) _ _
  · split
    · exact delegated_alike (forwardCodex_alike opened _ _ _) _ _
    · split
      · exact delegated_alike (forwardGrok_alike opened _ _ _) _ _
      · apply callUpstream_alike
        exact ⟨by simp [Progress.stage, tried, sameGuarded], writer⟩

/-- A hop that begins ends like any other that begins at its stage. -/
theorem forwardHop_alike {hop : ℕ} (alike : first.Alike second)
    (begins : first.stage.begins request hop = true) :
    (forwardHop env request world hop first).Alike (forwardHop env request world hop second) := by
  rcases alike.cases with ⟨model, tried, sameGuarded, writer⟩
  rcases begins_iff.mp begins with ⟨named, fresh, allowed⟩
  have known : ¬(first.model = "" ∨ first.model ∈ first.tried) := not_or.mpr ⟨named, fresh⟩
  have refused : ¬(0 < hop ∧ request.key.allows first.model = false) :=
    fun denied => absurd (allowed denied.1) (by simpa using denied.2)
  simp only [model, tried] at known refused
  simp only [forwardHop, model, tried, if_neg known, if_neg refused]
  cases pick world.snapshot second.model with
  | error message =>
      apply fallBack_alike
      exact ⟨by simp [Progress.stage, sameGuarded], writer⟩
  | ok found =>
      rcases found with ⟨backend, upstream⟩
      have sameGuard : guardOnce env request world.snapshot { first with
          tried := second.model :: second.tried
          exchange := first.exchange.record (.hop second.model) } upstream =
          guardOnce env request world.snapshot { second with
            tried := second.model :: second.tried
            exchange := second.exchange.record (.hop second.model) } upstream := by
        simp only [guardOnce, sameGuarded, model]
      simp only [model] at sameGuard
      simp only [sameGuard]
      split
      · exact .done (refusedByGuard_alike writer _)
      · apply sendHop_alike
        exact ⟨by simp [Progress.stage], writer⟩

theorem afterHops_alike (writer : first.exchange.Alike second.exchange)
    (status : first.lastStatus = second.lastStatus)
    (message : first.lastMessage = second.lastMessage) :
    (afterHops env request first).exchange.Alike (afterHops env request second).exchange := by
  simp only [Exchange.Alike, afterHops, Exchange.respond, status, message]
  rw [show first.exchange.writer = second.exchange.writer from writer]

end Hops

section Runs

variable {env : Env} {request : Request} {world other : HopWorld} {worlds others : ℕ → HopWorld}
  {stage next : Stage} {hop : ℕ} {header : Header}

/-- Another failure leads to the same hop. -/
theorem advance_of_failure (advance : stage.advance env request world = some next)
    (sameSnapshot : other.snapshot = world.snapshot)
    (failure : fails env other.reply = true ∨ other.reply = world.reply) :
    stage.advance env request other = some next := by
  have sameFallback : stage.fallback other = stage.fallback world := by
    simp only [Stage.fallback, sameSnapshot]
  have sameSending : stage.sending env request other = stage.sending env request world := by
    simp only [Stage.sending, Stage.guard, sameSnapshot]
  cases picked : pick world.snapshot stage.model with
  | error message =>
      rw [advance_of_unpicked picked] at advance
      rw [← sameSnapshot] at picked
      rw [advance_of_unpicked picked, sameFallback, advance]
  | ok found =>
      cases sends : stage.sending env request world with
      | none => simp [advance_of_blocked picked sends] at advance
      | some sending =>
          rw [advance_of_sending sends, Option.ite_none_right_eq_some] at advance
          rcases advance with ⟨unanswered, advance⟩
          have stillUnanswered : Proxy.unanswered env request other sending = true := by
            simp only [Proxy.unanswered, Bool.and_eq_true] at unanswered ⊢
            refine ⟨unanswered.1, ?_⟩
            rcases failure with fails | same
            · exact fails
            · rw [same]
              exact unanswered.2
          rw [advance_of_sending (sameSending.trans sends), if_pos stillUnanswered, sameFallback,
            advance]

/-- Another run with the same last hop, in which the hops before failed in other ways. -/
structure OtherFailures (env : Env) (worlds others : ℕ → HopWorld) (last : ℕ) : Prop where
  same : others last = worlds last
  earlier : ∀ hop < last, (others hop).snapshot = (worlds hop).snapshot ∧
    (fails env (others hop).reply = true ∨ (others hop).reply = (worlds hop).reply)

theorem OtherFailures.stageAt {last : ℕ} (failures : OtherFailures env worlds others last)
    (comes : stageAt env request worlds hop = some stage) (before : hop ≤ last) :
    stageAt env request others hop = some stage := by
  induction hop generalizing stage with
  | zero => exact comes
  | succ hop ih =>
      cases previous : Proxy.stageAt env request worlds hop with
      | none => simp [Proxy.stageAt, previous] at comes
      | some start =>
          rw [stageAt_succ previous, Option.ite_none_right_eq_some] at comes
          rcases failures.earlier hop before with ⟨sameSnapshot, failure⟩
          rw [stageAt_succ (ih previous (by omega)), if_pos comes.1]
          exact advance_of_failure comes.2 sameSnapshot failure

/-- Two loops that stop before a hop. -/
theorem stopping_alike {left : ℕ} {first second : Progress} (alike : first.Alike second)
    (status : first.lastStatus = second.lastStatus)
    (message : first.lastMessage = second.lastMessage)
    (stays : first.stage.begins request hop = false)
    (staysToo : second.stage.begins request hop = false) :
    (forwardFrom env request worlds hop (left + 1) first).exchange.Alike
      (forwardFrom env request others hop (left + 1) second).exchange := by
  have firstLeaves : ∃ last, forwardHop env request (worlds hop) hop first = .leave last ∧
      last.exchange = first.exchange ∧ last.lastStatus = first.lastStatus ∧
      last.lastMessage = first.lastMessage := forwardHop_leaves stays
  have secondLeaves : ∃ last, forwardHop env request (others hop) hop second = .leave last ∧
      last.exchange = second.exchange ∧ last.lastStatus = second.lastStatus ∧
      last.lastMessage = second.lastMessage := forwardHop_leaves staysToo
  rcases firstLeaves with ⟨one, leaves, exchange, sameStatus, sameMessage⟩
  rcases secondLeaves with ⟨two, leavesToo, exchangeToo, sameStatusToo, sameMessageToo⟩
  simp only [forwardFrom, leaves, leavesToo]
  apply afterHops_alike
  · rw [exchange, exchangeToo]
    exact alike.writer
  · rw [sameStatus, sameStatusToo, status]
  · rw [sameMessage, sameMessageToo, message]

/-- The last hop of a run decides what the client gets. -/
theorem forwardFrom_alike {left : ℕ} {first second : Progress} (counted : hop + (left + 1) = 4)
    (alike : first.Alike second) (unsent : first.exchange.writer.sent = [])
    (begun : begunAt env request worlds hop = some first.stage)
    (ends : begunAt env request worlds (hop + 1) = none) (last : others hop = worlds hop) :
    (forwardFrom env request others hop (left + 1) second).exchange.Alike
      (forwardFrom env request worlds hop (left + 1) first).exchange := by
  rcases begunAt_eq_some.mp begun with ⟨_, comes, begins⟩
  have hops : (forwardHop env request (worlds hop) hop first).Alike
      (forwardHop env request (worlds hop) hop second) := forwardHop_alike alike begins
  have hopEnds : Ends env request (worlds hop) first.stage
      (first.exchange.record (.hop first.model)) (forwardHop env request (worlds hop) hop first) :=
    forwardHop_ends begins unsent
  simp only [forwardFrom, last]
  generalize forwardHop env request (worlds hop) hop first = one at hops hopEnds
  generalize forwardHop env request (worlds hop) hop second = two at hops
  cases hops with
  | done writer => exact writer.symm
  | @next one two alike status message =>
      cases hopEnds with
      | next _ events visit advance exchange unblocked =>
          have following : stageAt env request worlds (hop + 1) = some one.stage := by
            rw [stageAt_succ comes, if_pos begins, advance]
          rcases left with _ | left
          · exact (afterHops_alike alike.writer status message).symm
          · have stays : one.stage.begins request (hop + 1) = false := by
              by_contra again
              have begins := begunAt_of_stage (by omega) following (by simpa using again)
              simp [begins] at ends
            have staysToo : two.stage.begins request (hop + 1) = false := by
              rw [← alike.stage]
              exact stays
            exact (stopping_alike alike status message stays staysToo).symm

/-- The response of a run is the one of its last hop: it stays the same when the hops before fail
in other ways. -/
theorem forward_alike {last : ℕ} (begun : begunAt env request worlds last = some stage)
    (ends : begunAt env request worlds (last + 1) = none)
    (failures : OtherFailures env worlds others last) :
    (forward env request others header).exchange.writer =
      (forward env request worlds header).exchange.writer := by
  rcases begunAt_eq_some.mp begun with ⟨small, comes, begins⟩
  have comesToo := failures.stageAt comes le_rfl
  have arrives : ∃ progress : Progress, progress.stage = stage ∧
      progress.exchange.writer = ⟨header, []⟩ ∧ forward env request worlds header =
        forwardFrom env request worlds last (4 - last) progress :=
    forward_arrives (by omega) comes
  have arrivesToo : ∃ progress : Progress, progress.stage = stage ∧
      progress.exchange.writer = ⟨header, []⟩ ∧ forward env request others header =
        forwardFrom env request others last (4 - last) progress :=
    forward_arrives (by omega) comesToo
  rcases arrives with ⟨first, firstStage, firstWriter, firstRun⟩
  rcases arrivesToo with ⟨second, secondStage, secondWriter, secondRun⟩
  have left : 4 - last = (3 - last) + 1 := by omega
  rw [firstRun, secondRun, left]
  apply forwardFrom_alike
  · omega
  · exact ⟨firstStage.trans secondStage.symm, firstWriter.trans secondWriter.symm⟩
  · rw [firstWriter]
  · rw [firstStage]
    exact begun
  · exact ends
  · exact failures.same

end Runs

end MikroLLM.Proxy
