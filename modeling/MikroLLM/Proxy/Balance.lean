import MikroLLM.Proxy.Alike

/-!
# One response and no open connection

A run of `Forward` tries at most four aliases, none of them twice, closes every
connection that it counts, and gives the client one response, in which there is
nothing of a hop that failed or of a reply that a policy kept back.
-/

namespace MikroLLM.Proxy

open Domain Go Guard

/-- The aliases that are tried. -/
def hopsOf (events : List Event) : List String :=
  events.filterMap fun event =>
    match event with
    | .hop model => some model
    | _ => none

/-- How often `health.Inc` is called for a backend. -/
def incs (id : BackendId) (events : List Event) : ℕ :=
  events.countP fun event =>
    match event with
    | .inc other => other = id
    | _ => false

/-- How often `health.Dec` is called for a backend. -/
def decs (id : BackendId) (events : List Event) : ℕ :=
  events.countP fun event =>
    match event with
    | .dec other => other = id
    | _ => false

section Counting

variable {id : BackendId} {model : String} {first second : List Event}

@[simp]
theorem hopsOf_append : hopsOf (first ++ second) = hopsOf first ++ hopsOf second := by
  simp [hopsOf]

@[simp]
theorem hopsOf_hop : hopsOf (.hop model :: second) = model :: hopsOf second := rfl

@[simp]
theorem incs_append : incs id (first ++ second) = incs id first + incs id second := by
  simp [incs]

@[simp]
theorem decs_append : decs id (first ++ second) = decs id first + decs id second := by
  simp [decs]

theorem incs_inc (other : BackendId) :
    incs id (.inc other :: second) = incs id second + if other = id then 1 else 0 := by
  simp [incs, List.countP_cons]

theorem incs_dec (other : BackendId) : incs id (.dec other :: second) = incs id second := by
  simp [incs]

theorem incs_hop : incs id (.hop model :: second) = incs id second := by
  simp [incs]

theorem decs_inc (other : BackendId) : decs id (.inc other :: second) = decs id second := by
  simp [decs]

theorem decs_dec (other : BackendId) :
    decs id (.dec other :: second) = decs id second + if other = id then 1 else 0 := by
  simp [decs, List.countP_cons]

theorem decs_hop : decs id (.hop model :: second) = decs id second := by
  simp [decs]

theorem hopsOf_calls (calls : List Call) : hopsOf (calls.map Event.call) = [] := by
  simp [hopsOf]

theorem incs_calls (id : BackendId) (calls : List Call) : incs id (calls.map Event.call) = 0 := by
  simp [incs]

theorem decs_calls (id : BackendId) (calls : List Call) : decs id (calls.map Event.call) = 0 := by
  simp [decs]

end Counting

section Hops

variable {env : Env} {request : Request} {world : HopWorld} {stage : Stage} {events : List Event}

/-- A hop tries no other alias and closes what it opens. -/
theorem Visit.balanced (visit : Visit env request world stage events) :
    hopsOf events = [] ∧ ∀ id, incs id events = decs id events := by
  cases visit with
  | unsent nothing => exact ⟨rfl, fun id => rfl⟩
  | sent sending calls tail sends made ofHop blocked =>
      have quiet : hopsOf tail = [] ∧ ∀ id, incs id tail = 0 ∧ decs id tail = 0 := by
        rcases blocked with rfl | ⟨block, rfl⟩
        · exact ⟨rfl, fun id => ⟨rfl, rfl⟩⟩
        · exact ⟨rfl, fun id => ⟨rfl, rfl⟩⟩
      refine ⟨?_, fun id => ?_⟩
      · have opened : ∀ id rest, hopsOf (.inc id :: rest) = hopsOf rest := fun _ _ => rfl
        have closed : ∀ id rest, hopsOf (.dec id :: rest) = hopsOf rest := fun _ _ => rfl
        rw [opened, hopsOf_append, hopsOf_calls, closed, quiet.1, List.nil_append]
      · have opened := incs_calls id calls
        have closed := decs_calls id calls
        rcases quiet.2 id with ⟨openedLast, closedLast⟩
        rw [incs_inc, incs_append, incs_dec, decs_inc, decs_append, decs_dec]
        omega

end Hops

section Runs

variable {env : Env} {request : Request} {worlds : ℕ → HopWorld} {hop : ℕ} {stage : Stage}
  {events : List Event}

/-- A run of the rest of the hops closes what it opens. -/
theorem Course.balanced (course : Course env request worlds hop events) (id : BackendId) :
    incs id events = decs id events := by
  induction course with
  | ended ends => rfl
  | visit stage begun visit rest ih =>
      have now := visit.balanced.2 id
      rw [incs_hop, decs_hop, incs_append, decs_append]
      omega

theorem Visit.hopsOf_later (visit : Visit env request (worlds hop) stage events) (later : List Event) :
    hopsOf (.hop stage.model :: (events ++ later)) = stage.model :: hopsOf later := by
  rw [hopsOf_hop, hopsOf_append, visit.balanced.1, List.nil_append]

/-- The run begins as many hops as it tries aliases. -/
theorem Course.begun_iff (course : Course env request worlds hop events) (more : ℕ) :
    (begunAt env request worlds (hop + more)).isSome ↔ more < (hopsOf events).length := by
  induction course generalizing more with
  | ended ends =>
      rw [begunAt_none ends (Nat.le_add_right _ more)]
      simp [Proxy.hopsOf]
  | visit stage begun visit rest ih =>
      rw [visit.hopsOf_later, List.length_cons]
      rcases more with _ | more
      · simp [begun]
      · rw [show ∀ hop, hop + (more + 1) = hop + 1 + more by omega, ih more]
        omega

/-- At most four hops are left at the first. -/
theorem Course.length_le (course : Course env request worlds 0 events) :
    (hopsOf events).length ≤ 4 := by
  have fourth := course.begun_iff 4
  rw [begunAt_four (by omega)] at fourth
  by_contra large
  have fifth := fourth.mpr (by omega)
  simp at fifth

/-- No alias is tried again. -/
theorem Course.fresh (course : Course env request worlds hop events)
    (comes : stageAt env request worlds hop = some stage) :
    (hopsOf events).Nodup ∧ ∀ model ∈ hopsOf events, model ∉ stage.tried := by
  induction course generalizing stage with
  | ended ends => simp [Proxy.hopsOf]
  | @visit hop events later now begun visit rest ih =>
      rcases begunAt_eq_some.mp begun with ⟨_, comesNow, begins⟩
      rw [comes, Option.some.injEq] at comesNow
      subst comesNow
      have untried : stage.model ∉ stage.tried := by
        simp only [Stage.begins, Bool.and_eq_true, Bool.not_eq_true', decide_eq_false_iff_not]
          at begins
        exact begins.1.2
      rw [visit.hopsOf_later, List.nodup_cons]
      cases comesNext : stageAt env request worlds (hop + 1) with
      | none =>
          have ends : hopsOf later = [] := by
            have none := rest.begun_iff 0
            rw [begunAt_after comesNext (Nat.lt_succ_self hop)] at none
            simpa using none
          simp [ends, untried]
      | some next =>
          have advance : stage.advance env request (worlds hop) = some next := by
            rw [stageAt_succ comes, if_pos begins] at comesNext
            exact comesNext
          have tried := advance_tried advance
          rcases ih comesNext with ⟨nodup, fresh⟩
          simp only [tried, List.mem_cons, not_or] at fresh
          refine ⟨⟨fun again => (fresh _ again).1 rfl, nodup⟩, ?_⟩
          rintro model listed
          rcases List.mem_cons.mp listed with rfl | later
          · exact untried
          · exact (fresh model later).2

end Runs

/-- What a run does: at most four hops with different aliases, as many connections closed as
opened, and one response. The response is that of the last hop, whatever the hops before it
failed with, and only the error of a policy when the policy kept a reply back. -/
structure ForwardsOnce (env : Env) (request : Request) (worlds : ℕ → HopWorld) (header : Header)
    (exchange : Exchange) : Prop where
  hops_le : (hopsOf exchange.events).length ≤ 4
  hops_nodup : (hopsOf exchange.events).Nodup
  balanced : ∀ id, incs id exchange.events = decs id exchange.events
  answered : ∃ code header bytes, Answered exchange.writer code header bytes
  lastHop : ∀ last others, (hopsOf exchange.events).length = last + 1 →
    OtherFailures env worlds others last →
      (forward env request others header).exchange.writer = exchange.writer
  blocked : BlockedAnswer env request ⟨header, []⟩ exchange.events exchange

/-- `Forward` gives one response and leaves no connection open, for every fallback graph and every
outcome of its hops. -/
theorem forward_once (env : Env) (request : Request) (worlds : ℕ → HopWorld) (header : Header) :
    ForwardsOnce env request worlds header (forward env request worlds header).exchange := by
  rcases forward_course env request worlds header with ⟨course, blocked, finishes⟩
  refine ⟨course.length_le, (course.fresh rfl).1, course.balanced, finishes.answered, ?_, blocked⟩
  intro last others hops failures
  have begun := (course.begun_iff last).mpr (by omega)
  have ends := course.begun_iff (last + 1)
  simp only [Nat.zero_add] at begun ends
  rcases Option.isSome_iff_exists.mp begun with ⟨stage, begun⟩
  apply forward_alike begun ?_ failures
  rw [← Option.not_isSome_iff_eq_none, ends]
  omega

end MikroLLM.Proxy
