import MikroLLM.Library.Runs
import MikroLLM.Proxy.Balance
import MikroLLM.Proxy.RoundRobin

/-!
# Open connections

The health checker counts the connections to each backend. All requests share
the counters, each counts up before it calls a backend and down after it, and
`choose` reads them one after the other while other requests go on. In every
order of these steps a counter is the number of requests that have a connection
to the backend, and `least_conn` compares these numbers.
-/

namespace MikroLLM.Proxy

open Domain Go Library Store

section Counters

variable (conns : BackendId → ℤ) (id : BackendId)

/-- `Checker.Inc`. -/
def incConn : BackendId → ℤ := fun other => if other = id then conns other + 1 else conns other

/-- `Checker.Dec`, which does not go below zero. -/
def decConn : BackendId → ℤ :=
  fun other => if other = id ∧ 0 < conns other then conns other - 1 else conns other

end Counters

/-- What `choose` read of a counter. `serving` is a history: how many requests had a connection to
the backend at that moment. -/
structure Reading where
  id : BackendId
  count : ℤ
  serving : ℕ

/-- A request that counts connections: one that is forwarded, or one that `serveEmbeddings` or
`SystemOne` sends to the backend of its model. -/
inductive Work
  | chat (request : Request) (worlds : ℕ → HopWorld) (header : Header)
  | direct (snapshot : Snapshot) (model : String)

/-- `serveEmbeddings` and `SystemOne`, from `pick` on. Their call itself is left out. -/
def directEvents (snapshot : Snapshot) (model : String) : List Event :=
  .hop model ::
    match pick snapshot model with
    | .error _ => []
    | .ok (backend, _) =>
        if backend.kind = .hub then [] else [.inc backend.id, .dec backend.id]

/-- What the request does, in order. -/
def Work.events (env : Env) : Work → List Event
  | .chat request worlds header => (forward env request worlds header).exchange.events
  | .direct snapshot model => directEvents snapshot model

/-- What `pick` reads in a hop. -/
def Work.snapshot : Work → ℕ → Snapshot
  | .chat _ worlds _, hop => (worlds hop).snapshot
  | .direct snapshot _, _ => snapshot

/-- The backends whose counters `choose` compares. -/
def compared (snapshot : Snapshot) (name : String) : List Backend :=
  match candidatesOf snapshot name with
  | .settled _ => []
  | .among first rest policy _ =>
      if policy = "round_robin" ∨ policy = "failover" then [] else first :: rest

/-- A request on its way: what it did, what it still does, and what it read in the present hop. -/
structure Underway where
  work : Work
  past : List Event
  left : List Event
  readings : List Reading

/-- The request has a connection to the backend. -/
def Underway.serves (task : Underway) (id : BackendId) : Bool :=
  decs id task.past < incs id task.past

/-- The hop that the request is in. -/
def Underway.hop (task : Underway) : ℕ := (hopsOf task.past).length - 1

/-- The name for which the request is choosing a backend. -/
def Underway.choosing (task : Underway) : Option String :=
  match task.past.getLast? with
  | some (.hop model) => some model
  | _ => none

/-- The snapshot of the present hop. -/
def Underway.snapshot (task : Underway) : Snapshot := task.work.snapshot task.hop

/-- The request chose by what it read: all counters that are compared, and no other numbers. -/
def Underway.hasChosen (task : Underway) : Bool :=
  match task.choosing with
  | none => true
  | some model =>
      (task.readings.all fun reading => task.snapshot.conns reading.id = reading.count) &&
        (compared task.snapshot model).all fun backend =>
          backend.id ∈ task.readings.map (·.id)

/-- The counters of the checker and the requests that came in. -/
structure Traffic where
  conns : BackendId → ℤ
  tasks : List Underway

/-- How many requests have a connection to the backend. -/
def Traffic.serving (state : Traffic) (id : BackendId) : ℕ :=
  state.tasks.countP (·.serves id)

/-- The gateway before its first request. -/
def idle : Traffic := ⟨fun _ => 0, []⟩

/-- What an event does to the counters. -/
def countEvent (conns : BackendId → ℤ) : Event → BackendId → ℤ
  | .inc id => incConn conns id
  | .dec id => decConn conns id
  | _ => conns

/-- The request goes on by one event. A new hop begins to read the counters again. -/
def Underway.advance (task : Underway) (event : Event) (rest : List Event) : Underway where
  work := task.work
  past := task.past ++ [event]
  left := rest
  readings :=
    match event with
    | .hop _ => []
    | _ => task.readings

def Underway.read (task : Underway) (reading : Reading) : Underway :=
  { task with readings := task.readings ++ [reading] }

/-- What happens at the gateway: a request comes in, a request that is choosing reads a counter, or
a request does what it does next. -/
inductive Move
  | arrive (work : Work)
  | read (index : ℕ) (id : BackendId)
  | act (index : ℕ)

variable (env : Env) in
/-- One step. -/
def Traffic.step (state : Traffic) : Move → Option Traffic
  | .arrive work => some { state with tasks := state.tasks ++ [⟨work, [], work.events env, []⟩] }
  | .read index id =>
      state.tasks[index]?.bind fun task =>
        if task.choosing.isSome then
          some { state with
            tasks := state.tasks.set index (task.read ⟨id, state.conns id, state.serving id⟩) }
        else none
  | .act index =>
      state.tasks[index]?.bind fun task =>
        match task.left with
        | [] => none
        | event :: rest =>
            if task.hasChosen then
              some ⟨countEvent state.conns event, state.tasks.set index (task.advance event rest)⟩
            else none

/-- The events that are left close the connection that is open, open none before that, and leave
none open. -/
def Closes : Option BackendId → List Event → Prop
  | connection, [] => connection = none
  | connection, .inc id :: rest => connection = none ∧ Closes (some id) rest
  | connection, .dec id :: rest => connection = some id ∧ Closes none rest
  | connection, .hop _ :: rest => Closes connection rest
  | connection, .call _ :: rest => Closes connection rest
  | connection, .blocked _ :: rest => Closes connection rest

section Events

variable {env : Env} {request : Request} {worlds : ℕ → HopWorld} {world : HopWorld}
  {stage : Stage} {hop : ℕ} {events : List Event} {id : BackendId} {connection : Option BackendId}

theorem closes_calls (calls : List Call) (rest : List Event) :
    Closes connection (calls.map Event.call ++ rest) ↔ Closes connection rest := by
  induction calls with
  | nil => rfl
  | cons call calls ih => exact ih

theorem Visit.closes (visit : Visit env request world stage events) {later : List Event}
    (rest : Closes none later) : Closes none (events ++ later) := by
  cases visit with
  | unsent nothing => exact rest
  | sent sending calls tail sends made ofHop blocked =>
      have tailCloses : Closes none (tail ++ later) := by
        rcases blocked with rfl | ⟨block, rfl⟩
        · exact rest
        · exact rest
      refine ⟨rfl, ?_⟩
      rw [List.append_eq, List.append_assoc, closes_calls]
      exact ⟨rfl, tailCloses⟩

theorem Course.closes (course : Course env request worlds hop events) : Closes none events := by
  induction course with
  | ended ends => rfl
  | visit stage begun visit rest ih => exact visit.closes ih

theorem Work.closes (work : Work) : Closes none (work.events env) := by
  cases work with
  | chat request worlds header => exact (forward_course env request worlds header).1.closes
  | direct snapshot model =>
      simp only [Work.events, directEvents, Closes]
      split
      · rfl
      · split
        · rfl
        · exact ⟨rfl, rfl, rfl⟩

/-- What lies behind events in which there is no such event. -/
theorem split_append {middle later before after : List Event} {event : Event}
    (outside : event ∉ middle) (parted : middle ++ later = before ++ event :: after) :
    ∃ more, before = middle ++ more ∧ later = more ++ event :: after := by
  rcases List.append_eq_append_iff.mp parted with ⟨more, isBefore, isLater⟩ | ⟨more, isMiddle, isRest⟩
  · exact ⟨more, isBefore, isLater⟩
  · cases more with
    | nil => exact ⟨[], by simpa using isMiddle.symm, by simpa using isRest.symm⟩
    | cons first more =>
        rw [List.cons_append, List.cons.injEq] at isRest
        apply absurd _ outside
        rw [isMiddle, isRest.1]
        simp

/-- A connection is counted right after its hop began, and to the backend that was picked. -/
theorem Course.picked (course : Course env request worlds hop events)
    {before after : List Event} (parted : events = before ++ .inc id :: after) :
    ∃ earlier model backend upstream, before = earlier ++ [.hop model] ∧
      pick (worlds (hop + (hopsOf earlier).length)).snapshot model = .ok (backend, upstream) ∧
        backend.id = id := by
  induction course generalizing before with
  | ended ends => simp at parted
  | @visit hop events later stage begun visit rest ih =>
      cases before with
      | nil => simp at parted
      | cons first before =>
          rw [List.cons_append, List.cons.injEq] at parted
          rcases parted with ⟨rfl, parted⟩
          have onward : ∀ more, before = events ++ more → later = more ++ .inc id :: after →
              ∃ earlier model backend upstream,
                .hop stage.model :: before = earlier ++ [.hop model] ∧
                  pick (worlds (hop + (hopsOf earlier).length)).snapshot model =
                    .ok (backend, upstream) ∧ backend.id = id := by
            rintro more rfl isLater
            rcases ih isLater with ⟨earlier, model, backend, upstream, rfl, picked, same⟩
            refine ⟨.hop stage.model :: (events ++ earlier), model, backend, upstream, by simp, ?_,
              same⟩
            rw [visit.hopsOf_later, List.length_cons]
            rwa [Nat.add_assoc, Nat.add_comm 1] at picked
          cases visit with
          | unsent nothing => exact onward before rfl parted
          | sent sending calls tail sends made ofHop blocked =>
              cases before with
              | nil =>
                  rw [List.cons_append, List.nil_append, List.cons.injEq, Event.inc.injEq] at parted
                  exact ⟨[], stage.model, sending.backend, sending.upstream, rfl,
                    (picked_of_sending sends).1, parted.1⟩
              | cons second before =>
                  rw [List.cons_append, List.cons_append, List.cons.injEq] at parted
                  rcases parted with ⟨rfl, parted⟩
                  have outside : Event.inc id ∉
                      calls.map Event.call ++ .dec sending.backend.id :: tail := by
                    rcases blocked with rfl | ⟨block, rfl⟩
                    · simp
                    · simp
                  rcases split_append outside parted with ⟨more, rfl, isLater⟩
                  exact onward more rfl isLater

theorem Work.picked (work : Work) {before after : List Event}
    (parted : work.events env = before ++ .inc id :: after) :
    ∃ earlier model backend upstream, before = earlier ++ [.hop model] ∧
      pick (work.snapshot (hopsOf earlier).length) model = .ok (backend, upstream) ∧
        backend.id = id := by
  cases work with
  | chat request worlds header =>
      have picked := (forward_course env request worlds header).1.picked parted
      simp only [Nat.zero_add] at picked
      exact picked
  | direct snapshot model =>
      simp only [Work.events, directEvents] at parted
      cases before with
      | nil => simp at parted
      | cons first before =>
          rw [List.cons_append, List.cons.injEq] at parted
          rcases parted with ⟨rfl, parted⟩
          split at parted
          · simp at parted
          · rename_i backend upstream picked
            split at parted
            · simp at parted
            · cases before with
              | nil =>
                  rw [List.nil_append, List.cons.injEq, Event.inc.injEq] at parted
                  exact ⟨[], model, backend, upstream, rfl, picked, parted.1⟩
              | cons second before =>
                  rw [List.cons_append, List.cons.injEq] at parted
                  have short := congrArg List.length parted.2
                  cases before with
                  | nil => simp at parted
                  | cons third before =>
                      simp at short

end Events

section Least

variable {snapshot : Snapshot} {model upstream : String} {backend other : Backend}

theorem leastConn_le (conns : BackendId → ℤ) (best : Backend) (rest : List Backend)
    (among : other ∈ best :: rest) : conns (leastConn conns best rest).id ≤ conns other.id := by
  induction rest generalizing best other with
  | nil =>
      rw [List.mem_singleton] at among
      subst among
      exact le_refl _
  | cons next rest ih =>
      let kept := if conns next.id < conns best.id then next else best
      have head : conns (leastConn conns kept rest).id ≤ conns kept.id := ih kept List.mem_cons_self
      have keptBest : conns kept.id ≤ conns best.id := by
        simp only [kept]
        split
        · omega
        · exact le_refl _
      have keptNext : conns kept.id ≤ conns next.id := by
        simp only [kept]
        split
        · exact le_refl _
        · omega
      change conns (leastConn conns kept rest).id ≤ _
      rcases List.mem_cons.mp among with rfl | among
      · omega
      · rcases List.mem_cons.mp among with rfl | among
        · omega
        · exact ih kept (List.mem_cons_of_mem _ among)

/-- Among backends that are compared, `pick` takes one with a least counter. -/
theorem pick_compared (picked : pick snapshot model = .ok (backend, upstream))
    (among : other ∈ compared snapshot model) :
    backend ∈ compared snapshot model ∧ snapshot.conns backend.id ≤ snapshot.conns other.id := by
  rw [pick_eq_candidatesOf] at picked
  unfold compared at among ⊢
  split at among
  · simp at among
  · rename_i first rest policy _ candidates
    split at among
    · simp at among
    · rename_i byLeast
      rw [candidates] at picked
      simp only [Except.ok.injEq, Prod.mk.injEq] at picked
      have chosen : backend = leastConn snapshot.conns first rest := by
        rw [← picked.1, choose, if_neg (not_or.mp byLeast).1, if_neg (not_or.mp byLeast).2]
      simp only [if_neg byLeast]
      rw [chosen]
      exact ⟨leastConn_mem _ _ _, leastConn_le _ _ _ among⟩

end Least

/-- What holds of a request on its way. `connection` is the one that it has open. -/
structure Underway.Sound (env : Env) (task : Underway) (connection : Option BackendId) : Prop where
  whole : task.past ++ task.left = task.work.events env
  closes : Closes connection task.left
  balance : ∀ id, incs id task.past = decs id task.past + if connection = some id then 1 else 0
  readings : ∀ reading ∈ task.readings, reading.count = reading.serving

/-- What holds at every moment: a counter is the number of requests that have a connection to the
backend. -/
structure Traffic.Sound (env : Env) (state : Traffic) : Prop where
  counters : ∀ id, state.conns id = state.serving id
  tasks : ∀ task ∈ state.tasks, ∃ connection, task.Sound env connection

section Steps

variable {env : Env} {state next : Traffic} {move : Move} {task : Underway} {index : ℕ}
  {event : Event} {rest : List Event} {connection : Option BackendId} {id : BackendId}

theorem Underway.Sound.serves_iff (sound : task.Sound env connection) :
    task.serves id = true ↔ connection = some id := by
  have balance := sound.balance id
  simp only [Underway.serves, decide_eq_true_eq]
  constructor
  · intro opened
    by_contra closed
    rw [if_neg closed] at balance
    omega
  · intro opened
    rw [if_pos opened] at balance
    omega

/-- The connection after an event. -/
def connectionAfter (connection : Option BackendId) : Event → Option BackendId
  | .inc id => some id
  | .dec _ => none
  | _ => connection

theorem Underway.Sound.advance (sound : task.Sound env connection)
    (left : task.left = event :: rest) :
    (task.advance event rest).Sound env (connectionAfter connection event) := by
  have whole := sound.whole
  have closes := sound.closes
  rw [left] at whole closes
  constructor
  · simpa [Underway.advance] using whole
  · cases event with
    | inc id => exact closes.2
    | dec id => exact closes.2
    | hop model => exact closes
    | call call => exact closes
    | blocked block => exact closes
  · intro id
    have balance := sound.balance id
    simp only [Underway.advance, incs_append, decs_append]
    cases event with
    | inc other =>
        have opened : incs id [Event.inc other] = if other = id then 1 else 0 := by
          simp [incs]
        have closed : decs id [Event.inc other] = 0 := rfl
        simp only [connectionAfter, closes.1, Option.some.injEq, opened, closed] at balance ⊢
        simp only [reduceCtorEq, if_false] at balance
        omega
    | dec other =>
        have opened : incs id [Event.dec other] = 0 := rfl
        have closed : decs id [Event.dec other] = if other = id then 1 else 0 := by
          simp [decs]
        simp only [connectionAfter, closes.1, Option.some.injEq, opened, closed] at balance ⊢
        simp only [reduceCtorEq, if_false]
        omega
    | hop model => exact balance
    | call call => exact balance
    | blocked block => exact balance
  · cases event with
    | hop model => simp [Underway.advance]
    | inc id => exact sound.readings
    | dec id => exact sound.readings
    | call call => exact sound.readings
    | blocked block => exact sound.readings

theorem serving_set (found : state.tasks[index]? = some task) {changed : Underway}
    {after : Option BackendId} (was : task.Sound env connection) (is : changed.Sound env after)
    (conns : BackendId → ℤ) (id : BackendId) :
    (Traffic.serving ⟨conns, state.tasks.set index changed⟩ id : ℤ) =
      state.serving id - (if connection = some id then 1 else 0) +
        if after = some id then 1 else 0 := by
  rcases List.getElem?_eq_some_iff.mp found with ⟨inside, isTask⟩
  simp only [Traffic.serving]
  rw [List.countP_set inside, isTask]
  have positive : connection = some id → 0 < state.tasks.countP (·.serves id) := by
    intro serves
    rw [List.countP_pos_iff]
    exact ⟨task, List.mem_of_getElem? found, was.serves_iff.mpr serves⟩
  simp only [was.serves_iff, is.serves_iff]
  by_cases serves : connection = some id
  · have more := positive serves
    simp only [if_pos serves]
    split <;> omega
  · simp only [if_neg serves]
    split <;> omega

theorem mem_set {tasks : List Underway} {changed other : Underway}
    (inside : other ∈ tasks.set index changed) : other ∈ tasks ∨ other = changed :=
  List.mem_or_eq_of_mem_set inside

/-- A step keeps the counters exact. -/
theorem Traffic.Sound.step (sound : state.Sound env) (steps : state.step env move = some next) :
    next.Sound env := by
  cases move with
  | arrive work =>
      simp only [Traffic.step, Option.some.injEq] at steps
      subst steps
      constructor
      · intro id
        rw [sound.counters id, Traffic.serving, Traffic.serving, List.countP_append]
        rfl
      · intro task inside
        rcases List.mem_append.mp inside with old | new
        · exact sound.tasks task old
        · rw [List.mem_singleton] at new
          subst new
          exact ⟨none, rfl, work.closes, fun id => rfl, by simp⟩
  | read index id =>
      simp only [Traffic.step, Option.bind_eq_some_iff, Option.ite_none_right_eq_some,
        Option.some.injEq] at steps
      rcases steps with ⟨task, found, choosing, rfl⟩
      rcases sound.tasks task (List.mem_of_getElem? found) with ⟨connection, now⟩
      have later : (task.read ⟨id, state.conns id, state.serving id⟩).Sound env connection := by
        refine ⟨now.whole, now.closes, now.balance, ?_⟩
        intro reading listed
        rcases List.mem_append.mp listed with old | new
        · exact now.readings reading old
        · rw [List.mem_singleton] at new
          subst new
          exact sound.counters id
      constructor
      · intro other
        rw [serving_set found now later, Int.sub_add_cancel]
        exact sound.counters other
      · intro other inside
        rcases mem_set inside with old | rfl
        · exact sound.tasks other old
        · exact ⟨connection, later⟩
  | act index =>
      simp only [Traffic.step, Option.bind_eq_some_iff] at steps
      rcases steps with ⟨task, found, steps⟩
      split at steps
      · cases steps
      · rename_i event rest left
        rw [Option.ite_none_right_eq_some, Option.some.injEq] at steps
        rcases steps with ⟨chosen, rfl⟩
        rcases sound.tasks task (List.mem_of_getElem? found) with ⟨connection, now⟩
        have later := now.advance left
        constructor
        · intro id
          have counters := sound.counters id
          rw [serving_set found now later]
          have closes := now.closes
          rw [left] at closes
          cases event with
          | inc other =>
              simp only [countEvent, incConn, connectionAfter, closes.1, reduceCtorEq, if_false,
                Option.some.injEq, counters]
              by_cases same : id = other
              · rw [if_pos same, if_pos same.symm]
                omega
              · rw [if_neg same, if_neg (Ne.symm same)]
                omega
          | dec other =>
              simp only [countEvent, decConn, connectionAfter, closes.1, reduceCtorEq, if_false,
                Option.some.injEq, counters]
              by_cases same : id = other
              · have serves : task.serves id = true := by
                  rw [now.serves_iff, closes.1, same]
                have positive : 0 < state.serving id :=
                  List.countP_pos_iff.mpr ⟨task, List.mem_of_getElem? found, serves⟩
                rw [if_pos ⟨same, by omega⟩, if_pos same.symm]
                omega
              · rw [if_neg (fun both => same both.1), if_neg (Ne.symm same)]
                omega
          | hop model =>
              exact counters.trans (Int.sub_add_cancel _ _).symm
          | call call =>
              exact counters.trans (Int.sub_add_cancel _ _).symm
          | blocked block =>
              exact counters.trans (Int.sub_add_cancel _ _).symm
        · intro other inside
          rcases mem_set inside with old | rfl
          · exact sound.tasks other old
          · exact ⟨_, later⟩

theorem Traffic.Sound.run {moves : List Move}
    (run : Run (Traffic.step env) (fun _ _ => True) idle moves state) : state.Sound env := by
  apply run.invariant (Traffic.Sound env)
  · constructor
    · intro id
      rfl
    · intro task inside
      simp [idle] at inside
  · intro state next label sound _ steps
    exact sound.step steps

/-- What a request compared: it counts its connection to a backend to which, when it read the
counters, no more requests had a connection than to any other backend that is compared. -/
def Underway.TakesLeast (task : Underway) (id : BackendId) : Prop :=
  ∃ model, task.choosing = some model ∧ ∀ other ∈ compared task.snapshot model,
    ∃ mine ∈ task.readings, ∃ theirs ∈ task.readings,
      mine.id = id ∧ theirs.id = other.id ∧ mine.serving ≤ theirs.serving

theorem Underway.Sound.takesLeast (sound : task.Sound env connection)
    (left : task.left = .inc id :: rest) (chosen : task.hasChosen = true) :
    task.TakesLeast id := by
  have whole := sound.whole
  rw [left] at whole
  rcases task.work.picked whole.symm with ⟨earlier, model, backend, upstream, past, picked, rfl⟩
  have choosing : task.choosing = some model := by
    simp [Underway.choosing, past]
  have hop : task.hop = (hopsOf earlier).length := by
    simp [Underway.hop, past, hopsOf]
  refine ⟨model, choosing, ?_⟩
  intro other among
  rw [Underway.snapshot, hop] at among
  rcases pick_compared picked among with ⟨mine, least⟩
  simp only [Underway.hasChosen, choosing, Bool.and_eq_true, List.all_eq_true, decide_eq_true_eq,
    Underway.snapshot, hop] at chosen
  rcases chosen with ⟨agrees, covers⟩
  rcases List.mem_map.mp (covers backend mine) with ⟨own, ownRead, ownId⟩
  rcases List.mem_map.mp (covers other among) with ⟨theirs, theirsRead, theirsId⟩
  refine ⟨own, ownRead, theirs, theirsRead, ownId, theirsId, ?_⟩
  have ownCount := agrees own ownRead
  have theirsCount := agrees theirs theirsRead
  rw [sound.readings own ownRead, ownId] at ownCount
  rw [sound.readings theirs theirsRead, theirsId] at theirsCount
  omega

end Steps

/-- In every order in which requests come in, read the counters, and go on, a counter of the health
checker is the number of requests that have a connection to the backend. A request has one
connection at a time and none when it has ended, and with `least_conn` it takes a backend that was
among the least busy when it looked. -/
theorem connections_exact {env : Env} {moves : List Move} {state : Traffic}
    (run : Run (Traffic.step env) (fun _ _ => True) idle moves state) :
    (∀ id, state.conns id = state.serving id) ∧
      ∀ task ∈ state.tasks,
        (∀ id other, task.serves id = true → task.serves other = true → id = other) ∧
          (task.left = [] → ∀ id, task.serves id = false) ∧
            ∀ id rest, task.left = .inc id :: rest → task.hasChosen = true →
              task.TakesLeast id := by
  have sound := Traffic.Sound.run run
  refine ⟨sound.counters, ?_⟩
  intro task inside
  rcases sound.tasks task inside with ⟨connection, now⟩
  refine ⟨?_, ?_, ?_⟩
  · intro id other one two
    rw [now.serves_iff] at one two
    rw [one, Option.some.injEq] at two
    exact two
  · intro ended id
    have closes := now.closes
    rw [ended] at closes
    rw [← Bool.not_eq_true, now.serves_iff, closes]
    simp
  · intro id rest left chosen
    exact now.takesLeast left chosen

section Trials

/-- One alias on two servers. -/
def sharedAlias : ModelTables where
  models := [⟨1, "chat", "qwen3", "least_conn", true, [1, 2], 0, "", "inherit", "", [], false,
    "", ""⟩]
  backends := twoServers.backends
  models_id_nodup := List.nodup_singleton _
  models_alias_nodup := List.nodup_singleton _
  backends_id_nodup := twoServers.backends_id_nodup
  backends_id_pos := twoServers.backends_id_pos

/-- Both servers are up, and this many connections are open. -/
def twoServersBusy (conns : BackendId → ℤ) : Snapshot :=
  { twoServersUp true with
    models := sharedAlias
    conns := conns }

/-- Two requests for the same alias. The second chooses while the first is being served. -/
def oneAfterOther : List Move :=
  [.arrive (.direct (twoServersBusy fun _ => 0) "chat"),
    .arrive (.direct (twoServersBusy fun id => if id = 1 then 1 else 0) "chat"),
    .act 0, .read 0 1, .read 0 2, .act 0, .act 1, .read 1 1, .read 1 2]

noncomputable def secondChooses : Traffic :=
  ((exec (Traffic.step (trialEnv chatDocuments fun _ => none)) idle oneAfterOther).getD idle)

theorem secondChooses_exec :
    exec (Traffic.step (trialEnv chatDocuments fun _ => none)) idle oneAfterOther =
      some secondChooses := by
  rfl

theorem connections_exact_second :
    secondChooses.conns 1 = 1 ∧ secondChooses.serving 1 = 1 ∧
      ∃ task, secondChooses.tasks[1]? = some task ∧ task.left = [.inc 2, .dec 2] ∧
        task.TakesLeast 2 := by
  have exact := connections_exact (run_of_exec secondChooses_exec)
  have one : secondChooses.serving 1 = 1 := by rfl
  refine ⟨?_, one, ?_⟩
  · rw [exact.1 1, one]
    rfl
  · exact ⟨_, rfl, rfl, (exact.2 _ (List.getElem_mem (n := 1) (by decide))).2.2 2 [.dec 2] rfl rfl⟩

end Trials

end MikroLLM.Proxy
