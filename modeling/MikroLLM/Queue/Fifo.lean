import MikroLLM.Queue.Presence

/-!
# First in, first out

The order of a queue is that of the sequence numbers. `InsertQueueJob` reads the
greatest number in one statement and inserts the row in another one, the purge
deletes rows, and the waiter is registered after its row was inserted. Where no
other goroutine comes in between, the numbers grow with the insertions and a
dispatcher takes the oldest job.
-/

namespace MikroLLM.Queue

open Domain Store Library

/-- The job whose row a call is about to insert. -/
def CallPc.inserts : CallPc → Option JobId
  | .insertWrite j | .overflowInsert j => some j
  | _ => none

/-- The job a dispatcher has chosen and not yet switched to running. -/
def Routine.chosen : Routine → Option JobId
  | .dispatchPick _ head _ | .dispatchCheck _ head _ | .dispatchMark _ head _ => some head
  | _ => none

/-- No row of the queue is between the two statements of `InsertQueueJob`. -/
def insertsAlone (state : State) (queueId : QueueId) : Bool :=
  (List.range state.nextJob).all fun j =>
    (state.calls (state.writer j)).pc.inserts ≠ some j || (state.heap j).queueId ≠ queueId

/-- No queue loses the row with its greatest number. -/
def keepsSeqs (state : State) (rows : JobTable) : Bool :=
  (distinctQueues state.nextJob state.rows).all fun queueId =>
    nextSeq state.nextJob state.rows queueId ≤ nextSeq state.nextJob rows queueId

/-- No older job of the queue is between its row and its registration. -/
def olderRegistered (state : State) (head : JobId) : Bool :=
  (List.range state.nextJob).all fun j =>
    (state.calls (state.writer j)).pc ≠ .register j ||
      (state.heap j).queueId ≠ (state.heap head).queueId ||
        (state.heap head).seq ≤ (state.heap j).seq

/-- The steps that keep the order: insertions into one queue do not overlap, the purge leaves the
row with the greatest number of each queue, and a dispatcher chooses when every older job is
registered. -/
def keepsOrder (state : State) : Action → Bool
  | .handle c .insertSelect | .handle c .overflowSelect =>
      insertsAlone state (state.calls c).queue.id
  | .purge _ .aged => keepsSeqs state (deleteAged state.rows (state.clock - 2 * 3600))
  | .purge t .delete =>
      match state.routines t with
      | .purgeDelete (job :: _) _ => keepsSeqs state (deleteJob state.rows job)
      | _ => true
  | .dispatch t (.top order) =>
      match state.routines t with
      | .dispatchTop queue =>
          match state.waitingLocked queue.id order with
          | head :: _ => olderRegistered state head
          | [] => true
      | _ => true
  | _ => true

/-- The job is registered, or its row is inserted and it is about to be. -/
def Joined (state : State) (j : JobId) : Prop :=
  Entered state.calls state.writer j ∨ ∃ c, (state.calls c).pc = .register j

/-- The rows change, and the numbers that were given stay given. -/
structure SeqsKept (bound : JobId) (rows rows' : JobTable) : Prop where
  ids : RowIds rows' bound
  none : ∀ id, rows id = none → rows' id = none
  seqs : ∀ queueId, nextSeq bound rows queueId ≤ nextSeq bound rows' queueId

/-- The numbers of the jobs of a queue grow in the order of their insertions. -/
structure Sequenced (state : State) : Prop where
  ids : RowIds state.rows state.nextJob
  fresh : ∀ c j, (state.calls c).pc.inserts = some j → state.rows j = none
  sorted : state.inserts.Pairwise fun older newer =>
    older.queueId = newer.queueId → older.seq < newer.seq
  known : ∀ job ∈ state.inserts, job.id < state.nextJob ∧
    (state.heap job.id).queueId = job.queueId ∧ (state.heap job.id).seq = job.seq
  last : ∀ job ∈ state.inserts, job.seq < nextSeq state.nextJob state.rows job.queueId
  pending : ∀ c j, (state.calls c).pc.inserts = some j → ∀ job ∈ state.inserts,
    job.queueId = (state.heap j).queueId → job.seq < (state.heap j).seq
  alone : ∀ c d j k, (state.calls c).pc.inserts = some j → (state.calls d).pc.inserts = some k →
    (state.heap j).queueId = (state.heap k).queueId → c = d

section Rows

variable {state : State} {rows : JobTable}

theorem seqsKept_refl (ids : RowIds state.rows state.nextJob) :
    SeqsKept state.nextJob state.rows state.rows :=
  ⟨ids, fun _ absent => absent, fun _ => le_rfl⟩

theorem seqsKept_save {ok : Bool} {job : QueueJob} (ids : RowIds state.rows state.nextJob) :
    SeqsKept state.nextJob state.rows (state.saveJob ok job).rows := by
  cases ok with
  | false => exact seqsKept_refl ids
  | true =>
      refine ⟨ids.updateJob, ?_, fun queueId => nextSeq_updateJob ids⟩
      intro id absent
      rcases eq_or_ne id job.id with rfl | other
      · simp [updateJob, absent]
      · simpa [updateJob, other] using absent

/-- A purge that leaves the greatest number of each queue. -/
theorem seqsKept_purge (kept : keepsSeqs state rows = true) (ids' : RowIds rows state.nextJob)
    (none : ∀ id, state.rows id = none → rows id = none) :
    SeqsKept state.nextJob state.rows rows := by
  refine ⟨ids', none, ?_⟩
  intro queueId
  simp only [keepsSeqs, List.all_eq_true, decide_eq_true_eq] at kept
  by_cases listed : queueId ∈ distinctQueues state.nextJob state.rows
  · exact kept queueId listed
  · apply nextSeq_le (Nat.succ_pos _)
    intro row found queue
    refine (listed ?_).elim
    rw [distinctQueues, List.mem_dedup, List.mem_map]
    exact ⟨row, found, queue⟩

end Rows

section Steps

variable {limits : Limits} {state next : State} {c : CallId}

theorem inserts_update {calls : CallId → Call} {call : Call}
    (own : call.pc.inserts = none ∨ call.pc.inserts = (calls c).pc.inserts) :
    ∀ other j, (Function.update calls c call other).pc.inserts = some j →
      (calls other).pc.inserts = some j := by
  intro other j here
  rcases eq_or_ne other c with rfl | different
  · rw [Function.update_self] at here
    rcases own with none | same
    · rw [none] at here
      cases here
    · exact same ▸ here
  · rwa [Function.update_of_ne different] at here

/-- The job a call is about to insert is its own. -/
theorem Ownership.inserting {j : JobId} (owned : Ownership state)
    (inserts : (state.calls c).pc.inserts = some j) :
    j < state.nextJob ∧ state.writer j = c ∧ (state.heap j).id = j := by
  have facts : j < state.nextJob ∧ state.writer j = c := by
    cases pc : (state.calls c).pc with
    | insertWrite k =>
        have same : k = j := by simpa [pc, CallPc.inserts] using inserts
        subst same
        have joins : (state.calls c).pc.joins = some k := by rw [pc]; rfl
        exact ⟨((owned.calls c).joining k joins).1, ((owned.calls c).joining k joins).2.1⟩
    | overflowInsert k =>
        have same : k = j := by simpa [pc, CallPc.inserts] using inserts
        subst same
        have inHand : (state.calls c).pc.overflows = some k := by rw [pc]; rfl
        have own := (owned.calls c).overflowing k (Or.inr inHand)
        exact ⟨own.1, own.2.1⟩
    | _ => simp [pc, CallPc.inserts] at inserts
  exact ⟨facts.1, facts.2, owned.ids j facts.1⟩

/-- A step that neither begins nor completes an insertion. -/
theorem Sequenced.quiet (inv : Sequenced state) (owned : Ownership state)
    (inserts : next.inserts = state.inserts) (nextJob : next.nextJob = state.nextJob)
    (heap : ∀ k < state.nextJob, (next.heap k).queueId = (state.heap k).queueId ∧
      (next.heap k).seq = (state.heap k).seq)
    (calls : ∀ other j, (next.calls other).pc.inserts = some j →
      (state.calls other).pc.inserts = some j)
    (rows : SeqsKept state.nextJob state.rows next.rows) : Sequenced next := by
  have below : ∀ c j, (next.calls c).pc.inserts = some j → j < state.nextJob :=
    fun c j here => (owned.inserting (calls c j here)).1
  refine ⟨nextJob ▸ rows.ids, ?_, inserts ▸ inv.sorted, ?_, ?_, ?_, ?_⟩
  · intro c j here
    exact rows.none j (inv.fresh c j (calls c j here))
  · rw [inserts, nextJob]
    intro job listed
    rcases inv.known job listed with ⟨old, queue, seq⟩
    exact ⟨old, (heap _ old).1.trans queue, (heap _ old).2.trans seq⟩
  · rw [inserts, nextJob]
    exact fun job listed => (inv.last job listed).trans_le (rows.seqs _)
  · rw [inserts]
    intro c j here job listed queue
    rw [(heap j (below c j here)).2]
    rw [(heap j (below c j here)).1] at queue
    exact inv.pending c j (calls c j here) job listed queue
  · intro c d j k here there queue
    rw [(heap j (below c j here)).1, (heap k (below d k there)).1] at queue
    exact inv.alone c d j k (calls c j here) (calls d k there) queue

/-- The first statement of `InsertQueueJob`. -/
theorem Sequenced.begin {job : QueueJob} {pc : CallPc} (inv : Sequenced state)
    (owned : Ownership state) (apart : insertsAlone state (state.calls c).queue.id = true)
    (inserts : pc.inserts = some state.nextJob) (queue : job.queueId = (state.calls c).queue.id)
    (seq : job.seq = nextSeq state.nextJob state.rows job.queueId) :
    Sequenced ((state.allocate c job).setPc c pc) := by
  have more : RowIds state.rows (state.nextJob + 1) := inv.ids.mono (Nat.le_succ _)
  have absent : state.rows state.nextJob = none := by
    cases found : state.rows state.nextJob with
    | none => rfl
    | some row => exact absurd (inv.ids _ row found).2 (Nat.lt_irrefl _)
  have old : ∀ {k}, k < state.nextJob →
      ((state.allocate c job).setPc c pc).heap k = state.heap k := by
    intro k below
    simp [below.ne]
  have calls : ∀ other j, (((state.allocate c job).setPc c pc).calls other).pc.inserts = some j →
      (other = c ∧ j = state.nextJob) ∨ (other ≠ c ∧ (state.calls other).pc.inserts = some j ∧
        j < state.nextJob ∧ state.writer j = other) := by
    intro other j here
    rcases eq_or_ne other c with rfl | different
    · exact Or.inl ⟨rfl, by simpa [inserts, eq_comm] using here⟩
    · have before : (state.calls other).pc.inserts = some j := by simpa [different] using here
      have facts := owned.inserting before
      exact Or.inr ⟨different, before, facts.1, facts.2.1⟩
  -- a job that another call is inserting is of another queue
  have apart' : ∀ other k, (state.calls other).pc.inserts = some k → k < state.nextJob →
      state.writer k = other → (state.heap k).queueId ≠ (state.calls c).queue.id := by
    intro other k here below mine
    simp only [insertsAlone, List.all_eq_true, List.mem_range, Bool.or_eq_true,
      decide_eq_true_eq] at apart
    rcases apart k below with notHere | differs
    · rw [mine] at notHere
      exact (notHere here).elim
    · exact differs
  refine ⟨more, ?_, inv.sorted, ?_, ?_, ?_, ?_⟩
  · intro other j here
    rcases calls other j here with ⟨_, rfl⟩ | ⟨_, before, _⟩
    · exact absent
    · exact inv.fresh other j before
  · intro job' listed
    rcases inv.known job' listed with ⟨below, sameQueue, sameSeq⟩
    rw [old below]
    exact ⟨Nat.lt_succ_of_lt below, sameQueue, sameSeq⟩
  · intro job' listed
    apply (inv.last job' listed).trans_le
    exact nextSeq_mono inv.ids more fun id row found => ⟨row, found, rfl, rfl⟩
  · intro other j here job' listed sameQueue
    rcases calls other j here with ⟨_, rfl⟩ | ⟨_, before, below, _⟩
    · simp only [State.setPc_heap, State.allocate_heap, Function.update_self] at sameQueue ⊢
      rw [seq, ← sameQueue]
      exact inv.last job' listed
    · rw [old below] at sameQueue ⊢
      exact inv.pending other j before job' listed sameQueue
  · intro a b j k here there sameQueue
    rcases calls a j here with ⟨rfl, rfl⟩ | ⟨_, before, below, mine⟩
    · rcases calls b k there with ⟨rfl, _⟩ | ⟨_, before', below', mine'⟩
      · rfl
      · rw [old below'] at sameQueue
        simp only [State.setPc_heap, State.allocate_heap, Function.update_self] at sameQueue
        exact (apart' b k before' below' mine' (sameQueue.symm.trans queue)).elim
    · rcases calls b k there with ⟨rfl, rfl⟩ | ⟨_, before', below', mine'⟩
      · rw [old below] at sameQueue
        simp only [State.setPc_heap, State.allocate_heap, Function.update_self] at sameQueue
        exact (apart' a j before below mine (sameQueue.trans queue)).elim
      · rw [old below, old below'] at sameQueue
        exact inv.alone a b j k before before' sameQueue

/-- The second statement of `InsertQueueJob`. -/
theorem Sequenced.insert {j : JobId} {pc : CallPc} (inv : Sequenced state) (owned : Ownership state)
    (inserts : (state.calls c).pc.inserts = some j) (done : pc.inserts = none) :
    Sequenced ((state.insertRow (state.heap j)).setPc c pc) := by
  rcases owned.inserting inserts with ⟨below, mine, same⟩
  have rowBelow : (state.heap j).id < state.nextJob := same.trans_lt below
  have absent : state.rows (state.heap j).id = none := by
    rw [same]
    exact inv.fresh c j inserts
  have ids := inv.ids.insertJob rowBelow
  have found : insertJob state.rows (state.heap j) j = some (state.heap j) := by
    simp [insertJob, same]
  have calls : ∀ other k, (((state.insertRow (state.heap j)).setPc c pc).calls other).pc.inserts =
      some k → other ≠ c ∧ (state.calls other).pc.inserts = some k := by
    intro other k here
    rcases eq_or_ne other c with rfl | different
    · simp [done] at here
    · exact ⟨different, by simpa [different] using here⟩
  refine ⟨ids, ?_, ?_, ?_, ?_, ?_, ?_⟩
  · intro other k here
    rcases calls other k here with ⟨different, before⟩
    have otherJob : k ≠ j := by
      rintro rfl
      exact different ((owned.inserting before).2.1.symm.trans mine)
    simpa [insertJob, same, otherJob] using inv.fresh other k before
  · rw [State.setPc_inserts, State.insertRow_inserts, List.pairwise_append]
    refine ⟨inv.sorted, List.pairwise_singleton _ _, ?_⟩
    intro older listed newer isNew queue
    rw [List.mem_singleton] at isNew
    subst isNew
    exact inv.pending c j inserts older listed queue
  · intro job listed
    rw [State.setPc_inserts, State.insertRow_inserts, List.mem_append, List.mem_singleton] at listed
    rcases listed with old | rfl
    · exact inv.known job old
    · show _ < state.nextJob ∧ (state.heap _).queueId = _ ∧ (state.heap _).seq = _
      rw [same]
      exact ⟨below, rfl, rfl⟩
  · intro job listed
    rw [State.setPc_inserts, State.insertRow_inserts, List.mem_append, List.mem_singleton] at listed
    rcases listed with old | rfl
    · exact (inv.last job old).trans_le (nextSeq_insertJob inv.ids rowBelow absent)
    · exact lt_nextSeq ids found
  · intro other k here job listed queue
    rcases calls other k here with ⟨different, before⟩
    rw [State.setPc_inserts, State.insertRow_inserts, List.mem_append, List.mem_singleton] at listed
    rcases listed with old | rfl
    · exact inv.pending other k before job old queue
    · exact (different (inv.alone c other j k inserts before queue).symm).elim
  · intro a b k l here there queue
    exact inv.alone a b k l (calls a k here).2 (calls b l there).2 queue

/-- Every step that keeps the order keeps the numbers in order. -/
theorem Sequenced.step {action : Action} (inv : Sequenced state) (owned : Ownership state)
    (kept : keepsOrder state action = true) (fires : step limits state action = some next) :
    Sequenced next := by
  have heap : ∀ k < state.nextJob, (next.heap k).queueId = (state.heap k).queueId ∧
      (next.heap k).seq = (state.heap k).seq :=
    fun k below => ⟨(heap_step fires below).1, (heap_step fires below).2.1⟩
  have same := seqsKept_refl inv.ids
  have stays : ∀ other j, (state.calls other).pc.inserts = some j →
      (state.calls other).pc.inserts = some j := fun _ _ here => here
  cases action with
  | advance seconds | editQueues tables =>
      cases fires
      exact inv.quiet owned rfl rfl heap stays same
  | handle c action =>
      cases handle_moves fires with
      | overflowSelect | insertSelect => exact inv.begin owned kept rfl rfl rfl
      | inserted pc | overflowInserted pc => exact inv.insert owned (by rw [pc]; rfl) rfl
      | overflowSave =>
          exact inv.quiet owned rfl rfl heap (inserts_update (Or.inl rfl)) (seqsKept_save inv.ids)
      | unwound =>
          exact inv.quiet owned rfl rfl heap (inserts_update (Or.inr rfl)) (seqsKept_save inv.ids)
      | _ => exact inv.quiet owned rfl rfl heap (inserts_update (Or.inl rfl)) same
  | dispatch t action =>
      cases dispatch_moves fires with
      | save => exact inv.quiet owned rfl rfl heap stays (seqsKept_save inv.ids)
      | _ => exact inv.quiet owned rfl rfl heap stays same
  | purge t action =>
      cases purge_moves fires with
      | aged =>
          refine inv.quiet owned rfl rfl heap stays (seqsKept_purge kept inv.ids.deleteAged ?_)
          intro id absent
          simp [deleteAged, absent]
      | @delete job extra queues routine =>
          have safe : keepsSeqs state (deleteJob state.rows job) = true := by
            simpa [keepsOrder, routine] using kept
          refine inv.quiet owned rfl rfl heap stays (seqsKept_purge safe inv.ids.deleteJob ?_)
          intro id absent
          rcases eq_or_ne id job with rfl | other
          · simp [deleteJob]
          · simpa [deleteJob, other] using absent
      | dropSave => exact inv.quiet owned rfl rfl heap stays (seqsKept_save inv.ids)
      | _ => exact inv.quiet owned rfl rfl heap stays same
  | run j action =>
      cases run_moves fires with
      | finishSave => exact inv.quiet owned rfl rfl heap stays (seqsKept_save inv.ids)
      | write | fail =>
          exact inv.quiet owned rfl rfl heap (inserts_update (Or.inr rfl)) same
      | _ => exact inv.quiet owned rfl rfl heap stays same
  | loop action => cases loop_moves fires <;> exact inv.quiet owned rfl rfl heap stays same

theorem Joined.below {j : JobId} (owned : Ownership state) (joined : Joined state j) :
    j < state.nextJob := by
  rcases joined with entered | ⟨c, pc⟩
  · exact ((owned.calls _).waiting j entered).1
  · exact ((owned.calls c).joining j (by rw [pc]; rfl)).1

/-- A call goes on; whether its job has joined stays as it is. -/
theorem joined_update {j : JobId} {call : Call} (waiter : call.waiter = (state.calls c).waiter)
    (pc : ∀ j, call.pc = .register j ↔ (state.calls c).pc = .register j) :
    Joined (state.setCall c call) j ↔ Joined state j := by
  apply or_congr
  · simp only [Entered, State.setCall_calls, State.setCall_writer]
    rcases eq_or_ne (state.writer j) c with same | different
    · simp [same, waiter]
    · simp [different]
  · apply exists_congr
    intro other
    rcases eq_or_ne other c with rfl | different
    · simpa using pc j
    · simp [different]

theorem joined_setPc {j : JobId} {next : CallPc} (before : ∀ j, (state.calls c).pc ≠ .register j)
    (after : ∀ j, next ≠ .register j) : Joined (state.setPc c next) j ↔ Joined state j :=
  joined_update rfl fun j => by simp [before j, after j]

theorem joined_allocate {j : JobId} {job : QueueJob} (owned : Ownership state) :
    Joined (state.allocate c job) j ↔ Joined state j := by
  rcases eq_or_ne j state.nextJob with rfl | other
  · constructor
    · rintro (entered | joins)
      · have waiter : (state.calls c).waiter = some state.nextJob := by simpa [Entered] using entered
        exact absurd ((owned.calls c).waiting _ waiter).1 (Nat.lt_irrefl _)
      · exact Or.inr joins
    · intro joined
      exact absurd (joined.below owned) (Nat.lt_irrefl _)
  · simp [Joined, Entered, other]

/-- A job joins when its row has been inserted, and has joined for good. -/
theorem joined_step {action : Action} {j : JobId} (owned : Ownership state)
    (fires : step limits state action = some next) :
    Joined next j ↔ Joined state j ∨
      ∃ c, action = .handle c (.insertWrite true) ∧ (state.calls c).pc = .insertWrite j := by
  have quiet : (∀ c, action ≠ .handle c (.insertWrite true)) → (Joined next j ↔ Joined state j) →
      (Joined next j ↔ Joined state j ∨
        ∃ c, action = .handle c (.insertWrite true) ∧ (state.calls c).pc = .insertWrite j) := by
    intro noInsert same
    rw [same]
    constructor
    · exact Or.inl
    · rintro (joined | ⟨c, isInsert, _⟩)
      · exact joined
      · exact (noInsert c isInsert).elim
  cases action with
  | advance seconds | editQueues tables => cases fires; exact quiet (by simp) Iff.rfl
  | handle c action =>
      cases handle_moves fires with
      | @inserted k pc =>
          have waiter := (owned.calls c).waiter_eq_none pc rfl rfl
          constructor
          · rintro (entered | ⟨other, register⟩)
            · left
              left
              simp only [Entered, State.setPc_calls, State.setPc_writer] at entered ⊢
              rcases eq_or_ne (state.writer j) c with same | different
              · simp [same, waiter] at entered
              · simpa [different] using entered
            · rcases eq_or_ne other c with rfl | different
              · have same : k = j := by simpa using register
                subst same
                exact Or.inr ⟨other, rfl, pc⟩
              · exact Or.inl (Or.inr ⟨other, by simpa [different] using register⟩)
          · rintro ((entered | ⟨other, register⟩) | ⟨other, same, fresh⟩)
            · exact Or.inl (entered_setCall (fun _ kept => kept) entered)
            · have different : other ≠ c := by
                rintro rfl
                rw [pc] at register
                cases register
              exact Or.inr ⟨other, by simpa [different] using register⟩
            · cases same
              rw [pc] at fresh
              cases fresh
              exact Or.inr ⟨c, by simp⟩
      | @register k pc =>
          have joins : (state.calls c).pc.joins = some k := by rw [pc]; rfl
          have facts := (owned.calls c).joining k joins
          refine quiet (by simp) ⟨?_, ?_⟩
          · rintro (entered | ⟨other, register⟩)
            · rcases eq_or_ne (state.writer j) c with same | different
              · have isJob : k = j := by simpa [Entered, same] using entered
                exact Or.inr ⟨c, isJob ▸ pc⟩
              · exact Or.inl (by simpa [Entered, different] using entered)
            · rcases eq_or_ne other c with rfl | different
              · simp at register
              · exact Or.inr ⟨other, by simpa [different] using register⟩
          · rintro (entered | ⟨other, register⟩)
            · exact Or.inl (entered_setCall (by simp [facts.2.2.1]) entered)
            · rcases eq_or_ne other c with rfl | different
              · rw [pc] at register
                cases register
                exact Or.inl (by simp [Entered, facts.2.1])
              · exact Or.inr ⟨other, by simpa [different] using register⟩
      | overflowSelect pc | insertSelect pc =>
          exact quiet (by simp) ((joined_setPc (by simp [pc]) (by simp)).trans
            (joined_allocate owned))
      | receive pc =>
          refine quiet (by simp) (joined_setPc ?_ (by simp))
          rcases pc with select | await
          · simp [select]
          · simp [await]
      | overflowForward pc =>
          refine quiet (by simp) (joined_update ?_ (by simp [pc]))
          split <;> rfl
      | arrive pc | refused pc | entered pc | toOverflow pc | full pc | accepted pc
      | overflowInserted pc | overflowNotInserted pc | overflowNested pc | overflowDirect pc
      | overflowSave pc | notInserted pc | expire pc | stillWaiting pc | notWaiting pc
      | answerTimeout pc | returned pc | unwound pc =>
          exact quiet (by simp) (joined_update rfl (by simp [pc]))
  | dispatch t action => cases dispatch_moves fires <;> exact quiet (by simp) Iff.rfl
  | purge t action => cases purge_moves fires <;> exact quiet (by simp) Iff.rfl
  | run k action =>
      cases run_moves fires with
      | write | fail => exact quiet (by simp) (joined_update rfl fun _ => Iff.rfl)
      | _ => exact quiet (by simp) Iff.rfl
  | loop action => cases loop_moves fires <;> exact quiet (by simp) Iff.rfl

/-- A row is inserted by the call that has its job. -/
theorem inserts_step {action : Action} (fires : step limits state action = some next) :
    next.inserts = state.inserts ∨ ∃ c j, (state.calls c).pc.inserts = some j ∧
      next.inserts = state.inserts ++ [state.heap j] ∧
        ((state.calls c).pc = .overflowInsert j ∨
          (action = .handle c (.insertWrite true) ∧ (state.calls c).pc = .insertWrite j)) := by
  cases action with
  | advance seconds | editQueues tables => cases fires; exact Or.inl rfl
  | handle c action =>
      cases handle_moves fires with
      | @overflowInserted j pc => exact Or.inr ⟨c, j, by rw [pc]; rfl, rfl, Or.inl pc⟩
      | @inserted j pc => exact Or.inr ⟨c, j, by rw [pc]; rfl, rfl, Or.inr ⟨rfl, pc⟩⟩
      | _ => exact Or.inl rfl
  | dispatch t action => cases dispatch_moves fires <;> exact Or.inl rfl
  | purge t action => cases purge_moves fires <;> exact Or.inl rfl
  | run j action => cases run_moves fires <;> exact Or.inl rfl
  | loop action => cases loop_moves fires <;> exact Or.inl rfl

/-- A dispatcher chooses a job at the top of its loop only. -/
theorem chosen_step {action : Action} {t : Thread} {head : JobId}
    (fires : step limits state action = some next)
    (chosen : (next.routines t).chosen = some head) :
    (state.routines t).chosen = some head ∨
      ∃ order queue others, action = .dispatch t (.top order) ∧
        state.routines t = .dispatchTop queue ∧ order.Perm state.waiters ∧
          state.waitingLocked queue.id order = head :: others := by
  have moved : ∀ (t' : Thread) (routine : Routine), routine.chosen = none →
      (Function.update state.routines t' routine t).chosen = some head →
        (state.routines t).chosen = some head := by
    intro t' routine none here
    rcases eq_or_ne t t' with rfl | different
    · rw [Function.update_self, none] at here
      cases here
    · rwa [Function.update_of_ne different] at here
  have after : ∀ after, (afterDrop limits after).chosen = none := by
    intro after
    cases after with
    | timeout => rfl
    | purge rest jobs bytes =>
        simp only [afterDrop]
        split <;> rfl
  cases action with
  | advance seconds | editQueues tables => cases fires; exact Or.inl chosen
  | handle c action =>
      cases handle_moves fires with
      | entered | register | stillWaiting => exact Or.inl (moved _ _ rfl chosen)
      | _ => exact Or.inl chosen
  | dispatch t' action =>
      cases dispatch_moves fires with
      | @head order others queue first routine free perm taken =>
          rcases eq_or_ne t t' with rfl | different
          · have same : first = head := by simpa [Routine.chosen] using chosen
            subst same
            exact Or.inr ⟨order, queue, others, rfl, routine, perm, taken⟩
          · exact Or.inl (by simpa [different] using chosen)
      | picked routine | checked routine =>
          left
          rcases eq_or_ne t t' with rfl | different
          · rw [routine]
            simpa [Routine.chosen] using chosen
          · simpa [different] using chosen
      | _ => exact Or.inl (moved _ _ rfl chosen)
  | purge t' action =>
      cases purge_moves fires with
      | notTaken | dropComplete => exact Or.inl (moved _ _ (after _) chosen)
      | dropMark | dropCopy | dropSave => exact Or.inl chosen
      | _ => exact Or.inl (moved _ _ rfl chosen)
  | run j action =>
      cases run_moves fires with
      | finishComplete => exact Or.inl (moved _ _ rfl chosen)
      | _ => exact Or.inl chosen
  | loop action =>
      cases loop_moves fires with
      | tick | next => exact Or.inl (moved _ _ rfl chosen)
      | list | done => exact Or.inl chosen

end Steps

theorem Routine.head_of_chosen {routine : Routine} {head : JobId}
    (chosen : routine.chosen = some head) : routine.head = some head := by
  cases routine <;> simp_all [Routine.chosen, Routine.head]

/-- The jobs of a queue are taken in the order of their numbers. -/
structure Ordered (state : State) : Prop where
  presence : Presence state
  sequenced : Sequenced state
  joined : ∀ j, Joined state j → ∃ job ∈ state.inserts, job.id = j
  waiting : ∀ job ∈ state.inserts, (state.heap job.id).status = .waiting → Joined state job.id
  chosen : ∀ t head, (state.routines t).chosen = some head → ∀ job ∈ state.inserts,
    job.queueId = (state.heap head).queueId → job.seq < (state.heap head).seq →
      (state.heap job.id).status = .waiting → state.drops job.id ≠ .absent

section Ordered

variable {limits : Limits} {state next : State}

/-- No job older than the head that a dispatcher takes still waits. -/
theorem Ordered.top {order others : List JobId} {queue : Queue} {head : JobId} {t : Thread}
    (inv : Ordered state) (consistent : Consistent state)
    (kept : keepsOrder state (.dispatch t (.top order)) = true)
    (routine : state.routines t = .dispatchTop queue) (perm : order.Perm state.waiters)
    (first : state.waitingLocked queue.id order = head :: others) (job : QueueJob)
    (listed : job ∈ state.inserts) (ofQueue : job.queueId = (state.heap head).queueId)
    (older : job.seq < (state.heap head).seq) (waits : (state.heap job.id).status = .waiting) :
    state.drops job.id ≠ .absent := by
  have registeredBefore : olderRegistered state head = true := by
    simpa [keepsOrder, routine, first] using kept
  rcases inv.sequenced.known job listed with ⟨below, queueId, seq⟩
  have headQueue := (lt_nextJob_of_waitingLocked perm first).2.2.1
  rcases inv.waiting job listed waits with entered | ⟨c, pc⟩
  · rcases inv.presence.present job.id entered with present | dropped | finished
    · have least := exchangeSort_head_le first job.id (by
        rw [List.mem_filter, perm.mem_iff]
        simp [State.waiters, below, present, queueId, ofQueue, headQueue, waits])
      omega
    · exact dropped
    · have started : state.runs job.id ≠ .absent := by
        intro absent
        simp [absent, RunPc.finished] at finished
      exact absurd waits (consistent.slots.slots.dispatched job.id started).2.1
  · have mine := ((consistent.owned.calls c).joining job.id (by rw [pc]; rfl)).2.1
    simp only [olderRegistered, List.all_eq_true, List.mem_range, Bool.or_eq_true,
      decide_eq_true_eq] at registeredBefore
    rcases registeredBefore job.id below with (notRegister | otherQueue) | younger
    · rw [mine] at notRegister
      exact (notRegister pc).elim
    · exact (otherQueue (queueId.trans ofQueue)).elim
    · omega

theorem Ordered.step {action : Action} (inv : Ordered state) (consistent : Consistent state)
    (kept : keepsOrder state action = true) (fires : Queue.step limits state action = some next) :
    Ordered next := by
  have owned := consistent.owned
  have sequenced := inv.sequenced.step owned kept fires
  have grown : ∀ job, job ∈ state.inserts → job ∈ next.inserts := by
    intro job listed
    rcases inserts_step fires with same | ⟨_, _, _, more, _⟩
    · rwa [same]
    · rw [more]
      exact List.mem_append_left _ listed
  have belowNext : ∀ k < state.nextJob, ((next.heap k).status = .waiting →
      (state.heap k).status = .waiting) := fun k below => (heap_step fires below).2.2
  refine ⟨inv.presence.step consistent fires, sequenced, ?_, ?_, ?_⟩
  · intro j joined
    rcases (joined_step owned fires).mp joined with before | ⟨c, rfl, pc⟩
    · rcases inv.joined j before with ⟨job, listed, same⟩
      exact ⟨job, grown job listed, same⟩
    · refine ⟨state.heap j, ?_, (owned.inserting (c := c) (by rw [pc]; rfl)).2.2⟩
      have move : HandleMove limits state c (.insertWrite true) next := handle_moves fires
      cases move with
      | inserted pc' =>
          rw [pc] at pc'
          cases pc'
          simp
  · intro job listed waits
    have old : job ∈ state.inserts → Joined next job.id := by
      intro before
      refine (joined_step owned fires).mpr (Or.inl (inv.waiting job before ?_))
      exact belowNext _ (inv.sequenced.known job before).1 waits
    rcases inserts_step fires with same | ⟨c, j, inserting, more, place⟩
    · exact old (same ▸ listed)
    · rw [more, List.mem_append, List.mem_singleton] at listed
      rcases listed with before | rfl
      · exact old before
      · rcases owned.inserting inserting with ⟨below, _, sameId⟩
        rw [sameId] at waits ⊢
        rcases place with overflow | ⟨isInsert, pc⟩
        · have inHand : (state.calls c).pc.overflows = some j := by rw [overflow]; rfl
          exact absurd (belowNext j below waits)
            ((owned.calls c).overflowing j (Or.inr inHand)).2.2
        · exact (joined_step owned fires).mpr (Or.inr ⟨c, isInsert, pc⟩)
  · intro t head chosen job listed ofQueue older waits
    have entered : Entered state.calls state.writer head := by
      rcases chosen_step fires chosen with same | ⟨_, _, _, _, _, perm, first⟩
      · exact owned.jobs.heads t head (Routine.head_of_chosen same)
      · exact owned.jobs.registered head (lt_nextJob_of_waitingLocked perm first).2.1
    have headBelow : head < state.nextJob ∧ ∃ first ∈ state.inserts, first.id = head :=
      ⟨((owned.calls _).waiting head entered).1, inv.joined head (Or.inl entered)⟩
    rw [(heap_step fires headBelow.1).1] at ofQueue
    rw [(heap_step fires headBelow.1).2.1] at older
    -- a job that is inserted now has a greater number than the head
    have before : job ∈ state.inserts := by
      rcases inserts_step fires with same | ⟨c, j, inserting, more, _⟩
      · exact same ▸ listed
      · rw [more, List.mem_append, List.mem_singleton] at listed
        rcases listed with before | rfl
        · exact before
        · rcases headBelow.2 with ⟨first, firstListed, rfl⟩
          rcases inv.sequenced.known first firstListed with ⟨_, queueId, seq⟩
          have greater := inv.sequenced.pending c j inserting first firstListed
            (queueId.symm.trans ofQueue.symm)
          omega
    have waited := belowNext _ (inv.sequenced.known job before).1 waits
    apply drops_step fires
    rcases chosen_step fires chosen with same | ⟨order, queue, others, rfl, routine, perm, first⟩
    · exact inv.chosen t head same job before ofQueue older waited
    · exact inv.top consistent kept routine perm first job before ofQueue older waited

theorem ordered_start {tables : QueueTables} {history : List QueueJob} {clock : ℕ} :
    Ordered (start tables history clock) := by
  refine ⟨presence_start, ⟨?_, ?_, List.Pairwise.nil, ?_, ?_, ?_, ?_⟩, ?_, ?_, ?_⟩
  · intro id row found
    rcases Option.map_eq_some_iff.mp found with ⟨old, listed, rfl⟩
    rcases List.getElem?_eq_some_iff.mp listed with ⟨below, _⟩
    refine ⟨?_, below⟩
    simp only [resetStale]
    split <;> rfl
  · simp [start, Call.idle, CallPc.inserts]
  · simp [start]
  · simp [start]
  · simp [start]
  · simp [start, Call.idle, CallPc.inserts]
  · rintro j (entered | ⟨c, pc⟩)
    · simp [Entered, start, Call.idle] at entered
    · simp [start, Call.idle] at pc
  · simp [start]
  · simp [start]

end Ordered

section Runs

variable {limits : Limits} {tables : QueueTables} {history : List QueueJob} {clock : ℕ}
  {before after : List Action} {middle last : State}

theorem ordered_of_run (run : Run (step limits) (fun state action => keepsOrder state action)
    (start tables history clock) before middle) : Ordered middle := by
  refine invariant_of_run run ordered_start ?_
  intro state next action consistent inv kept fires
  exact inv.step consistent kept fires

/-- Insertions are appended to the history, and each has an identifier handed out later. -/
theorem inserts_of_run (run : Run (step limits) (fun state action => keepsOrder state action)
    middle after last) : ∃ more, last.inserts = middle.inserts ++ more := by
  refine run.invariant (fun state => ∃ more, state.inserts = middle.inserts ++ more)
    ⟨[], by simp⟩ ?_
  rintro state next action ⟨more, grown⟩ _ fires
  rcases inserts_step fires with same | ⟨c, j, _, appended, _⟩
  · exact ⟨more, same.trans grown⟩
  · exact ⟨more ++ [state.heap j], by rw [appended, grown, List.append_assoc]⟩

/-- First in, first out. Along a run that keeps the order the numbers of a queue grow with the
insertions; and when a dispatcher is about to switch a job to running, no job of its queue waits
that was inserted before the insertion of this one began. -/
theorem first_in_first_out
    (run : Run (step limits) (fun state action => keepsOrder state action)
      (start tables history clock) before middle)
    (more : Run (step limits) (fun state action => keepsOrder state action) middle after last) :
    (last.inserts.Pairwise fun older newer =>
      older.queueId = newer.queueId → older.seq < newer.seq) ∧
    ∀ t queue head pick, last.routines t = .dispatchMark queue head pick →
      ∀ older ∈ middle.inserts, older.queueId = (last.heap head).queueId →
        middle.nextJob ≤ head →
          ¬((last.heap older.id).status = .waiting ∧ last.drops older.id = .absent) := by
  have inv := ordered_of_run (run.append more)
  have consistent := consistent_of_run (run.append more)
  refine ⟨inv.sequenced.sorted, ?_⟩
  rintro t queue head pick routine older listed ofQueue later ⟨waits, notDropped⟩
  rcases inserts_of_run more with ⟨added, grown⟩
  have chosen : (last.routines t).chosen = some head := by rw [routine]; rfl
  have entered := consistent.owned.jobs.heads t head (Routine.head_of_chosen chosen)
  rcases inv.joined head (Or.inl entered) with ⟨first, firstListed, rfl⟩
  rcases inv.sequenced.known first firstListed with ⟨_, queueId, seq⟩
  -- the head was inserted after everything in the middle of the run
  have firstAdded : first ∈ added := by
    rw [grown, List.mem_append] at firstListed
    rcases firstListed with early | late
    · have below := ((ordered_of_run run).sequenced.known first early).1
      exact absurd (below.trans_le later) (Nat.lt_irrefl _)
    · exact late
  have sorted := inv.sequenced.sorted
  rw [grown, List.pairwise_append] at sorted
  have smaller := sorted.2.2 older listed first firstAdded (ofQueue.trans queueId)
  have known : older ∈ last.inserts := by
    rw [grown]
    exact List.mem_append_left _ listed
  exact inv.chosen t first.id chosen older known ofQueue (by omega) waits notDropped

/-- The job a dispatcher is about to switch to running. -/
def Routine.marks : Routine → Option JobId
  | .dispatchMark _ head _ => some head
  | _ => none

/-- The job of the first call runs. -/
def firstRuns : List Action :=
  joins 0 ⟨"coder", "", "/v1/chat/completions", 10⟩ 0 ++ dispatches (.call 0) [0]

/-- The dispatcher of the second call takes its job after the first one has finished. -/
def secondTaken : List Action :=
  joins 1 ⟨"coder", "", "/v1/chat/completions", 10⟩ 1 ++
    [.run 0 .start, .run 0 .write, .run 0 (.return ⟨"backend", "provider", 200, none⟩),
      .run 0 .finishLock, .dispatch (.call 1) (.top [1]),
      .dispatch (.call 1) (.pick fun _ => some ("backend", "provider")),
      .dispatch (.call 1) .check]

set_option maxRecDepth 8000 in
theorem first_in_first_out_coder :
    ∃ middle last, Run (step defaultLimits) (fun state action => keepsOrder state action)
        (start coderTables [] 0) firstRuns middle ∧
      Run (step defaultLimits) (fun state action => keepsOrder state action) middle secondTaken
        last ∧
      (last.inserts.Pairwise fun older newer =>
        older.queueId = newer.queueId → older.seq < newer.seq) ∧
      (∃ older ∈ middle.inserts, older.id = 0 ∧
        ¬((last.heap 0).status = .waiting ∧ last.drops 0 = .absent)) := by
  have ran : ((execWhen (step defaultLimits) keepsOrder (start coderTables [] 0) firstRuns).bind
      fun middle => (execWhen (step defaultLimits) keepsOrder middle secondTaken).map fun last =>
        (middle.inserts.map fun job => (job.id, job.queueId), middle.nextJob,
          (last.routines (.call 1)).marks, (last.heap 1).queueId)) =
            some ([(0, 1)], 1, some 1, 1) := by
    decide
  rcases Option.bind_eq_some_iff.mp ran with ⟨middle, executed, later⟩
  rcases Option.map_eq_some_iff.mp later with ⟨last, executedLater, facts⟩
  simp only [Prod.mk.injEq] at facts
  rcases facts with ⟨inserts, nextJob, marks, queueId⟩
  have run := run_of_execWhen executed
  have more := run_of_execWhen executedLater
  have order := first_in_first_out run more
  refine ⟨middle, last, run, more, order.1, ?_⟩
  have listed : (0, 1) ∈ middle.inserts.map fun job => (job.id, job.queueId) := by simp [inserts]
  rcases List.mem_map.mp listed with ⟨older, olderListed, same⟩
  simp only [Prod.mk.injEq] at same
  refine ⟨older, olderListed, same.1, ?_⟩
  cases routine : last.routines (.call 1) with
  | dispatchMark queue head pick =>
      have isSecond : head = 1 := by simpa [routine, Routine.marks] using marks
      subst isSecond
      rw [← same.1]
      exact order.2 _ _ _ _ routine older olderListed (same.2.trans queueId.symm) nextJob.le
  | _ => simp [routine, Routine.marks] at marks

/-- A call up to the first statement of `InsertQueueJob`. -/
def selects (c : CallId) (queues : ℕ) : List Action :=
  [.handle c (.arrive ⟨"coder", "", "/v1/chat/completions", 10⟩), .handle c .enter] ++
    (quietPurge queues).map (.purge (.call c)) ++ [.handle c .counts, .handle c .insertSelect]

/-- Two calls insert their rows after both have read the greatest number. -/
def insertsOverlap : List Action :=
  selects 0 0 ++ selects 1 0 ++ [.handle 0 (.insertWrite true), .handle 1 (.insertWrite true)]

/-- A second call is dispatched before the first one has registered its waiter. -/
def overtakes : List Action :=
  joins 1 ⟨"coder", "", "/v1/chat/completions", 10⟩ 1 ++
    [.dispatch (.call 1) (.top [1]),
      .dispatch (.call 1) (.pick fun _ => some ("backend", "provider")),
      .dispatch (.call 1) .check]

set_option maxRecDepth 8000 in
/-- Two jobs of a queue have the same number; and a job is switched to running while one that was
inserted before still waits. -/
theorem not_first_in_first_out :
    (∃ state, Run (step defaultLimits) (fun _ _ => True) (start coderTables [] 0) insertsOverlap
        state ∧ state.inserts.map (fun job => (job.id, job.queueId, job.seq)) =
          [(0, 1, 1), (1, 1, 1)]) ∧
    (∃ middle last, Run (step defaultLimits) (fun _ _ => True) (start coderTables [] 0)
        (selects 0 0 ++ [.handle 0 (.insertWrite true)]) middle ∧
      Run (step defaultLimits) (fun _ _ => True) middle overtakes last ∧
      middle.inserts.map (fun job => (job.id, job.queueId)) = [(0, 1)] ∧ middle.nextJob = 1 ∧
      (last.routines (.call 1)).marks = some 1 ∧ (last.heap 1).queueId = 1 ∧
      (last.heap 0).status = .waiting ∧ last.drops 0 = .absent) := by
  constructor
  · have ran : ((exec (step defaultLimits) (start coderTables [] 0) insertsOverlap).map fun state =>
        state.inserts.map fun job => (job.id, job.queueId, job.seq)) =
          some [(0, 1, 1), (1, 1, 1)] := by
      decide
    rcases Option.map_eq_some_iff.mp ran with ⟨state, executed, inserts⟩
    exact ⟨state, run_of_exec executed, inserts⟩
  · have ran : ((exec (step defaultLimits) (start coderTables [] 0)
        (selects 0 0 ++ [.handle 0 (.insertWrite true)])).bind fun middle =>
          (exec (step defaultLimits) middle overtakes).map fun last =>
            ((middle.inserts.map fun job => (job.id, job.queueId), middle.nextJob),
              ((last.routines (.call 1)).marks, (last.heap 1).queueId),
              ((last.heap 0).status, last.drops 0))) =
                some (([(0, 1)], 1), (some 1, 1), (.waiting, .absent)) := by
      decide
    rcases Option.bind_eq_some_iff.mp ran with ⟨middle, executed, later⟩
    rcases Option.map_eq_some_iff.mp later with ⟨last, executedLater, facts⟩
    simp only [Prod.mk.injEq] at facts
    rcases facts with ⟨⟨inserts, nextJob⟩, ⟨marks, queueId⟩, waits, notDropped⟩
    exact ⟨middle, last, run_of_exec executed, run_of_exec executedLater, inserts, nextJob, marks,
      queueId, waits, notDropped⟩

end Runs

end MikroLLM.Queue
