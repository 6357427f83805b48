import MikroLLM.A2A.Reading
import MikroLLM.Library.Paging

/-!
# Reading a transcript page by page

An agent that polls `GET /a2a/messages` with the largest id it was given. Every
group gives its next hundred rows, the hidden ones among them, and the page has
the first hundred of what is left. A row that is visible can lie behind hidden
ones that fill the hundred of its group.
-/

namespace MikroLLM.A2A

open Domain Go Library Store

/-- The ids are those of `AUTOINCREMENT`. -/
def RowIds (tables : A2ATables) : Prop :=
  ∀ message ∈ tables.messages, 0 < message.id ∧ message.id < 2 ^ 63

/-- The request of an agent for the messages after an id. -/
def askAfter (env : Env) (tables : A2ATables) (bearer group : String) (after : ℕ) :
    Except ApiError (List PublicMessage) :=
  listMessages env tables bearer (toString after) group

/-- A line of these groups that the agent may see. -/
def VisibleIn (tables : A2ATables) (self : A2AUpstream) (groups : List A2AGroup)
    (line : PublicMessage) : Prop :=
  ∃ group ∈ groups, ∃ message ∈ tables.messages, message.groupId = group.id ∧
    visibleTo self message = true ∧ line = publicMessage group.name message

/-- Every visible line once, in the order of the ids. -/
structure Complete (tables : A2ATables) (reader : A2AUpstream) (groups : List A2AGroup)
    (returned : List PublicMessage) : Prop where
  increasing : returned.Pairwise fun first second => first.id < second.id
  exact : ∀ line, line ∈ returned ↔ VisibleIn tables reader groups line

/-- The visible rows among the next hundred of each group. -/
def near (tables : A2ATables) (self : A2AUpstream) (groups : List A2AGroup) (after : ℕ) :
    List A2AMessage :=
  groups.flatMap fun group =>
    (tables.listA2AMessages group.id after 100).filter (visibleTo self)

/-- A visible row that is not among the next hundred of its group comes after a page of rows that
are, or after all of them when these are fewer. -/
def Unburied (tables : A2ATables) (self : A2AUpstream) (groups : List A2AGroup) (after : ℕ) : Prop :=
  ∀ group ∈ groups, ∀ message ∈ tables.messages, message.groupId = group.id →
    visibleTo self message = true → after < message.id →
    message ∉ tables.listA2AMessages group.id after 100 →
      near tables self groups after ≠ [] ∧
        (100 ≤ ((near tables self groups after).filter (·.id < message.id)).length ∨
          ∀ other ∈ near tables self groups after, other.id < message.id)

section Rows

variable {tables : A2ATables} {self : A2AUpstream} {groups : List A2AGroup} {after : ℕ}

theorem mem_listA2AMessages {groupId : GroupId} {limit : ℤ} {message : A2AMessage}
    (listed : message ∈ tables.listA2AMessages groupId after limit) :
    message ∈ tables.messages ∧ message.groupId = groupId ∧ after < message.id := by
  have inside := mem_orderBy.mp (List.mem_of_mem_take listed)
  have notNegative : ¬(after : ℤ) < 0 := by omega
  simp only [if_neg notNegative, List.mem_filter, Bool.and_eq_true, decide_eq_true_eq] at inside
  exact ⟨inside.1, inside.2.1, by omega⟩

theorem mem_near {message : A2AMessage} :
    message ∈ near tables self groups after ↔
      ∃ group ∈ groups, message ∈ tables.listA2AMessages group.id after 100 ∧
        visibleTo self message = true := by
  simp [near]

/-- The lines of the next hundred rows of each group. -/
def merged (tables : A2ATables) (self : A2AUpstream) (groups : List A2AGroup) (after : ℕ) :
    List PublicMessage :=
  groups.flatMap fun group =>
    ((tables.listA2AMessages group.id after 100).filter (visibleTo self)).map
      (publicMessage group.name)

theorem messagesOf_eq (tables : A2ATables) (self : A2AUpstream) (groups : List A2AGroup)
    (after : ℕ) :
    messagesOf tables self after groups =
      (orderBy (·.id) (merged tables self groups after)).take 100 :=
  rfl

theorem mem_merged {line : PublicMessage} :
    line ∈ merged tables self groups after ↔
      ∃ group ∈ groups, ∃ message ∈ tables.listA2AMessages group.id after 100,
        visibleTo self message = true ∧ line = publicMessage group.name message := by
  simp only [merged, List.mem_flatMap, List.mem_map, List.mem_filter]
  constructor
  · rintro ⟨group, mine, message, ⟨listed, visible⟩, rfl⟩
    exact ⟨group, mine, message, listed, visible, rfl⟩
  · rintro ⟨group, mine, message, listed, visible, rfl⟩
    exact ⟨group, mine, message, ⟨listed, visible⟩, rfl⟩

theorem merged_map_id (tables : A2ATables) (self : A2AUpstream) (groups : List A2AGroup) (after : ℕ) :
    (merged tables self groups after).map (·.id) = (near tables self groups after).map (·.id) := by
  simp only [merged, near, List.map_flatMap, List.map_map]
  rfl

/-- A row is in one group only. -/
theorem near_id_nodup (distinct : (groups.map (·.id)).Nodup) :
    ((near tables self groups after).map (·.id)).Nodup := by
  have rows : ∀ message ∈ near tables self groups after, message ∈ tables.messages := by
    intro message inside
    rcases mem_near.mp inside with ⟨group, _, listed, _⟩
    exact (mem_listA2AMessages listed).1
  refine List.Nodup.map_on ?_ ?_
  · intro first firstInside second secondInside sameId
    exact A2ATables.message_ext (rows first firstInside) (rows second secondInside) sameId
  · rw [near, List.nodup_flatMap]
    constructor
    · intro group _
      refine List.Nodup.filter _ (List.Nodup.sublist (List.take_sublist _ _) ?_)
      exact nodup_orderBy.mpr (tables.messages_nodup.filter _)
    · rw [List.Nodup, List.pairwise_map] at distinct
      refine distinct.imp ?_
      intro first second differ message inFirst inSecond
      have ofFirst := mem_listA2AMessages (List.mem_of_mem_filter inFirst)
      have ofSecond := mem_listA2AMessages (List.mem_of_mem_filter inSecond)
      exact differ (ofFirst.2.1.symm.trans ofSecond.2.1)

theorem sorted_merged (self : A2AUpstream) (after : ℕ) (distinct : (groups.map (·.id)).Nodup) :
    (orderBy (·.id) (merged tables self groups after)).Pairwise
      fun first second => first.id < second.id := by
  have ids : ((orderBy (·.id) (merged tables self groups after)).map (·.id)).Nodup := by
    rw [((orderBy_perm _ _).map _).nodup_iff, merged_map_id]
    exact near_id_nodup distinct
  rw [List.Nodup, List.pairwise_map] at ids
  refine ((orderBy_sorted _).and ids).imp ?_
  rintro first second ⟨le, differ⟩
  exact lt_of_le_of_ne le differ

theorem length_filter_merged (threshold : ℕ) :
    ((orderBy (·.id) (merged tables self groups after)).filter (·.id < threshold)).length =
      ((near tables self groups after).filter (·.id < threshold)).length := by
  rw [((orderBy_perm _ _).filter _).length_eq]
  simp only [← List.countP_eq_length_filter]
  have sameIds : ((merged tables self groups after).map (·.id)).countP (· < threshold) =
      ((near tables self groups after).map (·.id)).countP (· < threshold) := by
    rw [merged_map_id]
  rwa [List.countP_map, List.countP_map] at sameIds

theorem forall_merged_iff (p : MessageId → Prop) :
    (∀ line ∈ orderBy (·.id) (merged tables self groups after), p line.id) ↔
      ∀ message ∈ near tables self groups after, p message.id := by
  simp only [mem_orderBy]
  have forIds : ∀ {Entry : Type} (entries : List Entry) (id : Entry → MessageId),
      (∀ entry ∈ entries, p (id entry)) ↔ ∀ found ∈ entries.map id, p found := by
    intro Entry entries id
    simp
  rw [forIds, merged_map_id, ← forIds]

theorem visible_of_merged {line : PublicMessage} (inside : line ∈ merged tables self groups after) :
    VisibleIn tables self groups line ∧ after < line.id := by
  rcases mem_merged.mp inside with ⟨group, mine, message, listed, visible, rfl⟩
  rcases mem_listA2AMessages listed with ⟨isRow, ofGroup, beyond⟩
  exact ⟨⟨group, mine, message, isRow, ofGroup, visible, rfl⟩, beyond⟩

/-- A row that is not among the next hundred of its group is not on the page. -/
theorem not_mem_merged {group : A2AGroup} {message : A2AMessage} (isRow : message ∈ tables.messages)
    (ofGroup : message.groupId = group.id)
    (buried : message ∉ tables.listA2AMessages group.id after 100) :
    publicMessage group.name message ∉ merged tables self groups after := by
  intro inside
  rcases mem_merged.mp inside with ⟨other, _, row, listed, _, same⟩
  have facts := mem_listA2AMessages listed
  have sameId : message.id = row.id := congrArg PublicMessage.id same
  have sameRow := A2ATables.message_ext isRow facts.1 sameId
  subst sameRow
  rw [← facts.2.1, ofGroup] at listed
  exact buried listed

/-- A page leaves out later lines only when no row is buried. -/
theorem steady_iff (distinct : (groups.map (·.id)).Nodup) :
    Steady PublicMessage.id (VisibleIn tables self groups) (messagesOf tables self after groups)
        after ↔ Unburied tables self groups after := by
  have sorted : (orderBy (·.id) (merged tables self groups after)).Pairwise
      fun first second => first.id < second.id := sorted_merged self after distinct
  have some_iff : messagesOf tables self after groups ≠ [] ↔ near tables self groups after ≠ [] := by
    have lengths := congrArg List.length (merged_map_id tables self groups after)
    have perm := (orderBy_perm (fun line : PublicMessage => line.id)
      (merged tables self groups after)).length_eq
    simp only [List.length_map] at lengths
    rw [messagesOf_eq, ← List.length_pos_iff, ← List.length_pos_iff, List.length_take]
    omega
  constructor
  · intro steady group mine message isRow ofGroup visible beyond buried
    have missing : publicMessage group.name message ∉ merged tables self groups after :=
      not_mem_merged isRow ofGroup buried
    have leaves := steady (publicMessage group.name message)
      ⟨group, mine, message, isRow, ofGroup, visible, rfl⟩ beyond
      fun inside => missing (mem_orderBy.mp (List.mem_of_mem_take inside))
    refine ⟨some_iff.mp leaves.1, ?_⟩
    have firsts := (take_lt_iff sorted).mp leaves.2
    rw [length_filter_merged, forall_merged_iff (· < (publicMessage group.name message).id)] at firsts
    exact firsts
  · rintro unburied line ⟨group, mine, message, isRow, ofGroup, visible, rfl⟩ beyond missing
    by_cases listed : message ∈ tables.listA2AMessages group.id after 100
    · have inside : publicMessage group.name message ∈
          orderBy (·.id) (merged tables self groups after) :=
        mem_orderBy.mpr (mem_merged.mpr ⟨group, mine, message, listed, visible, rfl⟩)
      refine ⟨some_iff.mpr (List.ne_nil_of_mem (mem_near.mpr ⟨group, mine, listed, visible⟩)), ?_⟩
      intro other inPage
      exact lt_of_not_mem_take sorted inside missing inPage
    · have keeps := unburied group mine message isRow ofGroup visible beyond listed
      refine ⟨some_iff.mpr keeps.1, (take_lt_iff sorted).mpr ?_⟩
      rw [length_filter_merged, forall_merged_iff (· < (publicMessage group.name message).id)]
      exact keeps.2

end Rows

section Runs

variable {env : Env} {tables : A2ATables} {bearer group : String} {self : A2AUpstream}
  {groups : List A2AGroup}

theorem memberGroups_id_nodup {agentId : AgentId}
    (member : memberGroups env tables agentId group = .ok groups) :
    (groups.map (·.id)).Nodup := by
  have mine : ((tables.agentGroups agentId).map (·.id)).Nodup := by
    refine List.Nodup.map_on ?_ (tables.agentGroups_nodup agentId)
    intro first firstMine second secondMine sameId
    exact A2ATables.group_ext (A2ATables.mem_agentGroups.mp firstMine).1
      (A2ATables.mem_agentGroups.mp secondMine).1 sameId
  unfold memberGroups at member
  simp only at member
  split at member
  · split at member
    · cases member
    · cases member
      exact mine
  · split at member
    · cases member
    · split at member
      · cases member
        exact List.nodup_singleton _
      · cases member

/-- A cursor above all ids is read as one. -/
theorem listA2AMessages_parsed (ids : RowIds tables) (groupId : GroupId) (after : ℕ) (limit : ℤ) :
    tables.listA2AMessages groupId (parseInt (toString after)) limit =
      tables.listA2AMessages groupId after limit := by
  simp only [A2ATables.listA2AMessages, parseInt_toString]
  congr 2
  apply List.filter_congr
  intro message isRow
  have small : (message.id : ℤ) < 2 ^ 63 := by exact_mod_cast (ids message isRow).2
  congr 1
  rw [decide_eq_decide]
  omega

theorem messagesOf_parsed (ids : RowIds tables) (after : ℕ) :
    messagesOf tables self (parseInt (toString after)) groups =
      messagesOf tables self after groups := by
  unfold messagesOf
  simp only [listA2AMessages_parsed ids]

theorem askAfter_eq (ids : RowIds tables) (isCaller : caller env tables bearer = .ok self)
    (member : memberGroups env tables self.id group = .ok groups) (after : ℕ) :
    askAfter env tables bearer group after = .ok (messagesOf tables self after groups) := by
  rw [← messagesOf_parsed ids]
  simp only [askAfter, listMessages, isCaller, bind, Except.bind, member]
  rfl

theorem messagesOf_ascending (ids : RowIds tables) (self : A2AUpstream)
    (distinct : (groups.map (·.id)).Nodup) :
    Ascending PublicMessage.id (fun after => messagesOf tables self after groups) (2 ^ 63) := by
  constructor
  · intro after
    exact (sorted_merged self after distinct).sublist (List.take_sublist _ _)
  · intro after line inPage
    exact (visible_of_merged (mem_orderBy.mp (List.mem_of_mem_take inPage))).2
  · intro after line inPage
    rcases visible_of_merged (mem_orderBy.mp (List.mem_of_mem_take inPage)) with
      ⟨⟨group, _, message, isRow, _, _, rfl⟩, _⟩
    exact (ids message isRow).2

/-- Paging from the start comes to an empty page, and it gives every visible line once and in
order exactly when none of its requests meets a buried row. -/
theorem pages_complete_iff (ids : RowIds tables) (isCaller : caller env tables bearer = .ok self)
    (member : memberGroups env tables self.id group = .ok groups) :
    (∃ returned, Pages PublicMessage.id (askAfter env tables bearer group) 0 returned) ∧
      ∀ returned, Pages PublicMessage.id (askAfter env tables bearer group) 0 returned →
        (Complete tables self groups returned ↔
          ∀ after, Requested PublicMessage.id (askAfter env tables bearer group) 0 after →
            Unburied tables self groups after) := by
  have distinct := memberGroups_id_nodup member
  have ascending := messagesOf_ascending ids self distinct
  have answers := askAfter_eq ids isCaller member
  refine ⟨ascending.exists_pages answers 0, fun returned pages => ?_⟩
  rcases ascending.returned_spec answers pages with ⟨increasing, fromPages⟩
  have complete : (∀ line, VisibleIn tables self groups line → 0 < line.id → line ∈ returned) ↔ _ :=
    ascending.complete_iff answers pages
  simp only [steady_iff distinct] at complete
  rw [← complete]
  constructor
  · intro whole line visible _
    exact (whole.exact line).mpr visible
  · intro whole
    refine ⟨increasing, fun line => ⟨fun inside => ?_, fun visible => ?_⟩⟩
    · rcases fromPages line inside with ⟨_, after, inPage⟩
      exact (visible_of_merged (mem_orderBy.mp (List.mem_of_mem_take inPage))).1
    · refine whole line visible ?_
      rcases visible with ⟨_, _, message, isRow, _, _, rfl⟩
      exact (ids message isRow).1

end Runs

/-- A hundred messages that were rejected, and one that is posted. -/
def rejectedTables : A2ATables where
  agents := [holix, shop]
  groups := [orders]
  members := [(1, 1), (1, 2)]
  messages := (List.range 101).map fun n =>
    ⟨n + 1, 1, "shop", "", "Need 2 items", if n < 100 then .rejected else .posted, ""⟩
  nextAgent := 3
  nextMessage := 102
  agents_id_nodup := ordersTables.agents_id_nodup
  agents_name_nodup := ordersTables.agents_name_nodup
  agents_id_lt := ordersTables.agents_id_lt
  groups_id_nodup := ordersTables.groups_id_nodup
  groups_name_nodup := ordersTables.groups_name_nodup
  members_nodup := ordersTables.members_nodup
  messages_id_nodup := by decide
  messages_id_lt := by decide

theorem rejectedTables_rowIds : RowIds rejectedTables := by
  unfold RowIds
  decide

theorem rejectedTables_caller : caller plainEnv rejectedTables "agt-1" = .ok holix := by
  decide

theorem rejectedTables_groups : memberGroups plainEnv rejectedTables holix.id "" = .ok [orders] := by
  decide

theorem pages_complete_iff_rejected :
    ∃ returned, Pages PublicMessage.id (askAfter plainEnv rejectedTables "agt-1" "") 0 returned ∧
      (Complete rejectedTables holix [orders] returned ↔
        ∀ after, Requested PublicMessage.id (askAfter plainEnv rejectedTables "agt-1" "") 0 after →
          Unburied rejectedTables holix [orders] after) := by
  rcases pages_complete_iff rejectedTables_rowIds rejectedTables_caller rejectedTables_groups with
    ⟨⟨returned, pages⟩, completeIff⟩
  exact ⟨returned, pages, completeIff returned pages⟩

/-- The first page is empty, and the posted message never comes. -/
theorem not_pages_complete :
    ¬∀ (env : Env) (tables : A2ATables) (bearer group : String) (self : A2AUpstream)
        (groups : List A2AGroup) (returned : List PublicMessage), RowIds tables →
      caller env tables bearer = .ok self → memberGroups env tables self.id group = .ok groups →
      Pages PublicMessage.id (askAfter env tables bearer group) 0 returned →
      Complete tables self groups returned := by
  intro claim
  have empty : askAfter plainEnv rejectedTables "agt-1" "" 0 = .ok [] := by
    decide
  have complete := claim plainEnv rejectedTables "agt-1" "" holix [orders] [] rejectedTables_rowIds
    rejectedTables_caller rejectedTables_groups (.ended empty)
  have visible : VisibleIn rejectedTables holix [orders]
      (publicMessage "orders" ⟨101, 1, "shop", "", "Need 2 items", .posted, ""⟩) := by
    refine ⟨orders, List.mem_singleton_self _, ⟨101, 1, "shop", "", "Need 2 items", .posted, ""⟩,
      ?_, rfl, rfl, rfl⟩
    decide
  exact absurd ((complete.exact _).mpr visible) List.not_mem_nil

end MikroLLM.A2A
