import MikroLLM.A2A.Groups

/-!
# What an agent can read

An agent's directory and transcript are functions of its own row, its groups,
their members and the lines of these groups that it may see. The directory lists
the agents that share a group with it, each once, with the shared groups.
-/

namespace MikroLLM.A2A

open Domain Go Library Store

/-- Two stores agree on what an agent may read. -/
structure AgreeFor (reader : A2AUpstream) (first second : A2ATables) : Prop where
  groups : ∀ group, group ∈ first.agentGroups reader.id ↔ group ∈ second.agentGroups reader.id
  members : ∀ group ∈ first.agentGroups reader.id, ∀ agent,
    agent ∈ first.listGroupAgents group.id ↔ agent ∈ second.listGroupAgents group.id
  messages : ∀ group ∈ first.agentGroups reader.id, ∀ message, message.groupId = group.id →
    (message.status = .posted ∨ message.fromAgent = reader.name) →
      (message ∈ first.messages ↔ message ∈ second.messages)

/-- No group of the agent has a hundred messages. -/
def FewMessages (reader : A2AUpstream) (tables : A2ATables) : Prop :=
  ∀ group ∈ tables.agentGroups reader.id,
    (tables.messages.filter (·.groupId = group.id)).length < 100

section Agreement

variable {reader : A2AUpstream} {first second : A2ATables}

theorem AgreeFor.agentGroups_eq (agree : AgreeFor reader first second) :
    first.agentGroups reader.id = second.agentGroups reader.id := by
  apply orderBy_congr (first.groups_nodup.filter _) (second.groups_nodup.filter _)
  · intro group
    simpa using agree.groups group
  · exact A2ATables.groups_order_distinct _ fun group => List.mem_of_mem_filter

theorem AgreeFor.listGroupAgents_eq (agree : AgreeFor reader first second) {group : A2AGroup}
    (mine : group ∈ first.agentGroups reader.id) :
    first.listGroupAgents group.id = second.listGroupAgents group.id := by
  apply orderBy_congr (first.agents_nodup.filter _) (second.agents_nodup.filter _)
  · intro agent
    simpa using agree.members group mine agent
  · exact A2ATables.agents_order_distinct _ fun agent => List.mem_of_mem_filter

/-- The reader's groups among the groups of another agent, by name. -/
theorem intersection_eq (tables : A2ATables) (readerId agentId : AgentId) :
    intersection tables (tables.agentGroups readerId) agentId =
      ((tables.agentGroups agentId).filter (· ∈ tables.agentGroups readerId)).map (·.name) := by
  rw [intersection, List.filter_map]
  congr 1
  apply List.filter_congr
  intro group theirs
  have inside := (A2ATables.mem_agentGroups.mp theirs).1
  simp only [Function.comp_apply, decide_eq_decide, List.mem_map]
  constructor
  · rintro ⟨mine, mineListed, sameName⟩
    have mineInside := (A2ATables.mem_agentGroups.mp mineListed).1
    exact A2ATables.group_ext_name mineInside inside sameName ▸ mineListed
  · intro mine
    exact ⟨group, mine, rfl⟩

theorem AgreeFor.intersection_eq (agree : AgreeFor reader first second) {group : A2AGroup}
    {agent : A2AUpstream} (mine : group ∈ first.agentGroups reader.id)
    (member : agent ∈ first.listGroupAgents group.id) :
    intersection first (first.agentGroups reader.id) agent.id =
      intersection second (second.agentGroups reader.id) agent.id := by
  have alsoMember := (agree.members group mine agent).mp member
  have inside := (A2ATables.mem_listGroupAgents.mp member).1
  have alsoInside := (A2ATables.mem_listGroupAgents.mp alsoMember).1
  rw [A2A.intersection_eq, A2A.intersection_eq, ← agree.agentGroups_eq]
  congr 1
  rw [A2ATables.filter_agentGroups, A2ATables.filter_agentGroups]
  apply orderBy_congr
  · exact (first.groups_nodup.filter _).filter _
  · exact (second.groups_nodup.filter _).filter _
  · intro shared
    simp only [List.mem_filter, decide_eq_true_eq]
    constructor
    · rintro ⟨⟨_, isMember⟩, isMine⟩
      have still := (agree.members shared isMine agent).mp
        (A2ATables.mem_listGroupAgents.mpr ⟨inside, isMember⟩)
      have alsoMine := A2ATables.mem_agentGroups.mp ((agree.groups shared).mp isMine)
      exact ⟨⟨alsoMine.1, (A2ATables.mem_listGroupAgents.mp still).2⟩, isMine⟩
    · rintro ⟨⟨_, isMember⟩, isMine⟩
      have still := (agree.members shared isMine agent).mpr
        (A2ATables.mem_listGroupAgents.mpr ⟨alsoInside, isMember⟩)
      exact ⟨⟨(A2ATables.mem_agentGroups.mp isMine).1, (A2ATables.mem_listGroupAgents.mp still).2⟩,
        isMine⟩
  · apply A2ATables.groups_order_distinct
    intro shared listed
    exact List.mem_of_mem_filter (List.mem_of_mem_filter listed)

theorem AgreeFor.directoryAgents_eq (agree : AgreeFor reader first second) :
    directoryAgents first reader (first.agentGroups reader.id) =
      directoryAgents second reader (second.agentGroups reader.id) := by
  have sameGroups := agree.agentGroups_eq
  unfold directoryAgents
  rw [← sameGroups]
  congr 1
  apply List.foldl_ext
  intro listed group mine
  rw [← agree.listGroupAgents_eq mine]
  apply List.foldl_ext
  intro inner agent member
  have sameNames := agree.intersection_eq mine member
  rw [← sameGroups] at sameNames
  simp only [directoryStep, sameNames]

/-- With few messages the limit of the query cuts nothing off. -/
theorem listA2AMessages_visible {tables : A2ATables} {group : A2AGroup} {after : ℤ}
    (few : (tables.messages.filter (·.groupId = group.id)).length < 100) :
    (tables.listA2AMessages group.id after 100).filter (visibleTo reader) =
      orderBy (·.id) (tables.messages.filter fun message =>
        message.groupId = group.id && (if after < 0 then 0 else after) < (message.id : ℤ) &&
          visibleTo reader message) := by
  have shorter : (tables.messages.filter fun message => message.groupId = group.id &&
      (if after < 0 then 0 else after) < (message.id : ℤ)).length ≤ 100 := by
    have sub : (tables.messages.filter fun message => message.groupId = group.id &&
        (if after < 0 then 0 else after) < (message.id : ℤ)).Sublist
          (tables.messages.filter (·.groupId = group.id)) := by
      apply List.monotone_filter_right
      intro message holds
      exact (Bool.and_eq_true_iff.mp holds).1
    have le := sub.length_le
    omega
  have limit : (if (100 : ℤ) ≤ 0 ∨ (200 : ℤ) < 100 then (100 : ℤ) else 100).toNat = 100 := by decide
  simp only [A2ATables.listA2AMessages, limit]
  rw [List.take_of_length_le, filter_orderBy, List.filter_filter]
  · congr 1
    apply List.filter_congr
    intro message _
    rw [Bool.and_comm]
  · intro a aListed b bListed sameId
    exact A2ATables.message_ext (List.mem_of_mem_filter aListed) (List.mem_of_mem_filter bListed)
      sameId
  · rw [(orderBy_perm _ _).length_eq]
    exact shorter

theorem AgreeFor.visible_eq (agree : AgreeFor reader first second) {group : A2AGroup} {after : ℤ}
    (mine : group ∈ first.agentGroups reader.id) (few : FewMessages reader first)
    (alsoFew : FewMessages reader second) :
    (first.listA2AMessages group.id after 100).filter (visibleTo reader) =
      (second.listA2AMessages group.id after 100).filter (visibleTo reader) := by
  rw [listA2AMessages_visible (few group mine),
    listA2AMessages_visible (alsoFew group ((agree.groups group).mp mine))]
  apply orderBy_congr (first.messages_nodup.filter _) (second.messages_nodup.filter _)
  · intro message
    simp only [List.mem_filter, Bool.and_eq_true, decide_eq_true_eq]
    apply and_congr_left
    rintro ⟨⟨inGroup, _⟩, visible⟩
    apply agree.messages group mine message inGroup
    simp only [visibleTo, Bool.and_eq_true, decide_eq_true_eq, Bool.not_eq_true',
      Bool.and_eq_false_iff, decide_eq_false_iff_not, not_not] at visible
    cases status : message.status with
    | posted => exact Or.inl rfl
    | pending => exact Or.inr (visible.2.resolve_left (by simp [status]))
    | rejected => exact absurd status visible.1
  · intro a aListed b bListed sameId
    exact A2ATables.message_ext (List.mem_of_mem_filter aListed) (List.mem_of_mem_filter bListed)
      sameId

theorem AgreeFor.messagesOf_eq (agree : AgreeFor reader first second) {groups : List A2AGroup}
    (mine : ∀ group ∈ groups, group ∈ first.agentGroups reader.id)
    (few : FewMessages reader first) (alsoFew : FewMessages reader second) (after : ℤ) :
    messagesOf first reader after groups = messagesOf second reader after groups := by
  unfold messagesOf
  congr 2
  apply List.flatMap_congr
  intro group listed
  rw [agree.visible_eq (mine group listed) few alsoFew]

theorem AgreeFor.memberGroups_eq (agree : AgreeFor reader first second) (env : Env)
    (name : String) :
    memberGroups env first reader.id name = memberGroups env second reader.id name := by
  simp only [memberGroups, agree.agentGroups_eq]

theorem memberGroups_mine {env : Env} {tables : A2ATables} {agentId : AgentId} {name : String}
    {groups : List A2AGroup} (found : memberGroups env tables agentId name = .ok groups) :
    ∀ group ∈ groups, group ∈ tables.agentGroups agentId := by
  unfold memberGroups at found
  simp only at found
  split at found
  · split at found
    · cases found
    · cases found
      exact fun _ => id
  · split at found
    · cases found
    · split at found
      · rename_i group isFirst
        cases found
        intro only listed
        rw [List.mem_singleton] at listed
        exact listed ▸ List.mem_of_find?_eq_some isFirst
      · cases found

end Agreement

section Listing

variable {reader : A2AUpstream} {tables : A2ATables}

/-- The agent is listed in the directory of the reader. -/
def Listed (reader : A2AUpstream) (tables : A2ATables) (agent : A2AUpstream) : Prop :=
  agent ∈ tables.agents ∧ agent.enabled = true ∧ agent.id ≠ reader.id ∧
    ∃ group ∈ tables.groups, (group.id, reader.id) ∈ tables.members ∧
      (group.id, agent.id) ∈ tables.members

/-- The loop state of `directory` lists the profiles of these rows. -/
structure Lists (tables : A2ATables) (mine : List A2AGroup)
    (listed : List AgentId × List PublicAgent) (rows : List A2AUpstream) : Prop where
  seen : ∀ id, id ∈ listed.1 ↔ id ∈ rows.map (·.id)
  cards : listed.2 = rows.map fun agent => publicAgent agent (intersection tables mine agent.id)
  once : (rows.map (·.id)).Nodup

/-- One member is appended, unless it is the reader, disabled, listed or shares no group. -/
theorem Lists.step {mine : List A2AGroup} {listed : List AgentId × List PublicAgent}
    {rows : List A2AUpstream} (lists : Lists tables mine listed rows)
    (reader member : A2AUpstream) :
    ∃ rows', Lists tables mine (directoryStep tables reader mine listed member) rows' ∧
      ((rows' = rows ∧ (member.id = reader.id ∨ member.enabled = false ∨
          member.id ∈ rows.map (·.id) ∨ intersection tables mine member.id = [])) ∨
        (rows' = rows ++ [member] ∧ member.id ≠ reader.id ∧ member.enabled = true ∧
          intersection tables mine member.id ≠ [])) := by
  unfold directoryStep
  split
  · rename_i skipped
    refine ⟨rows, lists, Or.inl ⟨rfl, ?_⟩⟩
    simp only [Bool.or_eq_true, decide_eq_true_eq, Bool.not_eq_true', lists.seen] at skipped
    rcases skipped with (isReader | disabled) | seen
    · exact Or.inl isReader
    · exact Or.inr (Or.inl disabled)
    · exact Or.inr (Or.inr (Or.inl seen))
  · rename_i notSkipped
    simp only [Bool.or_eq_true, decide_eq_true_eq, Bool.not_eq_true', lists.seen, not_or,
      Bool.not_eq_false] at notSkipped
    rcases notSkipped with ⟨⟨notReader, enabled⟩, notSeen⟩
    dsimp only
    split
    · rename_i nothing
      exact ⟨rows, lists, Or.inl ⟨rfl, Or.inr (Or.inr (Or.inr nothing))⟩⟩
    · rename_i shared
      refine ⟨rows ++ [member], ?_, Or.inr ⟨rfl, notReader, enabled, shared⟩⟩
      constructor
      · intro id
        rw [List.mem_cons, lists.seen, List.map_append, List.mem_append, List.map_singleton,
          List.mem_singleton]
        exact or_comm
      · simp [lists.cards]
      · rw [List.map_append, List.map_singleton, List.nodup_append]
        refine ⟨lists.once, List.nodup_singleton _, ?_⟩
        intro id before last isLast
        rw [List.mem_singleton] at isLast
        rintro rfl
        exact notSeen (isLast ▸ before)

/-- All members of a list are appended that may be and are not there. -/
theorem Lists.foldl {mine : List A2AGroup} {listed : List AgentId × List PublicAgent}
    {rows : List A2AUpstream} (lists : Lists tables mine listed rows) (reader : A2AUpstream)
    (members : List A2AUpstream) :
    ∃ rows', Lists tables mine (members.foldl (directoryStep tables reader mine) listed) rows' ∧
      (∀ agent ∈ rows', agent ∈ rows ∨ (agent ∈ members ∧ agent.id ≠ reader.id ∧
        agent.enabled = true)) ∧
      (∀ id ∈ rows.map (·.id), id ∈ rows'.map (·.id)) ∧
      ∀ agent ∈ members, agent.id ≠ reader.id → agent.enabled = true →
        intersection tables mine agent.id ≠ [] → agent.id ∈ rows'.map (·.id) := by
  induction members generalizing listed rows with
  | nil =>
      refine ⟨rows, lists, ?_, ?_, ?_⟩
      · exact fun _ => Or.inl
      · exact fun _ => id
      · simp
  | cons member rest ih =>
      rcases lists.step reader member with ⟨middle, listsMiddle, moved⟩
      rcases ih listsMiddle with ⟨rows', lists', only, kept, all⟩
      have grows : ∀ id ∈ rows.map (·.id), id ∈ middle.map (·.id) := by
        intro id listedId
        rcases moved with ⟨rfl, _⟩ | ⟨rfl, _⟩
        · exact listedId
        · rw [List.map_append]
          exact List.mem_append_left _ listedId
      refine ⟨rows', lists', ?_, ?_, ?_⟩
      · intro agent listedAgent
        rcases only agent listedAgent with inMiddle | ⟨inRest, notReader, enabled⟩
        · rcases moved with ⟨rfl, _⟩ | ⟨rfl, notReader, enabled, _⟩
          · exact Or.inl inMiddle
          · rcases List.mem_append.mp inMiddle with old | new
            · exact Or.inl old
            · rw [List.mem_singleton] at new
              subst new
              exact Or.inr ⟨List.mem_cons_self, notReader, enabled⟩
        · exact Or.inr ⟨List.mem_cons_of_mem _ inRest, notReader, enabled⟩
      · intro id listedId
        exact kept id (grows id listedId)
      · intro agent listedAgent notReader enabled shared
        rcases List.mem_cons.mp listedAgent with rfl | inRest
        · apply kept
          rcases moved with ⟨rfl, isReader | disabled | seen | nothing⟩ | ⟨rfl, _⟩
          · exact absurd isReader notReader
          · rw [enabled] at disabled
            cases disabled
          · exact seen
          · exact absurd nothing shared
          · simp
        · exact all agent inRest notReader enabled shared

theorem mem_intersection {readerId agentId : AgentId} {name : String} :
    name ∈ intersection tables (tables.agentGroups readerId) agentId ↔
      ∃ group ∈ tables.groups, (group.id, readerId) ∈ tables.members ∧
        (group.id, agentId) ∈ tables.members ∧ group.name = name := by
  rw [intersection_eq]
  simp only [List.mem_map, List.mem_filter, A2ATables.mem_agentGroups, decide_eq_true_eq]
  constructor
  · rintro ⟨group, ⟨⟨inside, theirs⟩, _, mine⟩, sameName⟩
    exact ⟨group, inside, mine, theirs, sameName⟩
  · rintro ⟨group, inside, mine, theirs, sameName⟩
    exact ⟨group, ⟨⟨inside, theirs⟩, inside, mine⟩, sameName⟩

theorem intersection_nodup (readerId agentId : AgentId) :
    (intersection tables (tables.agentGroups readerId) agentId).Nodup := by
  rw [intersection_eq]
  apply List.Nodup.map_on
  · intro group listed other alsoListed sameName
    have inside := A2ATables.mem_agentGroups.mp (List.mem_of_mem_filter listed)
    have alsoInside := A2ATables.mem_agentGroups.mp (List.mem_of_mem_filter alsoListed)
    exact A2ATables.group_ext_name inside.1 alsoInside.1 sameName
  · exact (tables.agentGroups_nodup agentId).filter _

/-- The directory lists exactly the enabled agents that share a group with the reader, each once. -/
theorem directoryAgents_lists (reader : A2AUpstream) (tables : A2ATables) :
    ∃ rows : List A2AUpstream, rows.Nodup ∧ (∀ agent, agent ∈ rows ↔ Listed reader tables agent) ∧
      directoryAgents tables reader (tables.agentGroups reader.id) =
        rows.map fun agent =>
          publicAgent agent (intersection tables (tables.agentGroups reader.id) agent.id) := by
  have start : Lists tables (tables.agentGroups reader.id) ([], []) [] := by
    constructor <;> simp
  rcases start.foldl reader
      ((tables.agentGroups reader.id).flatMap fun group => tables.listGroupAgents group.id) with
    ⟨rows, lists, only, _, all⟩
  rw [List.foldl_flatMap] at lists
  refine ⟨rows, lists.once.of_map, ?_, lists.cards⟩
  have inside : ∀ agent ∈ rows, agent ∈ tables.agents := by
    intro agent listed
    rcases only agent listed with absent | ⟨member, _⟩
    · cases absent
    · rcases List.mem_flatMap.mp member with ⟨group, _, inGroup⟩
      exact (A2ATables.mem_listGroupAgents.mp inGroup).1
  intro agent
  constructor
  · intro listed
    rcases only agent listed with absent | ⟨member, notReader, enabled⟩
    · cases absent
    · rcases List.mem_flatMap.mp member with ⟨group, mine, inGroup⟩
      rw [A2ATables.mem_agentGroups] at mine
      rw [A2ATables.mem_listGroupAgents] at inGroup
      exact ⟨inGroup.1, enabled, notReader, group, mine.1, mine.2, inGroup.2⟩
  · rintro ⟨isAgent, enabled, notReader, group, isGroup, mine, theirs⟩
    have shared : intersection tables (tables.agentGroups reader.id) agent.id ≠ [] :=
      List.ne_nil_of_mem (mem_intersection.mpr ⟨group, isGroup, mine, theirs, rfl⟩)
    have member : agent ∈ (tables.agentGroups reader.id).flatMap fun group =>
        tables.listGroupAgents group.id :=
      List.mem_flatMap.mpr ⟨group, A2ATables.mem_agentGroups.mpr ⟨isGroup, mine⟩,
        A2ATables.mem_listGroupAgents.mpr ⟨isAgent, theirs⟩⟩
    rcases List.mem_map.mp (all agent member notReader enabled shared) with ⟨row, listed, sameId⟩
    exact A2ATables.agent_ext (inside row listed) isAgent sameId ▸ listed

/-- The directory answers with exactly the agents that share a group with the reader, and of each
one with exactly the groups that they share. -/
def DirectoryExact (reader : A2AUpstream) (tables : A2ATables) (answer : Directory) : Prop :=
  ∃ (rows : List A2AUpstream) (shared : AgentId → List String), rows.Nodup ∧
    (∀ agent, agent ∈ rows ↔ Listed reader tables agent) ∧
    answer.agents = rows.map (fun agent => publicAgent agent (shared agent.id)) ∧
    ∀ agentId, (shared agentId).Nodup ∧ ∀ name, name ∈ shared agentId ↔
      ∃ group ∈ tables.groups, (group.id, reader.id) ∈ tables.members ∧
        (group.id, agentId) ∈ tables.members ∧ group.name = name

theorem caller_eq {env : Env} {bearer : String} {self : A2AUpstream}
    (found : tables.getA2AByAuthHash (env.hashKey bearer) = some reader)
    (isCaller : caller env tables bearer = .ok self) : self = reader := by
  unfold caller at isCaller
  split at isCaller
  · rw [found] at isCaller
    simp only at isCaller
    split at isCaller
    · cases isCaller
      rfl
    · cases isCaller
  · cases isCaller

theorem directory_exact {env : Env} {bearer : String} {answer : Directory}
    (found : tables.getA2AByAuthHash (env.hashKey bearer) = some reader)
    (answers : directory env tables bearer = .ok answer) : DirectoryExact reader tables answer := by
  unfold directory at answers
  cases isCaller : caller env tables bearer with
  | error refusal =>
      rw [isCaller] at answers
      cases answers
  | ok self =>
      have isReader := caller_eq found isCaller
      subst isReader
      rw [isCaller] at answers
      cases answers
      rcases directoryAgents_lists self tables with ⟨rows, nodup, listed, cards⟩
      refine ⟨rows, intersection tables (tables.agentGroups self.id), nodup, listed, cards, ?_⟩
      intro agentId
      refine ⟨intersection_nodup self.id agentId, ?_⟩
      intro name
      exact mem_intersection

end Listing

section Isolation

/-- Texts and JSON texts without characters that are escaped, and no URL. -/
def plainEnv : Env where
  text := asciiText
  hashKey secret := secret
  parseURL _ := none
  marshal
    | .string content => "\"" ++ content ++ "\""
    | _ => "null"

def holix : A2AUpstream :=
  ⟨1, "holix", "", "", true, false, "Holix", "Holix", "Order dialogue", [], "agt-1"⟩

def shop : A2AUpstream :=
  ⟨2, "shop", "", "", true, false, "Shop", "", "", [], "agt-2"⟩

def orders : A2AGroup :=
  ⟨1, "orders", "Orders", "", "inv-1"⟩

/-- Two agents in a group. -/
def ordersTables : A2ATables where
  agents := [holix, shop]
  groups := [orders]
  members := [(1, 1), (1, 2)]
  messages := [⟨1, 1, "shop", "", "Need 2 items", .posted, ""⟩]
  nextAgent := 3
  nextMessage := 2
  agents_id_nodup := by decide
  agents_name_nodup := by decide
  agents_id_lt := by decide
  groups_id_nodup := by decide
  groups_name_nodup := by decide
  members_nodup := by decide
  messages_id_nodup := by decide
  messages_id_lt := by decide

/-- One of them is in a second group with a third agent, and has a message pending. -/
def payrollTables : A2ATables where
  agents := [holix, shop, ⟨3, "logist", "", "", true, false, "Logist", "", "", [], "agt-3"⟩]
  groups := [orders, ⟨2, "payroll", "Payroll", "", "inv-2"⟩]
  members := [(1, 1), (1, 2), (2, 2), (2, 3)]
  messages := [⟨1, 1, "shop", "", "Need 2 items", .posted, ""⟩,
    ⟨2, 1, "shop", "holix", "Wait", .pending, ""⟩, ⟨3, 2, "logist", "", "Paid", .posted, ""⟩]
  nextAgent := 4
  nextMessage := 4
  agents_id_nodup := by decide
  agents_name_nodup := by decide
  agents_id_lt := by decide
  groups_id_nodup := by decide
  groups_name_nodup := by decide
  members_nodup := by decide
  messages_id_nodup := by decide
  messages_id_lt := by decide

end Isolation

end MikroLLM.A2A
