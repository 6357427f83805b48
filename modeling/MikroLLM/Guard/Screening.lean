import MikroLLM.Guard.Texts

/-!
# What the policies make of a body

`walk` is put together from walks over its members, and the loop of `Apply` from
walks for one policy after another: every text of the body goes through all the
policies, nothing else is touched, and the body is refused exactly if one of its
texts is.
-/

namespace MikroLLM.Guard

open Domain Go

section Walk

variable {rewrite : String → Except Block String}

theorem onObject_andThen {ε : Type} (first second : Fields → Except ε (Fields × Bool)) :
    onObject (andThen first second) = andThen (onObject first) (onObject second) := by
  funext value
  cases value with
  | object fields =>
      simp only [onObject, andThen, Bind.bind, Except.bind, Except.map]
      cases first fields with
      | error _ => rfl
      | ok begun =>
          cases ends : second begun.1 <;> simp [ends]
  | null | bool _ | number _ | array _ | string _ => rfl

theorem walkText_eq (fields : Fields) (key : String) :
    walkText rewrite fields key = atMember (onText rewrite) key fields := by
  simp only [walkText, atMember]
  cases field fields key with
  | string text =>
      simp only [onText]
      cases rewrite text with
      | error _ => rfl
      | ok next => simp [Except.map]
  | null | bool _ | number _ | array _ | object _ => rfl

theorem walkObject_eq (inner : Fields → Except Block (Fields × Bool)) (fields : Fields)
    (key : String) : walkObject inner fields key = atMember (onObject inner) key fields := by
  simp only [walkObject, atMember]
  cases field fields key with
  | object member =>
      simp only [onObject]
      cases inner member <;> rfl
  | null | bool _ | number _ | array _ | string _ => rfl

theorem walkItems_eq (inner : Fields → Except Block (Fields × Bool)) (items : List Json) :
    walkItems inner items = visitItems (onObject inner) items := by
  induction items with
  | nil => rfl
  | cons item rest ih =>
      cases item with
      | object fields =>
          simp only [walkItems, visitItems, ih, onObject]
          cases inner fields <;> rfl
      | null | bool _ | number _ | array _ | string _ =>
          simp only [walkItems, visitItems, ih, onObject]
          cases visitItems (onObject inner) rest <;> simp [Bind.bind, Except.bind, Except.map]

theorem walkArray_eq (inner : Fields → Except Block (Fields × Bool)) (fields : Fields)
    (key : String) :
    walkArray inner fields key = atMember (onArray (onObject inner)) key fields := by
  simp only [walkArray, atMember]
  cases field fields key with
  | array items =>
      simp only [onArray, walkItems_eq]
      cases visitItems (onObject inner) items <;> rfl
  | null | bool _ | number _ | object _ | string _ => rfl

theorem setField_ne {fields : Fields} {key : String} {next : Json}
    (differs : field fields key ≠ next) : setField fields key next ≠ fields := by
  intro same
  apply differs
  rw [← same, field_setField_self]

/-- The parts of a content, one by one. -/
def onPart (rewrite : String → Except Block String) : Json → Except Block (Json × Bool) :=
  onObject (atMember (onText rewrite) "text")

theorem rewritePart_eq (part : Json) :
    (rewritePart rewrite part).map (fun next => (next, decide (next ≠ part))) =
      onPart rewrite part := by
  cases part with
  | object fields =>
      simp only [rewritePart, onPart, onObject, atMember]
      cases found : field fields "text" with
      | string text =>
          simp only [onText]
          cases rewrite text with
          | error _ => rfl
          | ok next =>
              by_cases same : next = text
              · simp [same, Except.map]
              · have changes : setField fields "text" (.string next) ≠ fields := by
                  apply setField_ne
                  rw [found]
                  simpa using Ne.symm same
                simp [same, changes, Except.map]
      | null | bool _ | number _ | array _ | object _ => simp [onText, Except.map]
  | null | bool _ | number _ | array _ | string _ => simp [rewritePart, onPart, onObject, Except.map]

theorem mapM_rewritePart (parts : List Json) :
    (parts.mapM (rewritePart rewrite)).map (fun next => (next, decide (next ≠ parts))) =
      visitItems (onPart rewrite) parts := by
  induction parts with
  | nil => simp [visitItems, Except.map, pure, Except.pure]
  | cons part rest ih =>
      rw [List.mapM_cons, visitItems, ← ih, ← rewritePart_eq part]
      cases rewritePart rewrite part with
      | error _ => rfl
      | ok next =>
          simp only [Bind.bind, Except.bind, Except.map, pure, Except.pure]
          cases rest.mapM (rewritePart rewrite) with
          | error _ => rfl
          | ok others => simp

/-- A content: a text, or a list of parts. -/
def onContent (rewrite : String → Except Block String) : Json → Except Block (Json × Bool) :=
  andThen (onText rewrite) (onArray (onPart rewrite))

theorem rewriteContent_eq (content : Json) :
    (rewriteContent rewrite content).map (fun next => (next, decide (next ≠ content))) =
      onContent rewrite content := by
  cases content with
  | string text =>
      simp only [rewriteContent, onContent, andThen, onText]
      cases rewrite text with
      | error _ => rfl
      | ok next => simp [Except.map, Bind.bind, Except.bind, onArray]
  | array parts =>
      have visited : onContent rewrite (.array parts) = (visitItems (onPart rewrite) parts).map
          fun next => (.array next.1, next.2) := by
        simp only [onContent, andThen, onText, onArray, Bind.bind, Except.bind]
        cases visitItems (onPart rewrite) parts <;> rfl
      rw [visited, ← mapM_rewritePart, rewriteContent]
      cases parts.mapM (rewritePart rewrite) with
      | error _ => rfl
      | ok next => simp [Except.map]
  | null | bool _ | number _ | object _ =>
      simp [rewriteContent, onContent, andThen, onText, onArray, Except.map, Bind.bind, Except.bind]

theorem rewriteMember_eq (fields : Fields) (key : String) :
    rewriteMember rewrite fields key = atMember (onContent rewrite) key fields := by
  simp only [rewriteMember, atMember, ← rewriteContent_eq]
  cases rewriteContent rewrite (field fields key) with
  | error _ => rfl
  | ok next => by_cases same : next = field fields key <;> simp [same, Except.map]

theorem visits_onPart : Visits rewrite (within "text" itself) (onPart rewrite) :=
  visits_atMember visits_onText

theorem visits_onContent : Visits rewrite contentTexts (onContent rewrite) := by
  apply visits_onText.andThen (visits_onArray visits_onPart)
  intro path here
  rcases path with _ | ⟨step, rest⟩
  · rfl
  · cases here

/-- What a walk over the members of a map amounts to. -/
def Walks (rewrite : String → Except Block String) (places : Path → Bool)
    (walk : Fields → Except Block (Fields × Bool)) : Prop :=
  Visits rewrite places (onObject walk)

theorem Walks.andThen {places others : Path → Bool}
    {first second : Fields → Except Block (Fields × Bool)} (begins : Walks rewrite places first)
    (ends : Walks rewrite others second) (apart : ∀ path, places path = true → others path = false) :
    Walks rewrite (fun path => places path || others path) (andThen first second) := by
  rw [Walks, onObject_andThen]
  exact Visits.andThen begins ends apart

theorem walks_content : Walks rewrite messageTexts (rewriteMember rewrite · "content") := by
  have same : (rewriteMember rewrite · "content") = atMember (onContent rewrite) "content" := by
    funext fields
    exact rewriteMember_eq fields "content"
  rw [same]
  exact visits_atMember visits_onContent

theorem walks_text (key : String) : Walks rewrite (within key itself) (walkText rewrite · key) := by
  have same : (walkText rewrite · key) = atMember (onText rewrite) key := by
    funext fields
    exact walkText_eq fields key
  rw [same]
  exact visits_atMember visits_onText

theorem walks_object {places : Path → Bool} {inner : Fields → Except Block (Fields × Bool)}
    (walks : Walks rewrite places inner) (key : String) :
    Walks rewrite (within key places) (walkObject inner · key) := by
  have same : (walkObject inner · key) = atMember (onObject inner) key := by
    funext fields
    exact walkObject_eq inner fields key
  rw [same]
  exact visits_atMember walks

theorem walks_array {places : Path → Bool} {inner : Fields → Except Block (Fields × Bool)}
    (walks : Walks rewrite places inner) (key : String) :
    Walks rewrite (within key (withinItems places)) (walkArray inner · key) := by
  have same : (walkArray inner · key) = atMember (onArray (onObject inner)) key := by
    funext fields
    exact walkArray_eq inner fields key
  rw [same]
  exact visits_atMember (visits_onArray walks)

/-- Members with two different keys. -/
theorem within_apart {places others : Path → Bool} {key other : String} (differs : key ≠ other)
    {path : Path} (here : within key places path = true) : within other others path = false := by
  rcases within_iff.mp here with ⟨rest, rfl, _⟩
  simp [within, differs]

theorem walks_choice : Walks rewrite choiceTexts (walkChoice rewrite) :=
  (walks_object walks_content "message").andThen (walks_text "text") fun _ here =>
    within_apart (by decide) here

theorem walk_eq : walk rewrite =
    andThen
      (andThen (walkArray (rewriteMember rewrite · "content") · "messages")
        (walkText rewrite · "prompt"))
      (andThen (walkArray (walkChoice rewrite) · "choices")
        (walkObject (rewriteMember rewrite · "content") · "message")) := by
  funext raw
  simp only [walk, phaseChoices, andThen, Bind.bind, Except.bind]
  cases walkArray (rewriteMember rewrite · "content") raw "messages" with
  | error _ => rfl
  | ok messages =>
      cases prompted : walkText rewrite messages.1 "prompt" with
      | error _ => simp [prompted]
      | ok prompt =>
          cases choosing : walkArray (walkChoice rewrite) prompt.1 "choices" with
          | error _ => simp [prompted, choosing]
          | ok choices =>
              cases ending : walkObject (rewriteMember rewrite · "content") choices.1 "message" <;>
                simp [prompted, choosing, ending]

theorem walks_walk : Walks rewrite texts (walk rewrite) := by
  have begins : Walks rewrite _ _ :=
    (walks_array (@walks_content rewrite) "messages").andThen (walks_text "prompt")
      fun _ here => within_apart (by decide) here
  have ends : Walks rewrite _ _ :=
    (walks_array (@walks_choice rewrite) "choices").andThen
      (walks_object walks_content "message") fun _ here => within_apart (by decide) here
  rw [walk_eq]
  apply begins.andThen ends
  intro path here
  rw [Bool.or_eq_true] at here
  rw [Bool.or_eq_false_iff]
  rcases here with messages | prompt
  · exact ⟨within_apart (by decide) messages, within_apart (by decide) messages⟩
  · exact ⟨within_apart (by decide) prompt, within_apart (by decide) prompt⟩

end Walk

section Policies

variable {filters : Filters}

/-- What a policy does to a text in the loop of `Apply`. -/
def rewriting (filters : Filters) (policy : Policy) (content : String) : Except Block String :=
  if policy.kind = .systemPrompt then .ok content
  else
    match filters policy with
    | none => .ok content
    | some rewrite => (rewrite content).mapError (reject policy)

/-- One text through all the policies. -/
def screened (filters : Filters) : List Policy → String → Except Block String
  | [], content => .ok content
  | policy :: rest, content => (rewriting filters policy content).bind (screened filters rest)

/-- One round of the loop. -/
def applyOne (filters : Filters) (policy : Policy) (raw : Fields) : Except Block (Fields × Bool) :=
  if policy.kind = .systemPrompt then .ok (raw, false) else applyPolicy filters raw policy

theorem visits_nothing {ε : Type} (places : Path → Bool) :
    Visits (.ok : String → Except ε String) places (fun value => .ok (value, false)) where
  still _ := rfl
  rewrites done := by
    cases done
    exact ⟨fun path text _ found => ⟨text, rfl, found⟩, fun _ _ => rfl⟩
  unchanged done := by
    cases done
    rfl
  refuses failed := by cases failed
  loads self done := by
    cases done
    exact self

theorem walks_nothing : Walks .ok texts fun raw => .ok (raw, false) := by
  have same : onObject (fun raw : Fields => (.ok (raw, false) : Except Block (Fields × Bool))) =
      fun value => .ok (value, false) := by
    funext value
    cases value <;> rfl
  rw [Walks, same]
  exact visits_nothing texts

theorem walks_applyOne (policy : Policy) :
    Walks (rewriting filters policy) texts (applyOne filters policy) := by
  by_cases prompt : policy.kind = .systemPrompt
  · have does : rewriting filters policy = .ok := by
      funext content
      simp [rewriting, prompt]
    have walk : applyOne filters policy = fun raw => .ok (raw, false) := by
      funext raw
      simp [applyOne, prompt]
    rw [does, walk]
    exact walks_nothing
  · cases filter : filters policy with
    | none =>
        have does : rewriting filters policy = .ok := by
          funext content
          simp [rewriting, prompt, filter]
        have walk : applyOne filters policy = fun raw => .ok (raw, false) := by
          funext raw
          simp [applyOne, prompt, applyPolicy, filter]
        rw [does, walk]
        exact walks_nothing
    | some rewrite =>
        have does : rewriting filters policy =
            fun content => (rewrite content).mapError (reject policy) := by
          funext content
          simp [rewriting, prompt, filter]
        have same : applyOne filters policy =
            walk fun content => (rewrite content).mapError (reject policy) := by
          funext raw
          simp [applyOne, prompt, applyPolicy, filter]
        rw [does, same]
        exact walks_walk

theorem applyAll_cons (policy : Policy) (rest : List Policy) (raw : Fields) :
    applyAll filters raw (policy :: rest) =
      andThen (applyOne filters policy) (applyAll filters · rest) raw := by
  simp only [applyAll, andThen, applyOne]
  split <;> rfl

/-- Every text went through all the policies, nothing else was touched, and the body changed
exactly if one of the policies changes a text. -/
theorem applyAll_ok {raw next : Fields} {due : List Policy} {changed : Bool}
    (done : applyAll filters raw due = .ok (next, changed)) :
    Rewrites (screened filters due) texts (.object raw) (.object next) ∧
      (changed = false ↔
        ∀ policy ∈ due, Still (rewriting filters policy) texts (.object raw)) ∧
      (loadFields raw = some raw → loadFields next = some next) := by
  induction due generalizing raw changed with
  | nil =>
      cases done
      refine ⟨⟨fun path text _ found => ⟨text, rfl, found⟩, fun _ _ => rfl⟩, ?_, id⟩
      simp
  | cons policy rest ih =>
      rw [applyAll_cons] at done
      rcases andThen_eq_ok done with ⟨between, begun, ended, one, others, rfl⟩
      have walks : Walks (rewriting filters policy) texts (applyOne filters policy) :=
        walks_applyOne policy
      have oneObject : onObject (applyOne filters policy) (.object raw) =
          .ok (.object between, begun) := by
        rw [onObject, one]
        rfl
      rcases ih others with ⟨restRewrites, restChanged, restLoads⟩
      refine ⟨(walks.rewrites oneObject).trans restRewrites, ?_, ?_⟩
      · rw [Bool.or_eq_false_iff, List.forall_mem_cons]
        constructor
        · rintro ⟨rfl, unchanged⟩
          have same := walks.unchanged oneObject
          rw [Json.object.injEq] at same
          subst same
          exact ⟨(walks.rewrites oneObject).still, restChanged.mp unchanged⟩
        · rintro ⟨still, restStill⟩
          have stays := walks.still still
          rw [oneObject, Except.ok.injEq, Prod.mk.injEq, Json.object.injEq] at stays
          rcases stays with ⟨rfl, unchanged⟩
          exact ⟨unchanged, restChanged.mpr restStill⟩
      · intro self
        exact restLoads (load_object_self.mp (walks.loads (load_object_self.mpr self) oneObject))

/-- A body is refused for a text that the policies refuse. -/
theorem applyAll_error {raw : Fields} {due : List Policy} {block : Block}
    (failed : applyAll filters raw due = .error block) :
    ∃ path content, texts path = true ∧
      (Json.object raw).faceAt path = some (.string content) ∧
      screened filters due content = .error block := by
  induction due generalizing raw with
  | nil => cases failed
  | cons policy rest ih =>
      have walks : Walks (rewriting filters policy) texts (applyOne filters policy) :=
        walks_applyOne policy
      rw [applyAll_cons] at failed
      rcases andThen_eq_error failed with one | ⟨between, begun, one, others⟩
      · have oneObject : onObject (applyOne filters policy) (.object raw) = .error block := by
          rw [onObject, one]
          rfl
        rcases walks.refuses oneObject with ⟨path, content, inside, found, refused⟩
        refine ⟨path, content, inside, found, ?_⟩
        rw [screened, refused]
        rfl
      · have oneObject : onObject (applyOne filters policy) (.object raw) =
            .ok (.object between, begun) := by
          rw [onObject, one]
          rfl
        rcases ih others with ⟨path, content, inside, found, refused⟩
        rcases (walks.rewrites oneObject).text_before found inside with ⟨before, was, rewritten⟩
        refine ⟨path, before, inside, was, ?_⟩
        rw [screened, rewritten]
        exact refused

/-- A text of the body is one that the policies refuse. -/
def Refuses (filters : Filters) (due : List Policy) (value : Json) : Prop :=
  ∃ path content block, texts path = true ∧ value.faceAt path = some (.string content) ∧
    screened filters due content = .error block

theorem applyAll_error_iff {raw : Fields} {due : List Policy} :
    (∃ block, applyAll filters raw due = .error block) ↔ Refuses filters due (.object raw) := by
  constructor
  · rintro ⟨block, failed⟩
    rcases applyAll_error failed with ⟨path, content, inside, found, refused⟩
    exact ⟨path, content, block, inside, found, refused⟩
  · rintro ⟨path, content, block, inside, found, refused⟩
    cases result : applyAll filters raw due with
    | error other => exact ⟨other, rfl⟩
    | ok done =>
        rcases (applyAll_ok result).1.texts path content inside found with ⟨next, accepted, _⟩
        rw [refused] at accepted
        cases accepted

end Policies

end MikroLLM.Guard
