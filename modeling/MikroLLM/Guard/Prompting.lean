import MikroLLM.Guard.Frame

/-!
# The system prompt of a request

The prompts of the policies, each of them once, come before what the first system
message of a body says, or make a new first message.
-/

namespace MikroLLM.Guard

open Domain Go

section Prompts

/-- The prompts of the policies, each of them once and in their order. -/
structure DistinctPrompts (policies : List Policy) (prompts : List String) : Prop where
  nodup : prompts.Nodup
  mem_iff : ∀ prompt, prompt ∈ prompts ↔ prompt ≠ "" ∧
    ∃ policy ∈ dedup policies, trimSpace policy.config.prompt = prompt
  order : prompts.Sublist ((dedup policies).map fun policy => trimSpace policy.config.prompt)

/-- One round of `joinSystem`. -/
def addPrompt (parts : List String) (prompt : String) : List String :=
  if prompt = "" ∨ prompt ∈ parts then parts else parts ++ [prompt]

variable {prompts parts : List String} {policies : List Policy} {prompt : String}

theorem nodup_addPrompts (nodup : parts.Nodup) : (prompts.foldl addPrompt parts).Nodup := by
  induction prompts generalizing parts with
  | nil => exact nodup
  | cons first rest ih =>
      apply ih
      rw [addPrompt]
      split
      · exact nodup
      · rename_i fresh
        rw [not_or] at fresh
        rw [List.nodup_append]
        refine ⟨nodup, List.nodup_singleton first, ?_⟩
        intro part inside other isFirst same
        rw [List.mem_singleton] at isFirst
        rw [same, isFirst] at inside
        exact fresh.2 inside

theorem mem_addPrompts : prompt ∈ prompts.foldl addPrompt parts ↔
    prompt ∈ parts ∨ prompt ≠ "" ∧ prompt ∈ prompts := by
  induction prompts generalizing parts with
  | nil => simp
  | cons first rest ih =>
      rw [List.foldl_cons, ih, addPrompt, List.mem_cons]
      by_cases skipped : first = "" ∨ first ∈ parts
      · rw [if_pos skipped]
        constructor
        · rintro (before | ⟨filled, later⟩)
          · exact Or.inl before
          · exact Or.inr ⟨filled, Or.inr later⟩
        · rintro (before | ⟨filled, rfl | later⟩)
          · exact Or.inl before
          · exact Or.inl (skipped.resolve_left filled)
          · exact Or.inr ⟨filled, later⟩
      · rw [if_neg skipped, List.mem_append, List.mem_singleton]
        rw [not_or] at skipped
        constructor
        · rintro ((before | rfl) | ⟨filled, later⟩)
          · exact Or.inl before
          · exact Or.inr ⟨skipped.1, Or.inl rfl⟩
          · exact Or.inr ⟨filled, Or.inr later⟩
        · rintro (before | ⟨filled, rfl | later⟩)
          · exact Or.inl (Or.inl before)
          · exact Or.inl (Or.inr rfl)
          · exact Or.inr ⟨filled, later⟩

theorem sublist_addPrompts :
    ∃ added, prompts.foldl addPrompt parts = parts ++ added ∧ added.Sublist prompts := by
  induction prompts generalizing parts with
  | nil => exact ⟨[], by simp, List.Sublist.refl []⟩
  | cons first rest ih =>
      rcases @ih (addPrompt parts first) with ⟨added, same, part⟩
      rw [List.foldl_cons, same, addPrompt]
      split
      · exact ⟨added, rfl, part.cons first⟩
      · exact ⟨first :: added, by simp, part.cons_cons first⟩

/-- What `joinSystem` joins. -/
def joinedPrompts (policies : List Policy) : List String :=
  ((dedup policies).map fun policy => trimSpace policy.config.prompt).foldl addPrompt []

theorem distinctPrompts (policies : List Policy) :
    DistinctPrompts policies (joinedPrompts policies) where
  nodup := nodup_addPrompts List.nodup_nil
  mem_iff prompt := by simp [joinedPrompts, mem_addPrompts]
  order := by
    rcases @sublist_addPrompts
      ((dedup policies).map fun policy => trimSpace policy.config.prompt) [] with ⟨added, same, part⟩
    rw [joinedPrompts, same, List.nil_append]
    exact part

theorem joinSystem_eq (system : ∀ policy ∈ dedup policies, policy.kind = .systemPrompt) :
    joinSystem (dedup policies) = join (joinedPrompts policies) "\n\n" := by
  have all : (dedup policies).filter (fun policy =>
      policy.kind = .systemPrompt && applies policy .pre) = dedup policies := by
    rw [List.filter_eq_self]
    intro policy inside
    simp [applies, system policy inside]
  simp only [joinSystem, all]
  rfl

theorem join_eq_empty (filled : ∀ part ∈ prompts, part ≠ "") :
    join prompts "\n\n" = "" ↔ prompts = [] := by
  cases prompts with
  | nil => simp [join]
  | cons first rest =>
      rw [List.forall_mem_cons] at filled
      simp only [reduceCtorEq, iff_false]
      intro empty
      have lists := congrArg String.toList empty
      cases rest with
      | nil => simp [join, filled.1] at lists
      | cons second rest => simp [join, String.intercalate_cons_cons, filled.1] at lists

end Prompts

section Requests

/-- The text part that a prompt is. -/
def promptPart (prompt : String) : Json :=
  .object [("type", .string "text"), ("text", .string prompt)]

/-- Where the content of the first message is. -/
def contentPlace : Path :=
  [.key "messages", .index 0, .key "content"]

/-- The content of the system message is the prompt and what it was before. -/
def Continues (prompt : String) (before after : Json) : Prop :=
  match before.faceAt contentPlace with
  | some (.string content) =>
      after.faceAt contentPlace = some (.string (prompt ++ "\n\n" ++ content))
  | some (.array _) =>
      (∀ rest, after.faceAt (contentPlace ++ .index 0 :: rest) = (promptPart prompt).faceAt rest) ∧
        ∀ part rest, after.faceAt (contentPlace ++ .index (part + 1) :: rest) =
          before.faceAt (contentPlace ++ .index part :: rest)
  | none | some .null => ∃ more, after.faceAt contentPlace = some (.string (prompt ++ more))
  -- any other content is still somewhere in the new one
  | some _ => ∃ within, ∀ rest,
      after.faceAt (contentPlace ++ within ++ rest) = before.faceAt (contentPlace ++ rest)

/-- A body with a system prompt in front, and nothing else changed. -/
structure Prompted (text : TextLibrary) (prompt : String) (before after : Json) : Prop where
  fields : ∀ key rest, key ≠ "messages" →
    after.faceAt (.key key :: rest) = before.faceAt (.key key :: rest)
  others : ∀ position rest, (hasSystem text before = true → 0 < position) →
    after.faceAt (.key "messages" ::
        .index (if hasSystem text before then position else position + 1) :: rest) =
      before.faceAt (.key "messages" :: .index position :: rest)
  first : if hasSystem text before then
      (∀ key rest, key ≠ "content" →
        after.faceAt (.key "messages" :: .index 0 :: .key key :: rest) =
          before.faceAt (.key "messages" :: .index 0 :: .key key :: rest)) ∧
        Continues prompt before after
    else ∀ rest, after.faceAt (.key "messages" :: .index 0 :: rest) =
      (freshMessage prompt).faceAt rest

/-- A content that is a text, a list, null or none. -/
def Legible : Option Face → Prop
  | some .object | some (.number _) | some (.bool _) => False
  | _ => True

/-- The content of a first system message is none that is lost. -/
def Readable (text : TextLibrary) (before : Json) : Prop :=
  hasSystem text before = true → Legible (before.faceAt contentPlace)

variable {text : TextLibrary} {prompt : String} {raw document : Fields} {before after : Json}

theorem hasSystem_congr (same : ∀ path, after.faceAt path = before.faceAt path) :
    hasSystem text after = hasSystem text before := by
  rw [hasSystem, hasSystem, same]

/-- Only what the bodies say place by place counts. -/
theorem prompted_congr {other next : Json} (same : ∀ path, other.faceAt path = before.faceAt path)
    (sameNext : ∀ path, next.faceAt path = after.faceAt path) :
    Prompted text prompt other next ↔ Prompted text prompt before after := by
  have system : hasSystem text other = hasSystem text before := hasSystem_congr same
  have continues : Continues prompt other next ↔ Continues prompt before after := by
    rw [Continues, Continues, same]
    cases before.faceAt contentPlace with
    | none => simp only [sameNext]
    | some face => cases face <;> simp only [same, sameNext]
  constructor
  · rintro ⟨fields, others, first⟩
    simp only [system, same, sameNext, continues] at fields others first
    exact ⟨fields, others, first⟩
  · rintro ⟨fields, others, first⟩
    constructor
    · simpa only [same, sameNext] using fields
    · simpa only [system, same, sameNext] using others
    · simpa only [system, same, sameNext, continues] using first

theorem readable_congr {other : Json} (same : ∀ path, other.faceAt path = before.faceAt path) :
    Readable text other ↔ Readable text before := by
  rw [Readable, Readable, hasSystem_congr same, same]

theorem faceAt_content {first : Fields} {rest : List Json}
    (messages : messagesOf raw = .object first :: rest) (inner : Path) :
    (Json.object raw).faceAt (contentPlace ++ inner) =
      (fieldOf first "content").bind (·.faceAt inner) := by
  rw [contentPlace, List.cons_append, List.cons_append, faceAt_messages, messages,
    List.getElem?_cons_zero, Option.bind_some, List.cons_append, List.nil_append, faceAt_key]

theorem valueAt_content {first : Fields} {rest : List Json} (content : Json) (inner : Path) :
    (Json.object (setField raw "messages"
        (.array (.object (setField first "content" content) :: rest)))).valueAt
          (contentPlace ++ inner) = content.valueAt inner := by
  simp [contentPlace, valueAt_cons, Json.child]

/-- The prompt before the content of a system message. -/
theorem continues_iff {first : Fields} {rest : List Json}
    (messages : messagesOf raw = .object first :: rest) (prompt : String) :
    Continues prompt (.object raw) (.object (setField raw "messages" (.array (.object
        (setField first "content" (prependPrompt prompt (field first "content"))) :: rest)))) ↔
      Legible ((Json.object raw).faceAt contentPlace) := by
  have before := faceAt_content messages
  have after (inner : Path) : (Json.object (setField raw "messages" (.array (.object
      (setField first "content" (prependPrompt prompt (field first "content"))) :: rest)))).faceAt
        (contentPlace ++ inner) = (prependPrompt prompt (field first "content")).faceAt inner := by
    rw [Json.faceAt, valueAt_content]
    rfl
  have here := before []
  have itself := after []
  rw [List.append_nil] at here itself
  -- a text has no places within
  have nowhere {other : Json} (within : Path) (face : Face)
      (text : (prependPrompt prompt (field first "content")) = .string (prompt ++ "\n\n"))
      (found : fieldOf first "content" = some other) (isFace : other.face = face)
      (notText : ∀ content, face ≠ .string content) :
      ¬∀ rest, (prependPrompt prompt (field first "content")).faceAt (within ++ rest) =
        (fieldOf first "content").bind (·.faceAt rest) := by
    intro same
    have top := same []
    rw [text, found, Option.bind_some, List.append_nil, faceAt_nil, isFace] at top
    cases within with
    | nil =>
        rw [faceAt_nil, Option.some.injEq] at top
        exact notText _ top.symm
    | cons step inner =>
        rw [faceAt_string] at top
        cases top
  rw [Continues, here]
  cases found : fieldOf first "content" with
  | none =>
      rw [Option.bind_none]
      simp only [Legible, iff_true]
      refine ⟨"\n\n", ?_⟩
      rw [itself, field, found]
      rfl
  | some content =>
      rw [Option.bind_some, faceAt_nil]
      have member : field first "content" = content := by rw [field, found, Option.getD_some]
      cases content with
      | null =>
          simp only [Json.face, Legible, iff_true]
          refine ⟨"\n\n", ?_⟩
          rw [itself, member]
          rfl
      | string content =>
          simp only [Json.face, Legible, iff_true]
          rw [itself, member]
          rfl
      | array parts =>
          simp only [Json.face, Legible, iff_true]
          constructor
          · intro inner
            rw [after, member, prependPrompt, faceAt_index, List.getElem?_cons_zero,
              Option.bind_some]
            rfl
          · intro part inner
            rw [after, before, found, member, prependPrompt, faceAt_index, Option.bind_some,
              faceAt_index, List.getElem?_cons_succ]
      | bool value =>
          simp only [Json.face, Legible, iff_false, not_exists]
          intro within same
          refine nowhere within (.bool value) (by rw [member]; rfl) found rfl (by simp) ?_
          intro rest
          rw [← after, ← before, ← List.append_assoc]
          exact same rest
      | number literal =>
          simp only [Json.face, Legible, iff_false, not_exists]
          intro within same
          refine nowhere within (.number literal.value) (by rw [member]; rfl) found rfl (by simp) ?_
          intro rest
          rw [← after, ← before, ← List.append_assoc]
          exact same rest
      | object fields =>
          simp only [Json.face, Legible, iff_false, not_exists]
          intro within same
          refine nowhere within .object (by rw [member]; rfl) found rfl (by simp) ?_
          intro rest
          rw [← after, ← before, ← List.append_assoc]
          exact same rest

/-- What a prompt makes of a body. -/
theorem prompted_injectSystem (text : TextLibrary) (raw : Fields) (prompt : String) :
    Prompted text prompt (.object raw) (.object (injectSystem text raw prompt)) ↔
      Readable text (.object raw) := by
  have carries := carries_injectSystem text raw prompt
  have fields : ∀ key rest, key ≠ "messages" →
      (Json.object (injectSystem text raw prompt)).faceAt (.key key :: rest) =
        (Json.object raw).faceAt (.key key :: rest) := by
    intro key rest other
    apply carries
    simp [moved, other]
  have others : ∀ position rest, (hasSystem text (.object raw) = true → 0 < position) →
      (Json.object (injectSystem text raw prompt)).faceAt (.key "messages" ::
          .index (if hasSystem text (.object raw) then position else position + 1) :: rest) =
        (Json.object raw).faceAt (.key "messages" :: .index position :: rest) := by
    intro position rest later
    apply carries
    cases system : hasSystem text (.object raw) with
    | false =>
        cases position with
        | zero => rcases rest with _ | ⟨name | part, deeper⟩ <;> rfl
        | succ position => rfl
    | true =>
        cases position with
        | zero => exact absurd (later system) (Nat.lt_irrefl 0)
        | succ position => rfl
  rcases injectSystem_cases text raw prompt with ⟨first, rest, messages, system, same⟩ | ⟨system, same⟩
  · have settled := continues_iff messages prompt
    rw [← same] at settled
    have readable : Readable text (.object raw) ↔
        Legible ((Json.object raw).faceAt contentPlace) := forall_prop_of_true system
    rw [readable, ← settled]
    constructor
    · rintro ⟨_, _, first⟩
      rw [if_pos system] at first
      exact first.2
    · intro continues
      refine ⟨fields, others, ?_⟩
      rw [if_pos system]
      refine ⟨?_, continues⟩
      intro key rest other
      apply carries
      simp [moved, movedMessage, system, other]
  · refine iff_of_true ⟨fields, others, ?_⟩ ?_
    · rw [if_neg (by simp [system]), same]
      intro inner
      rw [faceAt_setField_self, faceAt_index, List.getElem?_cons_zero, Option.bind_some]
    · intro isSystem
      rw [system] at isSystem
      cases isSystem

end Requests

section Applying

variable {text : TextLibrary} {filters : Filters} {codec : Codec} {policies due : List Policy}
  {body : Bytes} {raw : Fields}

theorem mem_of_mem_dedupFrom {policy : Policy} {seen : List PolicyId}
    (inside : policy ∈ dedupFrom seen policies) : policy ∈ policies := by
  induction policies generalizing seen with
  | nil => cases inside
  | cons first rest ih =>
      rw [dedupFrom] at inside
      split at inside
      · exact List.mem_cons_of_mem _ (ih inside)
      · simp only at inside
        split at inside
        · rcases List.mem_cons.mp inside with rfl | later
          · exact List.mem_cons_self
          · exact List.mem_cons_of_mem _ (ih later)
        · exact List.mem_cons_of_mem _ (ih inside)

/-- The loop of `Apply` leaves the system prompts to `injectSystem`. -/
theorem applyAll_systemPrompt (system : ∀ policy ∈ due, policy.kind = .systemPrompt) :
    applyAll filters raw due = .ok (raw, false) := by
  induction due with
  | nil => rfl
  | cons policy rest ih =>
      rw [List.forall_mem_cons] at system
      simp only [applyAll, if_pos system.1]
      change (applyAll filters raw rest >>= fun others => Except.ok (others.1, false || others.2)) = _
      rw [ih system.2]
      rfl

/-- System prompts alone. -/
theorem apply_systemPrompt (system : ∀ policy ∈ policies, policy.kind = .systemPrompt)
    (decodes : codec.decode body = some raw) :
    (apply text filters codec body policies .pre).block = none ∧
      (apply text filters codec body policies .pre).body =
        if joinedPrompts policies = [] then body
        else codec.marshal (injectSystem text raw (join (joinedPrompts policies) "\n\n")) := by
  have systemDedup : ∀ policy ∈ dedup policies, policy.kind = .systemPrompt :=
    fun policy inside => system policy (mem_of_mem_dedupFrom inside)
  have due : ((dedup policies).filter fun policy => applies policy .pre) = dedup policies := by
    rw [List.filter_eq_self]
    intro policy inside
    simp [applies, systemDedup policy inside]
  have filled : ∀ prompt ∈ joinedPrompts policies, prompt ≠ "" := fun prompt inside =>
    (((distinctPrompts policies).mem_iff prompt).mp inside).1
  by_cases idle : dedup policies = []
  · have nothing : joinedPrompts policies = [] := by rw [joinedPrompts, idle]; rfl
    simp [apply, idle, nothing]
  · have prompts := joinSystem_eq systemDedup
    have silent := join_eq_empty filled
    by_cases nothing : joinedPrompts policies = []
    · have begun : prompted text raw (dedup policies) .pre = (raw, false) := by
        rw [prompted_pre, prompts, if_pos (silent.mpr nothing)]
      simp [apply, due, idle, decodes, begun, applyAll_systemPrompt systemDedup, nothing]
    · have begun : prompted text raw (dedup policies) .pre =
          (injectSystem text raw (join (joinedPrompts policies) "\n\n"), true) := by
        rw [prompted_pre, prompts, if_neg (silent.not.mpr nothing)]
      simp [apply, due, idle, decodes, begun, applyAll_systemPrompt systemDedup, nothing]

end Applying

end MikroLLM.Guard
