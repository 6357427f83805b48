import MikroLLM.Go.Frame
import MikroLLM.Guard.Screening

/-!
# What the policies before a call keep

`Apply` sets the texts of a body and writes the system prompt into its messages.
A new first message moves the messages, a new first part the parts of the first
message; everything else stays where it is.
-/

namespace MikroLLM.Guard

open Domain Go

section Placing

variable (text : TextLibrary)

/-- The first message of a body is one of the system. -/
def hasSystem (value : Json) : Bool :=
  match value.faceAt [.key "messages", .index 0, .key "role"] with
  | some (.string role) => text.equalFold role "system"
  | _ => false

/-- Where the places within `messages` come when a prompt is written there; none where it is set. -/
def movedMessage (system : Bool) : Path → Option Path
  | .index 0 :: .key name :: rest =>
      if system = false then some (.index 1 :: .key name :: rest)
      else if name = "content" then
        match rest with
        | .index part :: inner => some (.index 0 :: .key name :: .index (part + 1) :: inner)
        | _ => none
      else some (.index 0 :: .key name :: rest)
  | .index position :: rest => some (.index (if system then position else position + 1) :: rest)
  | _ => none

/-- Where the places of a body come when a prompt is written into it. -/
def moved (system : Bool) : Path → Option Path
  | .key name :: rest =>
      if name = "messages" then (movedMessage system rest).map (.key name :: ·)
      else some (.key name :: rest)
  | path => some path

/-- There is a text at a place. -/
def textual (value : Json) (path : Path) : Bool :=
  match value.faceAt path with
  | some (.string _) => true
  | _ => false

/-- Where the places of a body come in `Apply`; none where it is set. -/
def place (policies : List Policy) (value : Json) (path : Path) : Option Path :=
  let target :=
    if joinSystem policies = "" then some path else moved (hasSystem text value) path
  target.filter fun target => !(texts target && textual value path)

end Placing

section Prompting

variable {text : TextLibrary} {raw : Fields} {prompt : String}

theorem textual_iff {value : Json} {path : Path} :
    textual value path = true ↔ ∃ content, value.faceAt path = some (.string content) := by
  simp only [textual]
  split
  · rename_i content found
    simp [found]
  · rename_i other
    simp only [Bool.false_eq_true, false_iff, not_exists]
    exact other

/-- The messages of a body, none where they are not a list. -/
def messagesOf (raw : Fields) : List Json :=
  match field raw "messages" with
  | .array items => items
  | _ => []

theorem faceAt_messages (raw : Fields) (position : ℕ) (rest : Path) :
    (Json.object raw).faceAt (.key "messages" :: .index position :: rest) =
      (messagesOf raw)[position]?.bind (·.faceAt rest) := by
  rw [faceAt_key, messagesOf, field]
  cases fieldOf raw "messages" with
  | none => simp
  | some messages =>
      rw [Option.bind_some, Option.getD_some]
      cases messages with
      | array items => exact faceAt_index items position rest
      | null | bool _ | number _ | object _ | string _ => simp [faceAt_cons, Json.child]

def freshMessage (prompt : String) : Json :=
  .object [("role", .string "system"), ("content", .string prompt)]

theorem injectSystem_eq (text : TextLibrary) (raw : Fields) (prompt : String) :
    injectSystem text raw prompt =
      match messagesOf raw with
      | .object first :: rest =>
          if isSystem text first then
            setField raw "messages" (.array (.object (setField first "content"
              (prependPrompt prompt (field first "content"))) :: rest))
          else setField raw "messages" (.array (freshMessage prompt :: messagesOf raw))
      | _ => setField raw "messages" (.array (freshMessage prompt :: messagesOf raw)) :=
  rfl

/-- Either the prompt comes into the first message or there is a new one before it. -/
theorem injectSystem_cases (text : TextLibrary) (raw : Fields) (prompt : String) :
    (∃ first rest, messagesOf raw = .object first :: rest ∧ hasSystem text (.object raw) = true ∧
      injectSystem text raw prompt = setField raw "messages" (.array (.object (setField first
        "content" (prependPrompt prompt (field first "content"))) :: rest))) ∨
    hasSystem text (.object raw) = false ∧
      injectSystem text raw prompt =
        setField raw "messages" (.array (freshMessage prompt :: messagesOf raw)) := by
  have role : (Json.object raw).faceAt [.key "messages", .index 0, .key "role"] =
      (messagesOf raw)[0]?.bind (·.faceAt [.key "role"]) := faceAt_messages raw 0 _
  rw [injectSystem_eq]
  cases messages : messagesOf raw with
  | nil =>
      right
      exact ⟨by simp [hasSystem, role, messages], rfl⟩
  | cons first rest =>
      rw [messages, List.getElem?_cons_zero, Option.bind_some] at role
      cases first with
      | object first =>
          have named : hasSystem text (.object raw) = isSystem text first := by
            rw [hasSystem, role, isSystem, faceAt_key, field]
            cases fieldOf first "role" with
            | none => rfl
            | some value => cases value <;> rfl
          cases system : isSystem text first with
          | true =>
              left
              exact ⟨first, rest, rfl, named.trans system, by simp [system]⟩
          | false =>
              right
              exact ⟨named.trans system, by simp [system]⟩
      | null | bool _ | number _ | array _ | string _ =>
          right
          exact ⟨by simp [hasSystem, role, faceAt_cons, Json.child], rfl⟩

theorem faceAt_prependPrompt (prompt : String) (first : Fields) (part : ℕ) (rest : Path) :
    (prependPrompt prompt (field first "content")).faceAt (.index (part + 1) :: rest) =
      (Json.object first).faceAt (.key "content" :: .index part :: rest) := by
  rw [faceAt_key, field]
  cases fieldOf first "content" with
  | none => rfl
  | some content =>
      cases content with
      | array parts => simp [prependPrompt, faceAt_index]
      | null | bool _ | number _ | object _ | string _ => rfl

/-- What is moved within the messages. -/
theorem carries_messages {first : Fields} {rest : List Json} (messages : messagesOf raw =
    .object first :: rest) {path target : Path} (leads : movedMessage true path = some target) :
    (Json.array (.object (setField first "content"
        (prependPrompt prompt (field first "content"))) :: rest)).faceAt target =
      (Json.object raw).faceAt (.key "messages" :: path) := by
  rcases path with _ | ⟨name | position, inner⟩
  · cases leads
  · cases leads
  rw [faceAt_messages, messages]
  cases position with
  | succ position =>
      simp only [movedMessage, if_true, Option.some.injEq] at leads
      subst leads
      rw [faceAt_index]
      rfl
  | zero =>
      rw [List.getElem?_cons_zero, Option.bind_some]
      rcases inner with _ | ⟨name | part, deeper⟩
      · simp only [movedMessage, if_true, Option.some.injEq] at leads
        subst leads
        rfl
      · simp only [movedMessage, Bool.true_eq_false, if_false] at leads
        by_cases content : name = "content"
        · rw [if_pos content] at leads
          subst content
          rcases deeper with _ | ⟨key | part, last⟩
          · cases leads
          · cases leads
          · cases leads
            rw [faceAt_index, List.getElem?_cons_zero, Option.bind_some, faceAt_setField_self,
              faceAt_prependPrompt]
        · rw [if_neg content, Option.some.injEq] at leads
          subst leads
          rw [faceAt_index, List.getElem?_cons_zero, Option.bind_some, faceAt_setField_ne content]
      · simp only [movedMessage, if_true, Option.some.injEq] at leads
        subst leads
        rfl

theorem movedMessage_false {path target : Path} (leads : movedMessage false path = some target) :
    ∃ position rest, path = .index position :: rest ∧ target = .index (position + 1) :: rest := by
  rcases path with _ | ⟨name | position, inner⟩
  · cases leads
  · cases leads
  · refine ⟨position, inner, rfl, ?_⟩
    rcases position with _ | position
    · rcases inner with _ | ⟨name | part, deeper⟩ <;> simp_all [movedMessage]
    · simpa [movedMessage] using leads.symm

/-- A prompt moves what it does not set. -/
theorem carries_injectSystem (text : TextLibrary) (raw : Fields) (prompt : String) :
    Carries (moved (hasSystem text (.object raw))) (.object raw)
      (.object (injectSystem text raw prompt)) := by
  intro path target leads
  have others : ∀ messages, (∀ inner next, path = .key "messages" :: inner →
      movedMessage (hasSystem text (.object raw)) inner = some next →
      messages.faceAt next = (Json.object raw).faceAt path) →
      (Json.object (setField raw "messages" messages)).faceAt target =
        (Json.object raw).faceAt path := by
    intro messages within
    rcases path with _ | ⟨name | position, inner⟩
    · cases leads
      rfl
    · simp only [moved] at leads
      by_cases here : name = "messages"
      · subst here
        rw [if_pos rfl, Option.map_eq_some_iff] at leads
        rcases leads with ⟨next, leads, rfl⟩
        rw [faceAt_setField_self]
        exact within inner next rfl leads
      · rw [if_neg here, Option.some.injEq] at leads
        rw [← leads, faceAt_setField_ne here]
    · cases leads
      rfl
  rcases injectSystem_cases text raw prompt with ⟨first, rest, messages, system, same⟩ | ⟨system, same⟩
  · rw [same]
    apply others
    intro inner next here leads
    rw [here]
    rw [system] at leads
    exact carries_messages messages leads
  · rw [same]
    apply others
    intro inner next here leads
    rw [system] at leads
    rcases movedMessage_false leads with ⟨position, rest, rfl, rfl⟩
    rw [here, faceAt_messages, faceAt_index]
    rfl

theorem messagesOf_loads (self : loadFields raw = some raw) :
    ∀ message ∈ messagesOf raw, message.load = some message := by
  have messages := load_field self "messages"
  rw [messagesOf]
  cases there : field raw "messages" with
  | array items =>
      rw [there] at messages
      exact load_array_self.mp messages
  | null | bool _ | number _ | object _ | string _ => simp

theorem prependPrompt_loads {content : Json} (prompt : String) (self : content.load = some content) :
    (prependPrompt prompt content).load = some (prependPrompt prompt content) := by
  cases content with
  | array parts =>
      rw [load_array_self] at self
      rw [prependPrompt, load_array_self, List.forall_mem_cons]
      exact ⟨rfl, self⟩
  | null | bool _ | number _ | object _ | string _ => rfl

theorem injectSystem_loads (text : TextLibrary) (prompt : String)
    (self : loadFields raw = some raw) :
    loadFields (injectSystem text raw prompt) = some (injectSystem text raw prompt) := by
  have each := messagesOf_loads self
  rcases injectSystem_cases text raw prompt with ⟨first, rest, messages, _, same⟩ | ⟨_, same⟩
  · rw [messages, List.forall_mem_cons, load_object_self] at each
    rw [same]
    apply loadFields_setField self
    rw [load_array_self, List.forall_mem_cons, load_object_self]
    exact ⟨loadFields_setField each.1 (prependPrompt_loads prompt (load_field each.1 _)), each.2⟩
  · rw [same]
    apply loadFields_setField self
    rw [load_array_self, List.forall_mem_cons]
    exact ⟨rfl, each⟩

end Prompting

section Applying

variable {text : TextLibrary} {filters : Filters} {codec : Codec} {policies due : List Policy}
  {body : Bytes} {document raw next : Fields}

theorem prompted_pre (raw : Fields) (policies : List Policy) :
    prompted text raw policies .pre =
      if joinSystem policies = "" then (raw, false)
      else (injectSystem text raw (joinSystem policies), true) := by
  by_cases silent : joinSystem policies = "" <;> simp [prompted, silent]

theorem prompted_loads (self : loadFields raw = some raw) :
    loadFields (prompted text raw policies .pre).1 = some (prompted text raw policies .pre).1 := by
  rw [prompted_pre]
  split
  · exact self
  · exact injectSystem_loads text _ self

/-- What the loop leaves of a body. -/
theorem carries_applyAll {changed : Bool}
    (done : applyAll filters (prompted text raw policies .pre).1 due = .ok (next, changed)) :
    Carries (place text policies (.object raw)) (.object raw) (.object next) := by
  intro path target leads
  rw [place, Option.filter_eq_some_iff] at leads
  rcases leads with ⟨leads, kept⟩
  have begun : (Json.object (prompted text raw policies .pre).1).faceAt target =
      (Json.object raw).faceAt path := by
    rw [prompted_pre]
    split
    · rename_i silent
      rw [if_pos silent, Option.some.injEq] at leads
      rw [leads]
    · rename_i speaks
      rw [if_neg speaks] at leads
      exact carries_injectSystem text raw _ path target leads
  rw [(applyAll_ok done).1.rest target ?_, begun]
  intro inside content found
  rw [begun] at found
  have there : textual (.object raw) path = true := textual_iff.mpr ⟨content, found⟩
  rw [inside, there] at kept
  cases kept

/-- Where the places come is not a matter of numbers. -/
theorem place_load {value loaded : Json} (loads : value.load = some loaded) :
    place text policies loaded = place text policies value := by
  have same : hasSystem text loaded = hasSystem text value := by
    rw [Bool.eq_iff_iff]
    have role := faceAt_load_string loads [.key "messages", .index 0, .key "role"]
    simp only [hasSystem]
    constructor
    · intro system
      split at system
      · rename_i content found
        rw [(role content).mp found]
        exact system
      · cases system
    · intro system
      split at system
      · rename_i content found
        rw [(role content).mpr found]
        exact system
      · cases system
  have texts (path : Path) : textual loaded path = textual value path := by
    rw [Bool.eq_iff_iff, textual_iff, textual_iff]
    simp only [faceAt_load_string loads path]
  funext path
  simp only [place, same, texts]

/-- The policies that are due before a call. -/
def duePolicies (policies : List Policy) : List Policy :=
  (dedup policies).filter fun policy => applies policy .pre

/-- The body comes out as it went in: there is nothing to do, a text of it is refused, or there is
no prompt and no policy changes a text. -/
def Leaves (text : TextLibrary) (filters : Filters) (policies : List Policy) (raw : Fields) : Prop :=
  duePolicies policies = [] ∨
    Refuses filters (duePolicies policies)
      (.object (prompted text raw (dedup policies) .pre).1) ∨
    joinSystem (dedup policies) = "" ∧
      ∀ policy ∈ duePolicies policies, Still (rewriting filters policy) texts (.object raw)

/-- For which documents `Apply` keeps what it does not set. -/
def KeepsRest (text : TextLibrary) (filters : Filters) (policies : List Policy)
    (document : Fields) : Prop :=
  ∀ raw, loadFields document = some raw → Leaves text filters policies raw ∨
    Exact (place text (dedup policies) (.object document)) (.object document)

theorem apply_cases (decodes : codec.decode body = some raw) :
    Leaves text filters policies raw ∧
        (apply text filters codec body policies .pre).body = body ∨
      ¬Leaves text filters policies raw ∧ ∃ next changed,
        applyAll filters (prompted text raw (dedup policies) .pre).1 (duePolicies policies) =
          .ok (next, changed) ∧
        (apply text filters codec body policies .pre).body = codec.marshal next := by
  by_cases idle : duePolicies policies = []
  · left
    refine ⟨Or.inl idle, ?_⟩
    simp only [duePolicies] at idle
    simp [apply, idle]
  · cases result : applyAll filters (prompted text raw (dedup policies) .pre).1
      (duePolicies policies) with
    | error block =>
        left
        refine ⟨Or.inr (Or.inl (applyAll_error_iff.mp ⟨block, result⟩)), ?_⟩
        simp only [duePolicies] at idle result
        simp only [apply, if_neg idle, decodes, result]
    | ok done =>
        have accepts : ¬Refuses filters (duePolicies policies)
            (.object (prompted text raw (dedup policies) .pre).1) := by
          rw [← applyAll_error_iff]
          rintro ⟨block, failed⟩
          rw [result] at failed
          cases failed
        have applied : (apply text filters codec body policies .pre).body =
            if (prompted text raw (dedup policies) .pre).2 || done.2 then codec.marshal done.1
            else body := by
          simp only [duePolicies] at idle result
          simp only [apply, if_neg idle, decodes, result]
          split <;> rfl
        have changes := (applyAll_ok result).2.1
        by_cases silent : joinSystem (dedup policies) = ""
        · have begun : prompted text raw (dedup policies) .pre = (raw, false) := by
            rw [prompted_pre, if_pos silent]
          rw [begun] at changes
          cases changed : done.2 with
          | false =>
              left
              refine ⟨Or.inr (Or.inr ⟨silent, changes.mp changed⟩), ?_⟩
              rw [applied, begun, changed]
              rfl
          | true =>
              right
              refine ⟨?_, done.1, done.2, rfl, by simp [applied, changed]⟩
              rintro (nothing | refused | ⟨_, still⟩)
              · exact idle nothing
              · exact accepts refused
              · rw [changes.mpr still] at changed
                cases changed
        · right
          refine ⟨?_, done.1, done.2, rfl, by simp [applied, prompted_pre, silent]⟩
          rintro (nothing | refused | ⟨quiet, _⟩)
          · exact idle nothing
          · exact accepts refused
          · exact silent quiet

theorem kept_apply_iff (parsed : codec.parse body = .json [.object document]) :
    Kept codec (place text (dedup policies) (.object document)) document body
        (apply text filters codec body policies .pre).body ↔
      KeepsRest text filters policies document := by
  have decodes := decode_object parsed
  cases loads : loadFields document with
  | none =>
      have same : (apply text filters codec body policies .pre).body = body := by
        rw [loads] at decodes
        simp only [apply, decodes]
        split <;> rfl
      simp [KeepsRest, loads, Kept, same]
  | some raw =>
      have self := loadFields_loadFields loads
      have loadsObject := load_object loads
      rw [loads] at decodes
      simp only [KeepsRest, loads, Option.some.injEq, forall_eq']
      rcases @apply_cases text filters codec policies body raw decodes with
        ⟨leaves, same⟩ | ⟨touches, next, changed, result, same⟩
      · simp [Kept, same, leaves]
      · have nextSelf := (applyAll_ok result).2.2 (prompted_loads self)
        have carries := carries_applyAll result
        rw [place_load loadsObject] at carries
        rw [same, kept_marshal_iff parsed loads nextSelf carries]
        simp [touches]

theorem apply_undecoded (undecoded : codec.decode body = none) :
    (apply text filters codec body policies .pre).body = body := by
  simp only [apply, undecoded]
  split <;> rfl

end Applying

end MikroLLM.Guard
