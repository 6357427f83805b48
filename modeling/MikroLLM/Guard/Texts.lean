import MikroLLM.Go.Tree
import MikroLLM.Guard.Apply

/-!
# The texts that a policy sees

`walk` hands every text of a request or of a reply to a policy and puts what the
policy makes of it in its place. Its parts are walks over a value, each with the
places of the texts that it goes over, and what is known of the parts is known of
their compositions.
-/

namespace MikroLLM.Guard

open Domain Go

section Places

/-- The place of the value itself. -/
def itself : Path → Bool
  | [] => true
  | _ => false

/-- Places in the member with a key. -/
def within (key : String) (places : Path → Bool) : Path → Bool
  | .key name :: rest => decide (name = key) && places rest
  | _ => false

/-- Places in the items of a list. -/
def withinItems (places : Path → Bool) : Path → Bool
  | .index _ :: rest => places rest
  | _ => false

def contentTexts (path : Path) : Bool :=
  itself path || withinItems (within "text" itself) path

def messageTexts : Path → Bool :=
  within "content" contentTexts

def choiceTexts (path : Path) : Bool :=
  within "message" messageTexts path || within "text" itself path

/-- Where the texts are that `walk` goes over. -/
def texts (path : Path) : Bool :=
  within "messages" (withinItems messageTexts) path || within "prompt" itself path ||
    (within "choices" (withinItems choiceTexts) path || within "message" messageTexts path)

end Places

section Visiting

variable {ε : Type} {rewrite : String → Except ε String} {places others : Path → Bool}

/-- The texts stay what they are. -/
def Still (rewrite : String → Except ε String) (places : Path → Bool) (value : Json) : Prop :=
  ∀ path text, places path = true → value.faceAt path = some (.string text) →
    rewrite text = .ok text

/-- The texts are rewritten, and everything else is what it was. -/
structure Rewrites (rewrite : String → Except ε String) (places : Path → Bool)
    (before after : Json) : Prop where
  texts : ∀ path text, places path = true → before.faceAt path = some (.string text) →
    ∃ next, rewrite text = .ok next ∧ after.faceAt path = some (.string next)
  rest : ∀ path, (places path = true → ∀ text, before.faceAt path ≠ some (.string text)) →
    after.faceAt path = before.faceAt path

/-- A walk over the texts at some places, which also says whether it changed something. -/
structure Visits (rewrite : String → Except ε String) (places : Path → Bool)
    (visit : Json → Except ε (Json × Bool)) : Prop where
  still : ∀ {value}, Still rewrite places value → visit value = .ok (value, false)
  rewrites : ∀ {value next changed}, visit value = .ok (next, changed) →
    Rewrites rewrite places value next
  unchanged : ∀ {value next}, visit value = .ok (next, false) → next = value
  refuses : ∀ {value error}, visit value = .error error → ∃ path text, places path = true ∧
    value.faceAt path = some (.string text) ∧ rewrite text = .error error
  loads : ∀ {value next changed}, value.load = some value → visit value = .ok (next, changed) →
    next.load = some next

theorem Rewrites.still {value : Json} (same : Rewrites rewrite places value value) :
    Still rewrite places value := by
  intro path text inside found
  rcases same.texts path text inside found with ⟨next, rewritten, there⟩
  rw [found, Option.some.injEq, Face.string.injEq] at there
  rw [rewritten, there]

/-- A value without any of the texts. -/
theorem rewrites_self {value : Json}
    (textless : ∀ path text, places path = true → value.faceAt path ≠ some (.string text)) :
    Rewrites rewrite places value value where
  texts path text inside found := absurd found (textless path text inside)
  rest _ _ := rfl

theorem Rewrites.trans {second : String → Except ε String} {before between after : Json}
    (first : Rewrites rewrite places before between)
    (next : Rewrites second places between after) :
    Rewrites (fun text => (rewrite text).bind second) places before after where
  texts path text inside found := by
    rcases first.texts path text inside found with ⟨middle, rewritten, there⟩
    rcases next.texts path middle inside there with ⟨last, again, there⟩
    exact ⟨last, by rw [rewritten]; exact again, there⟩
  rest path other := by
    have kept := first.rest path other
    rw [next.rest path (fun inside text => by rw [kept]; exact other inside text), kept]

/-- A text that is there afterwards was a text before. -/
theorem Rewrites.text_before {before after : Json} (rewrites : Rewrites rewrite places before after)
    {path : Path} {next : String} (found : after.faceAt path = some (.string next))
    (inside : places path = true) :
    ∃ text, before.faceAt path = some (.string text) ∧ rewrite text = .ok next := by
  by_cases textual : ∃ text, before.faceAt path = some (.string text)
  · rcases textual with ⟨text, was⟩
    rcases rewrites.texts path text inside was with ⟨last, rewritten, there⟩
    rw [found, Option.some.injEq, Face.string.injEq] at there
    rw [← there] at rewritten
    exact ⟨text, was, rewritten⟩
  · rw [not_exists] at textual
    rw [rewrites.rest path fun _ => textual] at found
    exact absurd found (textual next)

theorem Rewrites.textual {before after : Json} (rewrites : Rewrites rewrite places before after)
    (path : Path) : (∃ text, after.faceAt path = some (.string text)) ↔
      ∃ text, before.faceAt path = some (.string text) := by
  by_cases was : ∃ text, before.faceAt path = some (.string text)
  · cases inside : places path with
    | true =>
        rcases was with ⟨text, was⟩
        rcases rewrites.texts path text inside was with ⟨next, _, there⟩
        exact ⟨fun _ => ⟨text, was⟩, fun _ => ⟨next, there⟩⟩
    | false =>
        rw [rewrites.rest path fun yes => absurd (inside.symm.trans yes) (by simp)]
  · rw [rewrites.rest path fun _ => not_exists.mp was]

end Visiting

section Combining

variable {ε : Type} {rewrite : String → Except ε String} {places others : Path → Bool}

/-- A walk over a map, for a value that may be none. -/
def onObject (walk : Fields → Except ε (Fields × Bool)) : Json → Except ε (Json × Bool)
  | .object fields => (walk fields).map fun next => (.object next.1, next.2)
  | value => .ok (value, false)

def onText (rewrite : String → Except ε String) : Json → Except ε (Json × Bool)
  | .string text => (rewrite text).map fun next => (.string next, decide (next ≠ text))
  | value => .ok (value, false)

def visitItems (visit : Json → Except ε (Json × Bool)) : List Json → Except ε (List Json × Bool)
  | [] => .ok ([], false)
  | item :: rest => do
      let next ← visit item
      let others ← visitItems visit rest
      .ok (next.1 :: others.1, next.2 || others.2)

def onArray (visit : Json → Except ε (Json × Bool)) : Json → Except ε (Json × Bool)
  | .array items => (visitItems visit items).map fun next => (.array next.1, next.2)
  | value => .ok (value, false)

/-- The member with a key. -/
def atMember (visit : Json → Except ε (Json × Bool)) (key : String) (fields : Fields) :
    Except ε (Fields × Bool) :=
  (visit (field fields key)).map fun next =>
    if next.2 then (setField fields key next.1, true) else (fields, false)

/-- One walk after another. -/
def andThen {α : Type} (first second : α → Except ε (α × Bool)) (value : α) :
    Except ε (α × Bool) := do
  let begun ← first value
  let done ← second begun.1
  .ok (done.1, begun.2 || done.2)

theorem map_eq_ok {α β : Type} {result : Except ε α} {f : α → β} {value : β} :
    result.map f = .ok value ↔ ∃ before, result = .ok before ∧ f before = value := by
  cases result <;> simp [Except.map]

theorem map_eq_error {α β : Type} {result : Except ε α} {f : α → β} {error : ε} :
    result.map f = .error error ↔ result = .error error := by
  cases result <;> simp [Except.map]

theorem bind_eq_ok {α β : Type} {result : Except ε α} {f : α → Except ε β} {value : β} :
    (result >>= f) = .ok value ↔ ∃ before, result = .ok before ∧ f before = .ok value := by
  cases result <;> simp [Bind.bind, Except.bind]

theorem bind_eq_error {α β : Type} {result : Except ε α} {f : α → Except ε β} {error : ε} :
    (result >>= f) = .error error ↔
      result = .error error ∨ ∃ before, result = .ok before ∧ f before = .error error := by
  cases result <;> simp [Bind.bind, Except.bind]

theorem andThen_eq_ok {α : Type} {first second : α → Except ε (α × Bool)} {value next : α}
    {changed : Bool} (done : andThen first second value = .ok (next, changed)) :
    ∃ between begun ended, first value = .ok (between, begun) ∧
      second between = .ok (next, ended) ∧ changed = (begun || ended) := by
  simp only [andThen, bind_eq_ok, Except.ok.injEq, Prod.mk.injEq] at done
  rcases done with ⟨begun, one, ended, two, rfl, rfl⟩
  exact ⟨begun.1, begun.2, ended.2, one, two, rfl⟩

theorem andThen_eq_error {α : Type} {first second : α → Except ε (α × Bool)} {value : α}
    {error : ε} (failed : andThen first second value = .error error) :
    first value = .error error ∨
      ∃ between begun, first value = .ok (between, begun) ∧ second between = .error error := by
  simp only [andThen, bind_eq_error] at failed
  rcases failed with one | ⟨begun, one, two | ⟨_, _, never⟩⟩
  · left
    exact one
  · right
    exact ⟨begun.1, begun.2, one, two⟩
  · cases never

/-- Walks over different texts, one after the other. -/
theorem Visits.andThen {first second : Json → Except ε (Json × Bool)}
    (begins : Visits rewrite places first) (ends : Visits rewrite others second)
    (apart : ∀ path, places path = true → others path = false) :
    Visits rewrite (fun path => places path || others path) (andThen first second) where
  still := by
    intro value still
    have one := begins.still fun path text inside => still path text (by simp [inside])
    have two := ends.still fun path text inside => still path text (by simp [inside])
    simp [Guard.andThen, one, two, Bind.bind, Except.bind]
  rewrites := by
    intro value next changed done
    rcases andThen_eq_ok done with ⟨between, begun, ended, one, two, _⟩
    have before := begins.rewrites one
    have after := ends.rewrites two
    constructor
    · intro path text inside found
      cases here : places path with
      | true =>
          rcases before.texts path text here found with ⟨rewritten, does, there⟩
          refine ⟨rewritten, does, ?_⟩
          rw [after.rest path fun there => absurd (there.symm.trans (apart path here)) (by simp)]
          exact there
      | false =>
          rw [here, Bool.false_or] at inside
          have kept := before.rest path fun yes => absurd (here.symm.trans yes) (by simp)
          rw [← kept] at found
          exact after.texts path text inside found
    · intro path other
      have kept := before.rest path fun inside => other (by simp [inside])
      rw [after.rest path fun inside => ?_, kept]
      rw [kept]
      exact other (by simp [inside])
  unchanged := by
    intro value next done
    rcases andThen_eq_ok done with ⟨between, begun, ended, one, two, same⟩
    have both : begun = false ∧ ended = false := by simpa using same.symm
    rw [both.1] at one
    rw [both.2] at two
    rw [ends.unchanged two, begins.unchanged one]
  refuses := by
    intro value error failed
    rcases andThen_eq_error failed with one | ⟨between, begun, one, two⟩
    · rcases begins.refuses one with ⟨path, text, inside, found, refused⟩
      exact ⟨path, text, by simp [inside], found, refused⟩
    · rcases ends.refuses two with ⟨path, text, inside, found, refused⟩
      have kept := (begins.rewrites one).rest path fun here =>
        absurd (inside.symm.trans (apart path here)) (by simp)
      rw [kept] at found
      exact ⟨path, text, by simp [inside], found, refused⟩
  loads := by
    intro value next changed self done
    rcases andThen_eq_ok done with ⟨between, begun, ended, one, two, _⟩
    exact ends.loads (begins.loads self one) two

theorem visits_onText : Visits rewrite itself (onText rewrite) where
  still := by
    intro value still
    cases value with
    | string text =>
        have same : rewrite text = .ok text := still [] text rfl rfl
        simp [onText, same, Except.map]
    | null | bool _ | number _ | array _ | object _ => rfl
  rewrites := by
    intro value next changed done
    cases value with
    | string text =>
        rw [onText, map_eq_ok] at done
        rcases done with ⟨last, rewritten, same⟩
        rw [Prod.mk.injEq] at same
        rcases same with ⟨rfl, _⟩
        constructor
        · intro path other inside found
          rcases path with _ | ⟨step, rest⟩
          · cases found
            exact ⟨last, rewritten, rfl⟩
          · cases inside
        · intro path other
          rcases path with _ | ⟨step, rest⟩
          · exact absurd rfl (other rfl text)
          · rw [faceAt_string, faceAt_string]
    | null | bool _ | number _ | array _ | object _ =>
        cases done
        apply rewrites_self
        intro path text inside
        rcases path with _ | ⟨step, rest⟩
        · simp [Json.face]
        · cases inside
  unchanged := by
    intro value next done
    cases value with
    | string text =>
        rw [onText, map_eq_ok] at done
        rcases done with ⟨last, _, same⟩
        rw [Prod.mk.injEq, decide_eq_false_iff_not, not_not] at same
        rcases same with ⟨rfl, rfl⟩
        rfl
    | null | bool _ | number _ | array _ | object _ =>
        cases done
        rfl
  refuses := by
    intro value error failed
    cases value with
    | string text =>
        rw [onText, map_eq_error] at failed
        exact ⟨[], text, rfl, rfl, failed⟩
    | null | bool _ | number _ | array _ | object _ => cases failed
  loads := by
    intro value next changed self done
    cases value with
    | string text =>
        rw [onText, map_eq_ok] at done
        rcases done with ⟨last, _, same⟩
        rw [Prod.mk.injEq] at same
        rw [← same.1]
        rfl
    | null | bool _ | number _ | array _ | object _ =>
        cases done
        exact self

theorem onObject_eq_ok {walk : Fields → Except ε (Fields × Bool)} {value next : Json}
    {changed : Bool} (done : onObject walk value = .ok (next, changed)) :
    (∃ fields after, value = .object fields ∧ next = .object after ∧
        walk fields = .ok (after, changed)) ∨
      (∀ fields, value ≠ .object fields) ∧ next = value ∧ changed = false := by
  cases value with
  | object fields =>
      rw [onObject, map_eq_ok] at done
      rcases done with ⟨after, walks, same⟩
      rw [Prod.mk.injEq] at same
      rcases same with ⟨rfl, rfl⟩
      exact Or.inl ⟨fields, after.1, rfl, rfl, walks⟩
  | null | bool _ | number _ | array _ | string _ =>
      cases done
      right
      simp

/-- The texts of a member are seen from its object. -/
theorem faceAt_member {fields : Fields} {key : String} {path : Path} {text : String} :
    (field fields key).faceAt path = some (.string text) ↔
      (Json.object fields).faceAt (.key key :: path) = some (.string text) := by
  rw [faceAt_key, field]
  cases fieldOf fields key with
  | some value => rfl
  | none => cases path <;> simp [Json.face, faceAt_cons, Json.child]

theorem within_iff {key : String} {path : Path} :
    within key places path = true ↔ ∃ rest, path = .key key :: rest ∧ places rest = true := by
  rcases path with _ | ⟨name | position, rest⟩
  · simp [within]
  · simp [within]
  · simp [within]

theorem visits_atMember {visit : Json → Except ε (Json × Bool)} {key : String}
    (visits : Visits rewrite places visit) :
    Visits rewrite (within key places) (onObject (atMember visit key)) where
  still := by
    intro value still
    cases value with
    | object fields =>
        have stays : Still rewrite places (field fields key) := by
          intro path text inside found
          exact still (.key key :: path) text (within_iff.mpr ⟨path, rfl, inside⟩)
            (faceAt_member.mp found)
        have same := visits.still stays
        simp [onObject, atMember, same, Except.map]
    | null | bool _ | number _ | array _ | string _ => rfl
  rewrites := by
    intro value next changed done
    rcases onObject_eq_ok done with ⟨fields, after, rfl, rfl, walks⟩ | ⟨other, rfl, _⟩
    · rw [atMember, map_eq_ok] at walks
      rcases walks with ⟨⟨member, touched⟩, visited, same⟩
      have inner := visits.rewrites visited
      constructor
      · intro path text inside found
        rcases within_iff.mp inside with ⟨rest, rfl, here⟩
        rcases inner.texts rest text here (faceAt_member.mpr found) with ⟨last, does, there⟩
        refine ⟨last, does, ?_⟩
        cases touched with
        | true =>
            cases same
            rw [faceAt_setField_self, there]
        | false =>
            cases same
            rw [visits.unchanged visited] at there
            exact faceAt_member.mp there
      · intro path others
        cases touched with
        | false =>
            cases same
            rfl
        | true =>
            cases same
            rcases path with _ | ⟨name | position, rest⟩
            · rfl
            · by_cases here : name = key
              · subst here
                rw [faceAt_setField_self, inner.rest rest fun inside text found =>
                  others (within_iff.mpr ⟨rest, rfl, inside⟩) text (faceAt_member.mp found)]
                rw [faceAt_key, field]
                cases there : fieldOf fields name with
                | some value => rfl
                | none =>
                    -- a member that is missing has no texts
                    have null : visit (field fields name) = .ok (field fields name, false) := by
                      apply visits.still
                      intro path text _ found
                      rw [faceAt_member, faceAt_key, there] at found
                      cases found
                    rw [null] at visited
                    cases visited
              · rw [faceAt_setField_ne here]
            · rfl
    · apply rewrites_self
      intro path text inside found
      rcases within_iff.mp inside with ⟨rest, rfl, _⟩
      rw [faceAt_cons] at found
      cases next with
      | object fields => exact other fields rfl
      | null | bool _ | number _ | array _ | string _ => cases found
  unchanged := by
    intro value next done
    rcases onObject_eq_ok done with ⟨fields, after, rfl, rfl, walks⟩ | ⟨_, rfl, _⟩
    · rw [atMember, map_eq_ok] at walks
      rcases walks with ⟨⟨member, touched⟩, _, same⟩
      cases touched with
      | true => cases same
      | false =>
          cases same
          rfl
    · rfl
  refuses := by
    intro value error failed
    cases value with
    | object fields =>
        rw [onObject, map_eq_error, atMember, map_eq_error] at failed
        rcases visits.refuses failed with ⟨path, text, inside, found, refused⟩
        exact ⟨.key key :: path, text, within_iff.mpr ⟨path, rfl, inside⟩,
          faceAt_member.mp found, refused⟩
    | null | bool _ | number _ | array _ | string _ => cases failed
  loads := by
    intro value next changed self done
    rcases onObject_eq_ok done with ⟨fields, after, rfl, rfl, walks⟩ | ⟨_, rfl, _⟩
    · rw [atMember, map_eq_ok] at walks
      rcases walks with ⟨⟨member, touched⟩, visited, same⟩
      rw [load_object_self] at self
      have memberSelf := visits.loads (load_field self key) visited
      cases touched with
      | true =>
          cases same
          exact load_object_self.mpr (loadFields_setField self memberSelf)
      | false =>
          cases same
          exact load_object_self.mpr self
    · exact self

theorem visitItems_ok {visit : Json → Except ε (Json × Bool)} (visits : Visits rewrite places visit)
    {items next : List Json} {changed : Bool} (done : visitItems visit items = .ok (next, changed)) :
    List.Forall₂ (Rewrites rewrite places) items next ∧ (changed = false → next = items) ∧
      ((∀ item ∈ items, item.load = some item) → ∀ item ∈ next, item.load = some item) := by
  induction items generalizing next changed with
  | nil =>
      cases done
      simp
  | cons item rest ih =>
      simp only [visitItems, bind_eq_ok, Except.ok.injEq, Prod.mk.injEq] at done
      rcases done with ⟨⟨head, headChanged⟩, visited, ⟨tail, tailChanged⟩, restVisited, rfl, rfl⟩
      rcases ih restVisited with ⟨restRewrites, restUnchanged, restLoads⟩
      refine ⟨List.Forall₂.cons (visits.rewrites visited) restRewrites, ?_, ?_⟩
      · intro unchanged
        simp only [Bool.or_eq_false_iff] at unchanged
        rcases unchanged with ⟨rfl, rfl⟩
        rw [visits.unchanged visited, restUnchanged rfl]
      · intro selves
        rw [List.forall_mem_cons] at selves ⊢
        exact ⟨visits.loads selves.1 visited, restLoads selves.2⟩

theorem visitItems_error {visit : Json → Except ε (Json × Bool)}
    (visits : Visits rewrite places visit) {items : List Json} {error : ε}
    (failed : visitItems visit items = .error error) :
    ∃ (position : ℕ) (item : Json) (path : Path) (text : String),
      items[position]? = some item ∧ places path = true ∧
      item.faceAt path = some (.string text) ∧ rewrite text = .error error := by
  induction items with
  | nil => cases failed
  | cons item rest ih =>
      simp only [visitItems, bind_eq_error, reduceCtorEq, and_false, exists_false, or_false] at failed
      rcases failed with here | ⟨_, _, later⟩
      · rcases visits.refuses here with ⟨path, text, inside, found, refused⟩
        exact ⟨0, item, path, text, rfl, inside, found, refused⟩
      · rcases ih later with ⟨position, item, path, text, there, inside, found, refused⟩
        exact ⟨position + 1, item, path, text, there, inside, found, refused⟩

theorem visitItems_still {visit : Json → Except ε (Json × Bool)}
    (visits : Visits rewrite places visit) {items : List Json}
    (still : ∀ item ∈ items, Still rewrite places item) :
    visitItems visit items = .ok (items, false) := by
  induction items with
  | nil => rfl
  | cons item rest ih =>
      rw [List.forall_mem_cons] at still
      simp [visitItems, visits.still still.1, ih still.2, Bind.bind, Except.bind]

theorem withinItems_iff {path : Path} :
    withinItems places path = true ↔
      ∃ position rest, path = .index position :: rest ∧ places rest = true := by
  rcases path with _ | ⟨name | position, rest⟩
  · simp [withinItems]
  · simp [withinItems]
  · simp [withinItems]

theorem rewrites_items {items next : List Json}
    (each : List.Forall₂ (Rewrites rewrite places) items next) :
    Rewrites rewrite (withinItems places) (.array items) (.array next) where
  texts := by
    intro path text inside found
    rcases withinItems_iff.mp inside with ⟨position, rest, rfl, inside⟩
    rw [faceAt_index, Option.bind_eq_some_iff] at found
    rcases found with ⟨item, there, found⟩
    have before := (List.getElem?_eq_some_iff.mp there).1
    have after : position < next.length := by
      rw [← each.length_eq]
      exact before
    rw [List.getElem?_eq_getElem before, Option.some.injEq] at there
    have inner := each.get before after
    simp only [List.get_eq_getElem, there] at inner
    rcases inner.texts rest text inside found with ⟨last, does, lastFound⟩
    refine ⟨last, does, ?_⟩
    rw [faceAt_index, List.getElem?_eq_getElem after, Option.bind_some, lastFound]
  rest := by
    intro path others
    rcases path with _ | ⟨name | position, rest⟩
    · simp [Json.face, each.length_eq]
    · rfl
    · rw [faceAt_index, faceAt_index]
      by_cases before : position < items.length
      · have after : position < next.length := by
          rw [← each.length_eq]
          exact before
        have inner := each.get before after
        rw [List.getElem?_eq_getElem before, List.getElem?_eq_getElem after, Option.bind_some,
          Option.bind_some]
        apply inner.rest rest
        intro inside text found
        apply others (withinItems_iff.mpr ⟨position, rest, rfl, inside⟩) text
        rw [faceAt_index, List.getElem?_eq_getElem before]
        exact found
      · have after : ¬position < next.length := by
          rw [← each.length_eq]
          exact before
        rw [List.getElem?_eq_none (not_lt.mp before), List.getElem?_eq_none (not_lt.mp after)]

theorem visits_onArray {visit : Json → Except ε (Json × Bool)}
    (visits : Visits rewrite places visit) :
    Visits rewrite (withinItems places) (onArray visit) where
  still := by
    intro value still
    cases value with
    | array items =>
        have same : visitItems visit items = .ok (items, false) := by
          apply visitItems_still visits
          intro item inside path text here found
          rcases List.getElem?_of_mem inside with ⟨position, there⟩
          apply still (.index position :: path) text (withinItems_iff.mpr ⟨_, _, rfl, here⟩)
          rw [faceAt_index, there]
          exact found
        simp [onArray, same, Except.map]
    | null | bool _ | number _ | object _ | string _ => rfl
  rewrites := by
    intro value next changed done
    cases value with
    | array items =>
        rw [onArray, map_eq_ok] at done
        rcases done with ⟨⟨after, touched⟩, visited, same⟩
        cases same
        exact rewrites_items (visitItems_ok visits visited).1
    | null | bool _ | number _ | object _ | string _ =>
        cases done
        apply rewrites_self
        intro path text inside found
        rcases withinItems_iff.mp inside with ⟨position, rest, rfl, _⟩
        cases found
  unchanged := by
    intro value next done
    cases value with
    | array items =>
        rw [onArray, map_eq_ok] at done
        rcases done with ⟨⟨after, touched⟩, visited, same⟩
        cases same
        rw [(visitItems_ok visits visited).2.1 rfl]
    | null | bool _ | number _ | object _ | string _ =>
        cases done
        rfl
  refuses := by
    intro value error failed
    cases value with
    | array items =>
        rw [onArray, map_eq_error] at failed
        rcases visitItems_error visits failed with
          ⟨position, item, path, text, there, inside, found, refused⟩
        refine ⟨.index position :: path, text, withinItems_iff.mpr ⟨_, _, rfl, inside⟩, ?_, refused⟩
        rw [faceAt_index, there]
        exact found
    | null | bool _ | number _ | object _ | string _ => cases failed
  loads := by
    intro value next changed self done
    cases value with
    | array items =>
        rw [onArray, map_eq_ok] at done
        rcases done with ⟨⟨after, touched⟩, visited, same⟩
        cases same
        rw [load_array_self] at self ⊢
        exact (visitItems_ok visits visited).2.2 self
    | null | bool _ | number _ | object _ | string _ =>
        cases done
        exact self

end Combining

end MikroLLM.Guard
