import Mathlib.Data.List.Permutation
import MikroLLM.Go.Codec
import MikroLLM.Params.Keeping

/-!
# The order of the options

The loop over `nativeOptions` writes every option on its own, so that its order can
only matter to an option that two knobs are. The limit of the answer is the only
one: it is `num_predict` and `max_tokens`.
-/

namespace MikroLLM.Params

open Domain Go

section Rounds

variable {profile : Profile} {order others : List (String × String)} {state : Fields × Bool}
  {name : String}

/-- What a round of the loop does to the option that it is about. -/
def round (profile : Profile) (held : Option Json) (knob : String × String) : Option Json :=
  match fieldOf profile.values knob.1 with
  | none => held
  | some value => if held.isNone || profile.locks knob.1 then some value else held

theorem fieldOf_injectOption (knob : String × String) :
    fieldOf (injectOption profile state knob).1 name =
      if knob.2 = name then round profile (fieldOf state.1 name) knob
      else fieldOf state.1 name := by
  cases found : fieldOf profile.values knob.1 with
  | none => simp [injectOption, round, found]
  | some value =>
      simp only [injectOption, round, found]
      by_cases here : knob.2 = name
      · subst here
        rw [if_pos rfl]
        split
        · rw [fieldOf_setField_self]
        · rfl
      · rw [if_neg here]
        split
        · exact fieldOf_setField_ne state.1 value (Ne.symm here)
        · rfl

/-- After the loop an option holds what the rounds that are about it make of it. -/
theorem fieldOf_rounds : fieldOf (order.foldl (injectOption profile) state).1 name =
    (order.filter fun knob => knob.2 = name).foldl (round profile) (fieldOf state.1 name) := by
  induction order generalizing state with
  | nil => rfl
  | cons knob rest ih =>
      rw [List.foldl_cons, ih, fieldOf_injectOption]
      by_cases here : knob.2 = name
      · simp [here]
      · simp [here]

/-- The loop changes something exactly if a knob is to be written into the options as they were. -/
theorem changed_iff {options : Fields} :
    (order.foldl (injectOption profile) (options, false)).2 = true ↔
      ∃ knob ∈ order, fills profile options knob.1 knob.2 = true := by
  have grows (rest : List (String × String)) (state : Fields × Bool) (changed : state.2 = true) :
      (rest.foldl (injectOption profile) state).2 = true := by
    induction rest generalizing state with
    | nil => exact changed
    | cons knob rest ih =>
        apply ih
        rw [injectOption]
        split
        · exact changed
        · split
          · rfl
          · exact changed
  induction order with
  | nil => simp
  | cons knob rest ih =>
      rw [List.foldl_cons]
      simp only [List.mem_cons, exists_eq_or_imp]
      by_cases free : fills profile options knob.1 knob.2 = true
      · refine iff_of_true (grows rest _ ?_) (Or.inl free)
        rw [fills, Bool.and_eq_true, Bool.not_eq_true', has_eq_false] at free
        rcases Option.isSome_iff_exists.mp free.1 with ⟨value, found⟩
        have open' : ((fieldOf options knob.2).isNone || profile.locks knob.1) = true := by
          rw [Bool.or_eq_true, Option.isNone_iff_eq_none]
          exact free.2.symm
        simp only [injectOption, found, open', if_true]
      · have same : injectOption profile (options, false) knob = (options, false) := by
          rw [injectOption]
          split
          · rfl
          · rename_i value found
            rw [if_neg]
            intro open'
            rw [Bool.or_eq_true, Option.isNone_iff_eq_none] at open'
            apply free
            rw [fills, found, has_eq_false.mpr open'.symm]
            rfl
        rw [same]
        exact ih.trans (or_iff_right free).symm

/-- Two knobs are one option only where both are the limit of the answer. -/
theorem filter_nativeOptions (name : String) :
    (nativeOptions.filter fun knob => knob.2 = name).length ≤ 1 ∨ name = "num_predict" := by
  by_cases limit : name = "num_predict"
  · right
    exact limit
  · left
    by_cases known : name ∈ nativeOptions.map Prod.snd
    · have each : ∀ other ∈ nativeOptions.map Prod.snd, other = "num_predict" ∨
          (nativeOptions.filter fun knob => knob.2 = other).length ≤ 1 := by decide
      exact (each name known).resolve_left limit
    · have none : (nativeOptions.filter fun knob => knob.2 = name) = [] := by
        rw [List.filter_eq_nil_iff]
        intro knob inside here
        rw [decide_eq_true_eq] at here
        exact known (List.mem_map.mpr ⟨knob, inside, here⟩)
      simp [none]

theorem filter_num_predict : (nativeOptions.filter fun knob => knob.2 = "num_predict") =
    [("num_predict", "num_predict"), ("max_tokens", "num_predict")] := by
  decide

/-- The rounds about the limit of the answer, in either order. -/
theorem limitRounds (isOrder : order.Perm nativeOptions) :
    (order.filter fun knob => knob.2 = "num_predict") =
        [("num_predict", "num_predict"), ("max_tokens", "num_predict")] ∨
      (order.filter fun knob => knob.2 = "num_predict") =
        [("max_tokens", "num_predict"), ("num_predict", "num_predict")] := by
  have perm := isOrder.filter fun knob => decide (knob.2 = "num_predict")
  rw [filter_num_predict] at perm
  exact List.perm_pair.mp perm

/-- An option that one knob is does not depend on the order. -/
theorem fieldOf_rounds_eq (isOrder : order.Perm nativeOptions) (isOther : others.Perm nativeOptions)
    (notLimit : name ≠ "num_predict") :
    fieldOf (order.foldl (injectOption profile) state).1 name =
      fieldOf (others.foldl (injectOption profile) state).1 name := by
  have short := (filter_nativeOptions name).resolve_right notLimit
  have first := isOrder.filter fun knob => decide (knob.2 = name)
  have second := isOther.filter fun knob => decide (knob.2 = name)
  have same : (order.filter fun knob => knob.2 = name) = others.filter fun knob => knob.2 = name := by
    rcases listed : nativeOptions.filter fun knob => decide (knob.2 = name) with _ | ⟨knob, rest⟩
    · rw [listed] at first second
      rw [first.eq_nil, second.eq_nil]
    · have none : rest = [] := by
        rw [listed, List.length_cons] at short
        exact List.eq_nil_of_length_eq_zero (by omega)
      subst none
      rw [listed] at first second
      rw [List.perm_singleton.mp first, List.perm_singleton.mp second]
  rw [fieldOf_rounds, fieldOf_rounds, same]

end Rounds

section Limits

variable {profile : Profile} {order others : List (String × String)} {raw : Fields}
  {held : Option Json} {first second : Json}

/-- The limit as both knobs leave it, the one of the name `num_predict` first. -/
def limitThen (profile : Profile) (held : Option Json) : Option Json :=
  [("num_predict", "num_predict"), ("max_tokens", "num_predict")].foldl (round profile) held

/-- The limit as both knobs leave it, the one of the name `max_tokens` first. -/
def limitAfter (profile : Profile) (held : Option Json) : Option Json :=
  [("max_tokens", "num_predict"), ("num_predict", "num_predict")].foldl (round profile) held

/-- Both knobs are in the profile with different values, and neither gives way to the other: both
are locked, or none of them is and the client set no limit. -/
def Clashes (profile : Profile) (raw : Fields) : Prop :=
  ∃ first second, fieldOf profile.values "num_predict" = some first ∧
    fieldOf profile.values "max_tokens" = some second ∧ first.face ≠ second.face ∧
    profile.locks "num_predict" = profile.locks "max_tokens" ∧
    (profile.locks "num_predict" = true ∨
      fieldOf (innerOf raw "options") "num_predict" = none)

/-- Neither of the two knobs gives way to the other. -/
def Contend (profile : Profile) (held : Option Json) : Prop :=
  profile.locks "num_predict" = profile.locks "max_tokens" ∧
    (profile.locks "num_predict" = true ∨ held = none)

theorem limit_contended (one : fieldOf profile.values "num_predict" = some first)
    (two : fieldOf profile.values "max_tokens" = some second) (contend : Contend profile held) :
    limitThen profile held = some second ∧ limitAfter profile held = some first ∨
      limitThen profile held = some first ∧ limitAfter profile held = some second := by
  rcases contend with ⟨same, locked | free⟩
  · left
    rw [locked] at same
    simp [limitThen, limitAfter, round, one, two, locked, ← same]
  · subst free
    cases locked : profile.locks "num_predict" with
    | true =>
        left
        rw [locked] at same
        simp [limitThen, limitAfter, round, one, two, locked, ← same]
    | false =>
        right
        rw [locked] at same
        simp [limitThen, limitAfter, round, one, two, locked, ← same]

theorem limit_settled (settled : fieldOf profile.values "num_predict" = none ∨
    fieldOf profile.values "max_tokens" = none ∨ ¬Contend profile held) :
    limitThen profile held = limitAfter profile held := by
  rcases settled with missing | missing | settled
  · simp [limitThen, limitAfter, round, missing]
  · simp [limitThen, limitAfter, round, missing]
  · cases one : fieldOf profile.values "num_predict" with
    | none => simp [limitThen, limitAfter, round, one]
    | some first =>
        cases two : fieldOf profile.values "max_tokens" with
        | none => simp [limitThen, limitAfter, round, two]
        | some second =>
            simp only [Contend, not_and_or, not_or, Bool.not_eq_true] at settled
            cases left : profile.locks "num_predict" <;>
              cases right : profile.locks "max_tokens" <;> cases held <;>
                simp_all [limitThen, limitAfter, round]

end Limits

section Orders

variable {profile : Profile} {order others : List (String × String)} {raw left right : Fields}
  {key : String}

/-- What comes after the options in `injectNative`. -/
def afterOptions (profile : Profile) (raw : Fields) : Fields :=
  injectExtra profile (offer profile "think" "think" raw)

/-- Two maps that differ in their options at most. -/
def SameRest (left right : Fields) : Prop :=
  ∀ key, key ≠ "options" → fieldOf left key = fieldOf right key

theorem fieldOf_setField_congr (same : SameRest left right) (key : String) (value : Json) :
    SameRest (setField left key value) (setField right key value) := by
  intro other differs
  by_cases here : other = key
  · subst here
    rw [fieldOf_setField_self, fieldOf_setField_self]
  · rw [fieldOf_setField_ne left value here, fieldOf_setField_ne right value here]
    exact same other differs

theorem sameRest_afterOptions (sound : profile.Sound) (same : SameRest left right) :
    SameRest (afterOptions profile left) (afterOptions profile right) := by
  have offered : SameRest (offer profile "think" "think" left) (offer profile "think" "think" right) := by
    have equal : has left "think" profile "think" = has right "think" profile "think" := by
      rw [has, has, same "think" (by decide)]
    simp only [offer, equal]
    split
    · split
      · exact same
      · exact fieldOf_setField_congr same _ _
    · exact same
  have each (members : List (String × Json)) (part : ∀ member ∈ members, member ∈ profile.extra)
      (left right : Fields) (same : SameRest left right) :
      SameRest
        (members.foldl (fun raw member =>
          if (fieldOf raw member.1).isNone || profile.locks member.1 then
            setField raw member.1 member.2
          else raw) left)
        (members.foldl (fun raw member =>
          if (fieldOf raw member.1).isNone || profile.locks member.1 then
            setField raw member.1 member.2
          else raw) right) := by
    induction members generalizing left right with
    | nil => exact same
    | cons member rest ih =>
        rw [List.forall_mem_cons] at part
        rw [List.foldl_cons, List.foldl_cons]
        apply ih part.2
        have differs : member.1 ≠ "options" := by
          intro isOptions
          have named := sound.extra_named member part.1
          rw [isOptions] at named
          exact absurd named (by decide)
        rw [same member.1 differs]
        split
        · exact fieldOf_setField_congr same _ _
        · exact same
  exact each profile.extra (fun _ inside => inside) _ _ offered

theorem fieldOf_options_afterOptions (sound : profile.Sound) (raw : Fields) :
    fieldOf (afterOptions profile raw) "options" = fieldOf raw "options" := by
  rw [afterOptions, fieldOf_injectExtra sound (by decide)]
  exact fieldOf_offer_ne (by decide)

/-- The options after the loop. -/
def optionsAfter (profile : Profile) (order : List (String × String)) (raw : Fields) : Fields :=
  (order.foldl (injectOption profile) (innerOf raw "options", false)).1

theorem changed_congr (isOrder : order.Perm nativeOptions) (isOther : others.Perm nativeOptions)
    (options : Fields) :
    (order.foldl (injectOption profile) (options, false)).2 =
      (others.foldl (injectOption profile) (options, false)).2 := by
  rw [Bool.eq_iff_iff, changed_iff, changed_iff]
  simp only [isOrder.mem_iff, isOther.mem_iff]

/-- The result depends on the order as the options do. -/
theorem alike_injectNative_iff (sound : profile.Sound) (isOrder : order.Perm nativeOptions)
    (isOther : others.Perm nativeOptions) :
    Alike (.object (injectNative order profile raw)) (.object (injectNative others profile raw)) ↔
      Alike (.object (optionsAfter profile order raw)) (.object (optionsAfter profile others raw)) := by
  have changes : (order.foldl (injectOption profile) (innerOf raw "options", false)).2 =
      (others.foldl (injectOption profile) (innerOf raw "options", false)).2 :=
    changed_congr isOrder isOther (innerOf raw "options")
  cases changed : (order.foldl (injectOption profile) (innerOf raw "options", false)).2 with
  | false =>
      have otherChanged := changes.symm.trans changed
      have loop (order : List (String × String)) (isOrder : order.Perm nativeOptions)
          (unchanged : (order.foldl (injectOption profile) (innerOf raw "options", false)).2 = false) :
          optionsAfter profile order raw = innerOf raw "options" := by
        have rounds := Loop.rounds (fun knob inside => isOrder.mem_iff.mp inside)
          (fun _ _ => rfl) (fun _ _ _ => rfl)
          (Loop.begins profile (fun _ => true) (innerOf raw "options"))
        exact rounds.unchanged unchanged
      have same : injectNative order profile raw = injectNative others profile raw := by
        simp only [injectNative, changed, otherChanged]
        rfl
      rw [same, loop order isOrder changed, loop others isOther otherChanged]
      exact iff_of_true (fun _ => rfl) fun _ => rfl
  | true =>
      have otherChanged := changes.symm.trans changed
      have set (order : List (String × String))
          (changed : (order.foldl (injectOption profile) (innerOf raw "options", false)).2 = true) :
          injectNative order profile raw = afterOptions profile
            (setField raw "options" (.object (optionsAfter profile order raw))) := by
        simp only [injectNative, changed, if_true]
        rfl
      rw [set order changed, set others otherChanged]
      have rest : SameRest
          (afterOptions profile (setField raw "options" (.object (optionsAfter profile order raw))))
          (afterOptions profile
            (setField raw "options" (.object (optionsAfter profile others raw)))) := by
        apply sameRest_afterOptions sound
        intro key differs
        rw [fieldOf_setField_ne raw _ differs, fieldOf_setField_ne raw _ differs]
      have options (options : Fields) (path : Path) :
          (Json.object (afterOptions profile (setField raw "options" (.object options)))).faceAt
            (.key "options" :: path) = (Json.object options).faceAt path := by
        rw [faceAt_key, fieldOf_options_afterOptions sound, fieldOf_setField_self]
        rfl
      constructor
      · intro alike path
        exact (options _ path).symm.trans ((alike (.key "options" :: path)).trans (options _ path))
      · intro alike path
        rcases path with _ | ⟨key | position, inner⟩
        · rfl
        · by_cases here : key = "options"
          · rw [here, options, options, alike]
          · rw [faceAt_key, faceAt_key, rest key here]
        · rfl

theorem alike_object_iff {left right : Fields} :
    Alike (.object left) (.object right) ↔
      ∀ key path, (fieldOf left key).bind (·.faceAt path) = (fieldOf right key).bind (·.faceAt path) := by
  constructor
  · intro alike key path
    rw [← faceAt_key, ← faceAt_key, alike]
  · intro same path
    rcases path with _ | ⟨key | position, inner⟩
    · rfl
    · rw [faceAt_key, faceAt_key, same]
    · rfl

/-- A knob that is to be an integer is a number. -/
theorem Profile.Sound.integer (sound : profile.Sound) {knob : String} {value : Json}
    (known : knownKeys.lookup knob = some .integer)
    (found : fieldOf profile.values knob = some value) : ∃ literal, value = .number literal := by
  rcases sound.values_known _ (mem_of_fieldOf found) with ⟨outside, wanted, isKnown, typed⟩
  rw [known, Option.some.injEq] at isKnown
  subst isKnown
  cases value with
  | number literal => exact ⟨literal, rfl⟩
  | null | bool _ | string _ | array _ | object _ => cases typed

theorem faceAt_eq_of_face {first second : Decimal}
    (same : (Json.number first).face = (Json.number second).face) (path : Path) :
    (Json.number first).faceAt path = (Json.number second).faceAt path := by
  rcases path with _ | ⟨step, rest⟩
  · simp [same]
  · rw [faceAt_cons, faceAt_cons]
    cases step <;> rfl

theorem optionsAfter_limit (isOrder : order.Perm nativeOptions) :
    fieldOf (optionsAfter profile order raw) "num_predict" =
        limitThen profile (fieldOf (innerOf raw "options") "num_predict") ∨
      fieldOf (optionsAfter profile order raw) "num_predict" =
        limitAfter profile (fieldOf (innerOf raw "options") "num_predict") := by
  rw [optionsAfter, fieldOf_rounds]
  rcases limitRounds isOrder with first | second
  · left
    rw [first]
    rfl
  · right
    rw [second]
    rfl

/-- The limit after the loop in the order of the list. -/
theorem limit_forwards : fieldOf (optionsAfter profile nativeOptions raw) "num_predict" =
    limitThen profile (fieldOf (innerOf raw "options") "num_predict") := by
  rw [optionsAfter, fieldOf_rounds, filter_num_predict]
  rfl

/-- The limit after the loop in the opposite order. -/
theorem limit_backwards : fieldOf (optionsAfter profile nativeOptions.reverse raw) "num_predict" =
    limitAfter profile (fieldOf (innerOf raw "options") "num_predict") := by
  rw [optionsAfter, fieldOf_rounds, List.filter_reverse, filter_num_predict]
  rfl

/-- The result is the same for every order exactly if the two knobs of the limit do not clash. -/
theorem injectNative_order_iff {outside : Double → ℤ} {codec : Codec} {text : String}
    (accepted : parseProfile outside codec text = some profile) (raw : Fields) :
    (∀ order others : List (String × String), order.Perm nativeOptions →
        others.Perm nativeOptions → Alike (.object (injectNative order profile raw))
          (.object (injectNative others profile raw))) ↔
      ¬Clashes profile raw := by
  have sound := sound_of_parseProfile accepted
  constructor
  · rintro alike ⟨first, second, one, two, differs, contend⟩
    have isReverse : nativeOptions.reverse.Perm nativeOptions := List.reverse_perm _
    have same := (alike_injectNative_iff sound (List.Perm.refl nativeOptions) isReverse).mp
      (alike nativeOptions nativeOptions.reverse (List.Perm.refl _) isReverse)
    rw [alike_object_iff] at same
    have limit := same "num_predict" []
    rw [limit_forwards, limit_backwards] at limit
    rcases limit_contended one two contend with ⟨before, after⟩ | ⟨before, after⟩
    · rw [before, after] at limit
      simp only [Option.bind_some, faceAt_nil, Option.some.injEq] at limit
      exact differs limit.symm
    · rw [before, after] at limit
      simp only [Option.bind_some, faceAt_nil, Option.some.injEq] at limit
      exact differs limit
  · intro settled order others isOrder isOther
    rw [alike_injectNative_iff sound isOrder isOther, alike_object_iff]
    intro key path
    by_cases limit : key = "num_predict"
    · subst limit
      have both : (limitThen profile (fieldOf (innerOf raw "options") "num_predict")).bind
            (·.faceAt path) =
          (limitAfter profile (fieldOf (innerOf raw "options") "num_predict")).bind
            (·.faceAt path) := by
        cases one : fieldOf profile.values "num_predict" with
        | none => rw [limit_settled (Or.inl one)]
        | some first =>
            cases two : fieldOf profile.values "max_tokens" with
            | none => rw [limit_settled (Or.inr (Or.inl two))]
            | some second =>
                by_cases contend : Contend profile (fieldOf (innerOf raw "options") "num_predict")
                · have same : first.face = second.face := by
                    by_contra differs
                    exact settled ⟨first, second, one, two, differs, contend⟩
                  rcases sound.integer (by decide) one with ⟨number, rfl⟩
                  rcases sound.integer (by decide) two with ⟨other, rfl⟩
                  have faces := faceAt_eq_of_face same path
                  rcases limit_contended one two contend with ⟨before, after⟩ | ⟨before, after⟩
                  · simp [before, after, faces]
                  · simp [before, after, faces]
                · rw [limit_settled (Or.inr (Or.inr contend))]
      rcases optionsAfter_limit isOrder with left | left <;>
        rcases optionsAfter_limit isOther with right | right <;>
          rw [left, right] <;> simp only [both]
    · rw [optionsAfter, optionsAfter, fieldOf_rounds_eq isOrder isOther limit]

/-- A profile with two limits. -/
def limitsText : String :=
  "\x7b\"max_tokens\":1,\"num_predict\":2\x7d"

def limits : Profile :=
  ⟨[("max_tokens", .number ⟨1, 0⟩), ("num_predict", .number ⟨2, 0⟩)], [], []⟩

def limitsDocuments : Documents where
  list := [(bytesOf limitsText, encode limits.values)]
  distinct := by decide
  texts := by decide

theorem parseProfile_limitsText :
    parseProfile leastInt64 (knownCodec limitsDocuments) limitsText = some limits := by
  have parsed : (knownCodec limitsDocuments).parse (bytesOf limitsText) = encode limits.values :=
    @Documents.read_of_mem limitsDocuments _ _ List.mem_cons_self
  have maxTokens : readMember leastInt64 .none ("max_tokens", .number ⟨1, 0⟩) =
      some ⟨[("max_tokens", .number ⟨1, 0⟩)], [], []⟩ :=
    readMember_knob (by decide) (by decide) rfl (by decide +kernel)
  have numPredict : readMember leastInt64 ⟨[("max_tokens", .number ⟨1, 0⟩)], [], []⟩
      ("num_predict", .number ⟨2, 0⟩) = some limits :=
    readMember_knob (by decide) (by decide) rfl (by decide +kernel)
  have reads : limits.values.foldlM (readMember leastInt64) .none = some limits := by
    simp only [limits, List.foldlM_cons, List.foldlM_nil, maxTokens, Option.bind_eq_bind,
      Option.bind_some] at numPredict ⊢
    rw [numPredict]
    rfl
  rw [parseProfile_object (by decide) (by decide) parsed (by decide), reads]
  rfl

theorem injectNative_order_limits :
    (∀ order others : List (String × String), order.Perm nativeOptions →
        others.Perm nativeOptions → Alike (.object (injectNative order limits [("num_ctx", .null)]))
          (.object (injectNative others limits [("num_ctx", .null)]))) ↔
      ¬Clashes limits [("num_ctx", .null)] :=
  injectNative_order_iff parseProfile_limitsText [("num_ctx", .null)]

theorem not_injectNative_order : ¬∀ (outside : Double → ℤ) (codec : Codec) (text : String)
    (profile : Profile), parseProfile outside codec text = some profile →
    ∀ (raw : Fields) (order others : List (String × String)), order.Perm nativeOptions →
      others.Perm nativeOptions → Alike (.object (injectNative order profile raw))
        (.object (injectNative others profile raw)) := by
  intro always
  have alike := always leastInt64 (knownCodec limitsDocuments) limitsText limits
    parseProfile_limitsText [] nativeOptions nativeOptions.reverse (List.Perm.refl _)
    (List.reverse_perm _)
  have limit := alike [.key "options", .key "num_predict"]
  have first : (Json.object (injectNative nativeOptions limits [])).faceAt
      [.key "options", .key "num_predict"] = some (.number (Decimal.value ⟨2, 0⟩)) := rfl
  have last : (Json.object (injectNative nativeOptions.reverse limits [])).faceAt
      [.key "options", .key "num_predict"] = some (.number (Decimal.value ⟨1, 0⟩)) := rfl
  rw [first, last] at limit
  simp [Decimal.value] at limit

end Orders

end MikroLLM.Params
