import MikroLLM.Guard.Screening
import MikroLLM.Library.Replacing

/-!
# Masking words

A `block_words` policy that masks looks for its words one after another, in lower
case, and replaces the matches of the first one that it finds, up to the folding of
regular expressions. The other words stay where they are, and so do the occurrences
of the first word that the folding does not match.
-/

namespace MikroLLM.Guard

open Domain Go Library

/-- What Go knows of letters: `unicode.ToLower`, whether `(?i)` takes one character for another,
and whether the pattern of a word compiles. -/
structure Folding where
  lower : Char → Char
  folds : Char → Char → Bool
  compiles : String → Bool

/-- The letters of ASCII. -/
def asciiFolding : Folding where
  lower := Char.toLower
  folds first second := first.toLower = second.toLower
  compiles _ := true

/-- What the policy puts in place of a word. -/
def filtered : String :=
  "[filtered]"

section Words

variable (folding : Folding)

/-- `strings.ToLower`. -/
def Folding.toLower (text : List Char) : List Char :=
  text.map folding.lower

/-- `containsFold`. -/
def containsFold (text sub : String) : Bool :=
  decide (folding.toLower sub.toList <:+: folding.toLower text.toList)

/-- The text begins with the word, up to folding. -/
def beginsFold : List Char → List Char → Bool
  | [], _ => true
  | _ :: _, [] => false
  | first :: word, second :: text => folding.folds first second && beginsFold word text

/-- `maskFold`, for a word that is not empty. -/
def maskFold (text word replacement : String) : String :=
  if folding.compiles word then
    String.ofList (replaceFrom (beginsFold folding word.toList) word.toList.length
      replacement.toList 0 text.toList)
  else text

/-- `block_words` in `applyPolicy`: what becomes of a text, or why it is refused. -/
def blockWords (action : GuardAction) : List String → String → Except String String
  | [], text => .ok text
  | word :: rest, text =>
      if trimSpace word = "" then blockWords action rest text
      else if containsFold folding text (trimSpace word) then
        if action = .mask then .ok (maskFold folding text (trimSpace word) filtered)
        else .error "стоп-слово"
      else blockWords action rest text

/-- The filters of the `block_words` policies. -/
def wordFilters : Filters :=
  fun policy =>
    if policy.kind = .blockWords then
      some (blockWords folding policy.action policy.config.words)
    else none

end Words

/-- The words of a policy, trimmed, but for the blank ones. -/
def listed (words : List String) : List String :=
  (words.map trimSpace).filter (· ≠ "")

section Conditions

variable (folding : Folding) (words : List String)

/-- No listed word is found in the text, unless it is found in the token. -/
def Clean (text : String) : Prop :=
  ∀ word ∈ listed words, containsFold folding filtered word = false →
    containsFold folding text word = false

/-- What masking a word keeps of a text: what stands before, between and behind its matches. -/
def keptParts (text word : String) : List (List Char) :=
  if folding.compiles word then
    keptFrom (beginsFold folding word.toList) word.toList.length 0 text.toList
  else [text.toList]

/-- When the text has a listed word, the matches of the first such word cover all the listed words in
it, and none of them lies across the edge of a token. -/
def Covered (text : String) : Prop :=
  ∀ first, (listed words).find? (fun word => containsFold folding text word) = some first →
    ∀ word ∈ listed words, containsFold folding filtered word = false →
      (∀ part ∈ keptParts folding text first,
        ¬folding.toLower word.toList <:+: folding.toLower part) ∧
      ¬Straddles (folding.toLower word.toList) (folding.toLower filtered.toList)
        ((keptParts folding text first).map folding.toLower)

end Conditions

section Masking

variable {folding : Folding} {words : List String} {text word : String}

theorem maskFold_eq (text word replacement : String) :
    (maskFold folding text word replacement).toList =
      replacement.toList.intercalate (keptParts folding text word) := by
  rw [maskFold, keptParts]
  by_cases compiles : folding.compiles word = true
  · rw [if_pos compiles, if_pos compiles, String.toList_ofList, replaceFrom_eq]
  · rw [if_neg compiles, if_neg compiles, List.intercalate_singleton]

/-- Only the first word that is found is masked. -/
theorem blockWords_mask (words : List String) (text : String) :
    blockWords folding .mask words text =
      .ok (match (listed words).find? fun word => containsFold folding text word with
        | none => text
        | some first => maskFold folding text first filtered) := by
  induction words with
  | nil => rfl
  | cons word rest ih =>
      rw [blockWords]
      by_cases blank : trimSpace word = ""
      · have others : listed (word :: rest) = listed rest := by
          simp [listed, blank]
        rw [if_pos blank, ih, others]
      · have one : listed (word :: rest) = trimSpace word :: listed rest := by
          simp [listed, blank]
        rw [if_neg blank, one, List.find?_cons]
        cases containsFold folding text (trimSpace word) with
        | true => rfl
        | false => exact ih

/-- Whether a masked text has a word that the token has not. -/
theorem containsFold_maskFold (outside : containsFold folding filtered word = false)
    (text first : String) :
    containsFold folding (maskFold folding text first filtered) word = false ↔
      (∀ part ∈ keptParts folding text first,
        ¬folding.toLower word.toList <:+: folding.toLower part) ∧
      ¬Straddles (folding.toLower word.toList) (folding.toLower filtered.toList)
        ((keptParts folding text first).map folding.toLower) := by
  have notInToken : ¬folding.toLower word.toList <:+: folding.toLower filtered.toList :=
    of_decide_eq_false outside
  have joined : folding.toLower (maskFold folding text first filtered).toList =
      (folding.toLower filtered.toList).intercalate
        ((keptParts folding text first).map folding.toLower) := by
    rw [maskFold_eq]
    exact map_intercalate folding.lower _ _
  rw [containsFold, decide_eq_false_iff_not, joined, infix_intercalate_iff notInToken, not_or]
  simp only [List.mem_map, exists_exists_and_eq_and, not_exists, not_and]

/-- A text is clean after masking exactly when its words were covered. -/
theorem clean_iff (words : List String) (text : String) :
    ∃ masked, blockWords folding .mask words text = .ok masked ∧
      (Clean folding words masked ↔ Covered folding words text) := by
  refine ⟨_, blockWords_mask words text, ?_⟩
  cases found : (listed words).find? fun word => containsFold folding text word with
  | none =>
      have nothing := List.find?_eq_none.mp found
      have isClean : Clean folding words text := by
        intro word isListed _
        exact eq_false_of_ne_true (nothing word isListed)
      have isCovered : Covered folding words text := by
        intro first isFirst
        rw [found] at isFirst
        exact nomatch isFirst
      exact iff_of_true isClean isCovered
  | some first =>
      simp only [Clean, Covered, found, Option.some.injEq, forall_eq']
      apply forall_congr'
      intro word
      apply forall_congr'
      intro _
      apply forall_congr'
      intro outside
      exact containsFold_maskFold outside text first

theorem rewriting_words {policy : Policy} (isWords : policy.kind = .blockWords)
    (isMask : policy.action = .mask) (text : String) :
    rewriting (wordFilters folding) policy text =
      (blockWords folding .mask policy.config.words text).mapError (reject policy) := by
  have notPrompt : ¬policy.kind = .systemPrompt := by
    rw [isWords]
    decide
  have filter : wordFilters folding policy =
      some (blockWords folding .mask policy.config.words) := by
    rw [wordFilters, if_pos isWords, isMask]
  rw [rewriting, if_neg notPrompt, filter]

/-- One text of a body. -/
theorem clean_text_iff {policy : Policy} (isWords : policy.kind = .blockWords)
    (isMask : policy.action = .mask) (text : String) :
    ∃ masked, rewriting (wordFilters folding) policy text = .ok masked ∧
      (Clean folding policy.config.words masked ↔ Covered folding policy.config.words text) := by
  rcases clean_iff policy.config.words text with ⟨masked, done, cleanIff⟩
  refine ⟨masked, ?_, cleanIff⟩
  rw [rewriting_words isWords isMask, done]
  rfl

/-- All texts of a body. -/
theorem clean_texts_iff {policy : Policy} (isWords : policy.kind = .blockWords)
    (isMask : policy.action = .mask) (raw : Fields) :
    ∃ next changed, applyOne (wordFilters folding) policy raw = .ok (next, changed) ∧
      ((∀ path text, texts path = true → (Json.object next).faceAt path = some (.string text) →
          Clean folding policy.config.words text) ↔
        ∀ path text, texts path = true → (Json.object raw).faceAt path = some (.string text) →
          Covered folding policy.config.words text) := by
  have walks : Walks (rewriting (wordFilters folding) policy) texts
      (applyOne (wordFilters folding) policy) := walks_applyOne policy
  cases done : applyOne (wordFilters folding) policy raw with
  | error block =>
      have failed : onObject (applyOne (wordFilters folding) policy) (.object raw) =
          .error block := by
        rw [onObject, done]
        rfl
      rcases walks.refuses failed with ⟨path, text, _, _, refused⟩
      rcases @clean_text_iff folding policy isWords isMask text with ⟨masked, accepted, _⟩
      rw [accepted] at refused
      cases refused
  | ok result =>
      rcases result with ⟨next, changed⟩
      refine ⟨next, changed, rfl, ?_⟩
      have passed : onObject (applyOne (wordFilters folding) policy) (.object raw) =
          .ok (.object next, changed) := by
        rw [onObject, done]
        rfl
      have rewrites := walks.rewrites passed
      constructor
      · intro clean path text inside found
        rcases rewrites.texts path text inside found with ⟨masked, rewritten, there⟩
        rcases @clean_text_iff folding policy isWords isMask text with ⟨same, accepted, cleanIff⟩
        rw [rewritten, Except.ok.injEq] at accepted
        rw [← accepted] at cleanIff
        exact cleanIff.mp (clean path masked inside there)
      · intro covered path masked inside there
        rcases rewrites.text_before there inside with ⟨text, found, rewritten⟩
        rcases @clean_text_iff folding policy isWords isMask text with ⟨same, accepted, cleanIff⟩
        rw [rewritten, Except.ok.injEq] at accepted
        rw [← accepted] at cleanIff
        exact cleanIff.mpr (covered path text inside found)

end Masking

/-- The texts that a masking `block_words` policy makes have none of its words exactly when the
matches of the first word found covered them all. -/
theorem masks_iff (folding : Folding) (policy : Policy) (isWords : policy.kind = .blockWords)
    (isMask : policy.action = .mask) :
    (∀ text, ∃ masked, rewriting (wordFilters folding) policy text = .ok masked ∧
        (Clean folding policy.config.words masked ↔ Covered folding policy.config.words text)) ∧
      ∀ raw, ∃ next changed, applyOne (wordFilters folding) policy raw = .ok (next, changed) ∧
        ((∀ path text, texts path = true → (Json.object next).faceAt path = some (.string text) →
            Clean folding policy.config.words text) ↔
          ∀ path text, texts path = true → (Json.object raw).faceAt path = some (.string text) →
            Covered folding policy.config.words text) :=
  ⟨clean_text_iff isWords isMask, clean_texts_iff isWords isMask⟩

/-- A policy that masks two words. -/
def mildPolicy : Policy where
  id := 1
  name := "mild"
  kind := .blockWords
  action := .mask
  mode := .pre
  enabled := true
  config := { prompt := "", words := ["darn", "heck"], pattern := "", pii := [], categories := [],
              plugins := [] }

/-- One word alone is masked. -/
theorem masks_darn : ∃ masked,
    rewriting (wordFilters asciiFolding) mildPolicy "DARN" = .ok masked ∧
      Clean asciiFolding ["darn", "heck"] masked := by
  rcases (masks_iff asciiFolding mildPolicy rfl rfl).1 "DARN" with ⟨masked, done, cleanIff⟩
  refine ⟨masked, done, cleanIff.mpr ?_⟩
  intro first isFirst word isListed outside
  have found : (listed mildPolicy.config.words).find?
      (fun word => containsFold asciiFolding "DARN" word) = some "darn" := by
    decide
  have kept : keptParts asciiFolding "DARN" "darn" = [[], []] := by
    decide
  have notEmpty : word ≠ "" := by
    rintro rfl
    exact of_decide_eq_false outside List.nil_infix
  rw [found, Option.some.injEq] at isFirst
  rw [← isFirst, kept]
  simp [Straddles, Meets, Folding.toLower, notEmpty]

/-- The second word stays. -/
theorem not_masks : ¬∀ (folding : Folding) (policy : Policy), policy.kind = .blockWords →
    policy.action = .mask → ∀ text masked, rewriting (wordFilters folding) policy text = .ok masked →
      Clean folding policy.config.words masked := by
  intro claim
  have done : rewriting (wordFilters asciiFolding) mildPolicy "darn heck" = .ok "[filtered] heck" := by
    decide
  have clean := claim asciiFolding mildPolicy rfl rfl "darn heck" "[filtered] heck" done "heck"
    (by decide) (by decide)
  exact absurd clean (by decide)

end MikroLLM.Guard
