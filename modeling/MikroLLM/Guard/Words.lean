import MikroLLM.Go.Text
import MikroLLM.Go.Utf8

/-!
# Words of a plugin

`hasWord` looks for a word that stands alone: no letter and no digit is next to it.
A phrase with a blank counts wherever it occurs.
-/

namespace MikroLLM.Guard

open Go

/-- The conversion to `[]rune`. -/
def chars (text : Bytes) : List Char :=
  (runes text).map Rune.char

section Searching

variable (library : TextLibrary)

def isWordChar (char : Char) : Bool :=
  library.isLetter char || library.isDigit char

/-- The word is read from a position on. -/
def agreesAt (text : List Char) : ℕ → List Char → Bool
  | _, [] => true
  | position, char :: word =>
      if text[position]? ≠ some char then false else agreesAt text (position + 1) word

/-- The positions that are left, from one on. -/
def scanWord (text word : List Char) : ℕ → ℕ → Bool
  | 0, _ => false
  | left + 1, position =>
      if !agreesAt text position word then scanWord text word left (position + 1)
      else if position > 0 && text[position - 1]?.any (isWordChar library) then
        scanWord text word left (position + 1)
      else if text[position + word.length]?.any (isWordChar library) then
        scanWord text word left (position + 1)
      else true

def hasWord (low word : Bytes) : Bool :=
  let text := chars low
  let word := chars word
  if word.length = 0 ∨ text.length < word.length then false
  else scanWord library text word (text.length - word.length + 1) 0

def keywordHit (low word : String) : Bool :=
  let word := library.toLower (trimSpace word)
  if word = "" then false
  else if ' ' ∈ word.toList then contains low word
  else hasWord library (bytesOf low) (bytesOf word)

/-- `guard.Plugin`, without what the admin pages show. -/
structure Plugin where
  id : String
  words : List String

/-- The plugins that are registered, by their ids. -/
abbrev Plugins := String → Option Plugin

/-- `Lookup`. -/
def Plugins.lookup (plugins : Plugins) (id : String) : Option Plugin :=
  plugins (library.toLower (trimSpace id))

/-- The plugin that an id of a policy names. -/
def Plugins.named (plugins : Plugins) (id : String) : Option Plugin :=
  let id := library.toLower (trimSpace id)
  plugins.lookup library (if id = "sexual" then "csam" else id)

/-- `MatchPlugins`: the id of the first plugin with a word that hits. -/
def matchPlugins (plugins : Plugins) (text : String) : List String → Option String
  | [] => none
  | id :: rest =>
      match plugins.named library id with
      | none => matchPlugins plugins text rest
      | some plugin =>
          if plugin.words.any (keywordHit library (library.toLower text)) then some plugin.id
          else matchPlugins plugins text rest

/-- The word occurs with no letter or digit before or behind it. -/
def StandsAlone (word text : List Char) : Prop :=
  ∃ before after, text = before ++ word ++ after ∧
    (∀ char ∈ before.getLast?, isWordChar library char = false) ∧
      ∀ char ∈ after.head?, isWordChar library char = false

/-- The word stands alone at a position. -/
def StandsAt (word text : List Char) (position : ℕ) : Prop :=
  word <+: text.drop position ∧
    (position > 0 → text[position - 1]?.any (isWordChar library) = false) ∧
      text[position + word.length]?.any (isWordChar library) = false

end Searching

section Finding

variable {library : TextLibrary} {text word : List Char}

theorem agreesAt_iff (position : ℕ) : agreesAt text position word = true ↔
    word <+: text.drop position := by
  induction word generalizing position with
  | nil => simp [agreesAt]
  | cons char word ih =>
      rw [agreesAt]
      cases found : text[position]? with
      | none =>
          rw [List.getElem?_eq_none_iff] at found
          simp [List.drop_eq_nil_of_le found]
      | some first =>
          rcases List.getElem?_eq_some_iff.mp found with ⟨inside, isFirst⟩
          rw [List.drop_eq_getElem_cons inside, isFirst, List.cons_prefix_cons, ← ih]
          by_cases same : first = char
          · simp [same]
          · simp [same, Ne.symm same]

/-- A position that is not the one does not end the scan. -/
theorem scanWord_iff (left position : ℕ) :
    scanWord library text word left position = true ↔
      ∃ found, position ≤ found ∧ found < position + left ∧ StandsAt library word text found := by
  induction left generalizing position with
  | zero =>
      rw [scanWord]
      constructor
      · intro isFound
        cases isFound
      · rintro ⟨found, least, most, _⟩
        omega
  | succ left ih =>
      -- The scan goes on behind a position exactly when the word does not stand there.
      have step : scanWord library text word (left + 1) position = true ↔
          StandsAt library word text position ∨
            scanWord library text word left (position + 1) = true := by
        rw [scanWord, StandsAt, ← agreesAt_iff]
        cases agreesAt text position word with
        | false => simp
        | true =>
            by_cases start : position > 0
            · cases text[position - 1]?.any (isWordChar library) <;>
                cases text[position + word.length]?.any (isWordChar library) <;> simp [start]
            · cases text[position + word.length]?.any (isWordChar library) <;> simp [start]
      rw [step, ih]
      constructor
      · rintro (here | ⟨found, least, most, stands⟩)
        · exact ⟨position, le_refl _, by omega, here⟩
        · exact ⟨found, by omega, by omega, stands⟩
      · rintro ⟨found, least, most, stands⟩
        by_cases here : found = position
        · exact Or.inl (here ▸ stands)
        · exact Or.inr ⟨found, by omega, by omega, stands⟩

theorem any_eq_false_iff {option : Option Char} :
    option.any (isWordChar library) = false ↔ ∀ char ∈ option, isWordChar library char = false := by
  cases option <;> simp

/-- Where a word stands it ends within the text. -/
theorem StandsAt.within {position : ℕ} (stands : StandsAt library word text position) :
    word.length ≤ text.length - position := by
  have shorter := stands.1.length_le
  rwa [List.length_drop] at shorter

theorem standsAlone_iff (notEmpty : word ≠ []) : StandsAlone library word text ↔
    ∃ position, StandsAt library word text position := by
  constructor
  · rintro ⟨before, after, rfl, notBefore, notAfter⟩
    refine ⟨before.length, ?_, ?_, ?_⟩
    · rw [List.append_assoc, List.drop_left]
      exact List.prefix_append word after
    · intro positive
      rw [List.append_assoc, List.getElem?_append_left (by omega), ← List.getLast?_eq_getElem?,
        any_eq_false_iff]
      exact notBefore
    · rw [← List.length_append, List.getElem?_append_right (le_refl _), Nat.sub_self,
        ← List.head?_eq_getElem?, any_eq_false_iff]
      exact notAfter
  · rintro ⟨position, stands⟩
    have within := stands.within
    have positive := List.length_pos_iff.mpr notEmpty
    rcases stands with ⟨⟨after, isRest⟩, notBefore, notAfter⟩
    refine ⟨text.take position, after, ?_, ?_, ?_⟩
    · rw [List.append_assoc, isRest, List.take_append_drop]
    · intro char isLast
      rw [List.getLast?_take] at isLast
      split at isLast
      · cases isLast
      · rename_i notStart
        rw [List.getElem?_eq_getElem (by omega), Option.some_or] at isLast
        have outside := notBefore (by omega)
        rw [List.getElem?_eq_getElem (by omega), any_eq_false_iff] at outside
        exact outside char isLast
    · have isAfter : after = text.drop (position + word.length) := by
        rw [← List.drop_drop, ← isRest, List.drop_left]
      rw [isAfter, List.head?_drop, ← any_eq_false_iff]
      exact notAfter

theorem chars_eq_nil_iff {text : Bytes} : chars text = [] ↔ text = [] := by
  constructor
  · intro empty
    rw [← bytes_runes text, List.map_eq_nil_iff.mp empty]
    rfl
  · rintro rfl
    rfl

variable (library) in
theorem hasWord_eq (low word : Bytes) : hasWord library low word = true ↔
    word ≠ [] ∧ ∃ position, StandsAt library (chars word) (chars low) position := by
  have noChars : chars word = [] ↔ word = [] := chars_eq_nil_iff
  rw [hasWord, ne_eq, ← noChars]
  split
  · rename_i none
    constructor
    · intro isFound
      cases isFound
    · rintro ⟨notEmpty, position, stands⟩
      have positive := List.length_pos_iff.mpr notEmpty
      have within := stands.within
      omega
  · rename_i some
    rw [not_or, List.length_eq_zero_iff, not_lt] at some
    rw [scanWord_iff]
    constructor
    · rintro ⟨position, _, _, stands⟩
      exact ⟨some.1, position, stands⟩
    · rintro ⟨notEmpty, position, stands⟩
      have positive := List.length_pos_iff.mpr notEmpty
      have within := stands.within
      exact ⟨position, Nat.zero_le _, by omega, stands⟩

/-- `keywordHit` finds a phrase anywhere, and another word where it stands alone. -/
theorem keywordHit_iff {low word : String} (notEmpty : library.toLower (trimSpace word) ≠ "") :
    keywordHit library low word = true ↔
      if ' ' ∈ (library.toLower (trimSpace word)).toList then
        (library.toLower (trimSpace word)).toList <:+: low.toList
      else StandsAlone library (library.toLower (trimSpace word)).toList low.toList := by
  have charsOf : ∀ text : String, chars (bytesOf text) = text.toList := by
    intro text
    rw [chars, runes_bytesOf, List.map_map]
    exact List.map_id _
  simp only [keywordHit, if_neg notEmpty]
  split
  · exact decide_eq_true_iff
  · have someChars : (library.toLower (trimSpace word)).toList ≠ [] := by
      simpa using notEmpty
    rw [hasWord_eq, charsOf, charsOf, standsAlone_iff someChars]
    apply and_iff_right
    rw [ne_eq, ← chars_eq_nil_iff, charsOf]
    exact someChars

/-- A plugin is reported exactly when one of those listed has a word that hits. -/
theorem matchPlugins_isSome_iff {plugins : Plugins} {content : String} {ids : List String} :
    (matchPlugins library plugins content ids).isSome = true ↔
      ∃ id ∈ ids, ∃ plugin, plugins.named library id = some plugin ∧
        ∃ word ∈ plugin.words, keywordHit library (library.toLower content) word = true := by
  induction ids with
  | nil => simp [matchPlugins]
  | cons id rest ih =>
      rw [matchPlugins, List.exists_mem_cons_iff]
      cases named : plugins.named library id with
      | none => simpa using ih
      | some plugin =>
          by_cases hits : plugin.words.any (keywordHit library (library.toLower content)) = true
          · simp only [if_pos hits, Option.isSome_some, true_iff]
            exact Or.inl ⟨plugin, rfl, List.any_eq_true.mp hits⟩
          · simp only [if_neg hits]
            rw [ih]
            constructor
            · exact Or.inr
            · rintro (⟨same, isPlugin, hit⟩ | later)
              · rw [← Option.some.inj isPlugin] at hit
                exact absurd (List.any_eq_true.mpr hit) hits
              · exact later

end Finding

/-- `hasWord` finds a word exactly when it stands alone somewhere in the text. -/
theorem hasWord_iff (library : TextLibrary) (low word : Bytes) :
    hasWord library low word = true ↔
      word ≠ [] ∧ StandsAlone library (chars word) (chars low) := by
  rw [hasWord_eq]
  apply and_congr_right
  intro notEmpty
  rw [standsAlone_iff fun empty => notEmpty (chars_eq_nil_iff.mp empty)]

example : hasWord asciiText (bytesOf "aa-aa") (bytesOf "a-a") = false := by decide

example : hasWord asciiText (bytesOf "x.a..a") (bytesOf ".a") = true := by decide

end MikroLLM.Guard
