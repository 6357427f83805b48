import MikroLLM.Domain.A2A
import MikroLLM.Library.Delimited
import MikroLLM.Library.Pieces

/-!
# Skills as text

The admin form shows the skills of an agent as lines `id | name | description` and reads
them back. A name that has a bar or a line feed does not survive that, nor does a
description with a bar that stands too close to its neighbours.
-/

namespace MikroLLM.Domain

open Go Library

/-- One line of `ParseSkillLines`; blank lines and comments are none. -/
def parseSkillLine (text : TextLibrary) (line : String) : Option A2ASkill :=
  let line := trimSpace line
  if line = "" ∨ hasPrefix line "#" = true then none
  else
    match (split line '|').map trimSpace with
    -- `strings.Split` gives one part at least.
    | [] => none
    | [name] => some ⟨slugSkill text name, name, ""⟩
    | [id, name] => some ⟨id, name, ""⟩
    | id :: name :: rest => some ⟨id, name, join rest " | "⟩

/-- `ParseSkillLines`. -/
def parseSkillLines (text : TextLibrary) (raw : String) : List A2ASkill :=
  (split raw '\n').filterMap (parseSkillLine text)

/-- One line of `FormatSkillLines`. -/
def formatSkillLine (skill : A2ASkill) : String :=
  skill.id ++ " | " ++ skill.name ++ " | " ++ skill.description

/-- `FormatSkillLines`. -/
def formatSkillLines (skills : List A2ASkill) : String :=
  join (skills.map formatSkillLine) "\n"

/-- The agent that the form sends when nothing was edited, as `Clean` leaves it. -/
def A2AUpstream.resaved (text : TextLibrary) (agent : A2AUpstream) : A2AUpstream :=
  { agent with skills := parseSkillLines text (formatSkillLines agent.skills) }.clean text

/-- One line, with no blanks around it. -/
structure IsLine (line : String) : Prop where
  noFeed : '\n' ∉ line.toList
  trimmed : trimSpace line = line

/-- Parts that are joined by bars, with one blank on each side of a bar. -/
def Barred (line : String) : Prop :=
  ∃ parts : List String, parts ≠ [] ∧
    (∀ part ∈ parts, '|' ∉ part.toList ∧ trimSpace part = part) ∧
      line = trimSpace (join parts " | ")

/-- A skill that a line can hold. -/
structure Writable (skill : A2ASkill) : Prop where
  name : IsLine skill.name
  noBar : '|' ∉ skill.name.toList
  description : IsLine skill.description
  barred : Barred skill.description

section Texts

variable {line part : String}

theorem trimSpace_eq (line : String) : trimSpace line = String.ofList (trim isSpace line.toList) := rfl

theorem toList_trimSpace (line : String) : (trimSpace line).toList = trim isSpace line.toList := by
  rw [trimSpace_eq, String.toList_ofList]

theorem isSpace_bar : isSpace '|' = false := by
  decide

theorem around_bar : " | ".toList = [' '] ++ '|' :: [' '] := by
  decide

theorem isSpace_blank : ∀ char ∈ [' '], isSpace char = true := by
  rw [List.forall_mem_singleton]
  decide

/-- The trimmed parts of a line. -/
def barParts (line : String) : List String := (split line '|').map trimSpace

theorem barParts_eq (line : String) :
    barParts line = (pieces isSpace '|' line.toList).map String.ofList := by
  rw [barParts, split, pieces, List.map_map, List.map_map]
  apply List.map_congr_left
  intro part _
  simp only [Function.comp_apply, trimSpace_eq, String.toList_ofList]

theorem barParts_ne_nil (line : String) : barParts line ≠ [] := by
  rw [barParts_eq, ne_eq, List.map_eq_nil_iff]
  exact pieces_ne_nil _ _ _

theorem barParts_trimSpace (line : String) : barParts (trimSpace line) = barParts line := by
  rw [barParts_eq, barParts_eq, toList_trimSpace, pieces_trim isSpace_bar]

theorem barParts_plain (plain : '|' ∉ line.toList) : barParts line = [trimSpace line] := by
  rw [barParts_eq, pieces_of_not_mem plain, List.map_singleton, trimSpace_eq]

theorem barParts_bar (front back : String) :
    barParts (front ++ " | " ++ back) = barParts front ++ barParts back := by
  have chars : (front ++ " | " ++ back).toList =
      (front.toList ++ [' ']) ++ '|' :: ([' '] ++ back.toList) := by
    rw [String.toList_append, String.toList_append, around_bar]
    simp only [List.append_assoc, List.cons_append]
  rw [barParts_eq, chars, pieces_append_cons, pieces_append_right isSpace_bar isSpace_blank,
    pieces_append_left isSpace_bar isSpace_blank, List.map_append, barParts_eq, barParts_eq]

theorem barParts_join {parts : List String} (some : parts ≠ [])
    (whole : ∀ part ∈ parts, '|' ∉ part.toList) :
    barParts (join parts " | ") = parts.map trimSpace := by
  have someChars : parts.map String.toList ≠ [] := by
    rwa [ne_eq, List.map_eq_nil_iff]
  have wholeChars : ∀ chars ∈ parts.map String.toList, '|' ∉ chars := by
    intro chars inside
    rcases List.mem_map.mp inside with ⟨part, listed, rfl⟩
    exact whole part listed
  rw [barParts_eq, join, String.toList_intercalate, around_bar,
    pieces_intercalate isSpace_bar isSpace_blank isSpace_blank someChars wholeChars, List.map_map,
    List.map_map]
  rfl

theorem mem_barParts (inside : part ∈ barParts line) :
    trimSpace part = part ∧ ∀ char ∈ part.toList, char ∈ line.toList ∧ char ≠ '|' := by
  rw [barParts_eq] at inside
  rcases List.mem_map.mp inside with ⟨chars, listed, rfl⟩
  rw [trimSpace_eq, String.toList_ofList, trim_of_mem_pieces listed]
  exact ⟨rfl, fun char isChar => mem_of_mem_pieces listed isChar⟩

theorem filter_join_barParts (line : String) :
    (join (barParts line) " | ").toList.filter (!isSpace ·) = line.toList.filter (!isSpace ·) := by
  have chars : (barParts line).map String.toList = pieces isSpace '|' line.toList := by
    rw [barParts_eq, List.map_map]
    conv_rhs => rw [← List.map_id (pieces isSpace '|' line.toList)]
    apply List.map_congr_left
    intro part _
    exact String.toList_ofList
  rw [join, String.toList_intercalate, chars, around_bar,
    filter_intercalate_pieces isSpace_bar isSpace_blank isSpace_blank]

end Texts

section Clipping

variable {line : String} {limit : ℕ}

/-- What is left of a text: a prefix of the trimmed one. -/
theorem clipText_spec (line : String) (limit : ℕ) :
    (clipText line limit).toList <+: (trimSpace line).toList ∧
      (clipText line limit).toList.length ≤ limit := by
  rw [clipText]
  split
  · rename_i long
    rw [String.toList_ofList]
    exact ⟨List.take_prefix _ _, List.length_take_le _ _⟩
  · rename_i short
    exact ⟨List.prefix_rfl, Nat.not_lt.mp short⟩

theorem clipText_of_trimmed (trimmed : trimSpace line = line) (short : line.toList.length ≤ limit) :
    clipText line limit = line := by
  rw [clipText, trimmed, if_neg (Nat.not_lt.mpr short)]

theorem clipText_trimSpace (line : String) (limit : ℕ) :
    clipText (trimSpace line) limit = clipText line limit := by
  rw [clipText, clipText, trimSpace_trimSpace]

/-- A text that is not shortened by being trimmed and clipped is trimmed. -/
theorem trimSpace_of_clipText {other : String} (same : clipText other limit = line)
    (fits : other.toList.length ≤ line.toList.length) : other = line ∧ trimSpace line = line := by
  have within := (clipText_spec other limit).1
  rw [same, toList_trimSpace] at within
  have kept := length_trim_le isSpace other.toList
  have isWhole := within.eq_of_length_le (kept.trans fits)
  have isOther : trim isSpace other.toList = other.toList :=
    trim_eq_of_length (fits.trans (le_of_eq (congrArg List.length isWhole)))
  have sameText : other = line := by
    rw [← String.toList_inj, isWhole, isOther]
  refine ⟨sameText, ?_⟩
  rw [← sameText, trimSpace_eq, isOther, String.ofList_toList]

end Clipping

section Reading

variable {text : TextLibrary} {skill : A2ASkill} {id body name : String} {rest : List String}

/-- What `Clean` leaves of a skill. -/
structure IsClean (text : TextLibrary) (skill : A2ASkill) : Prop where
  normal : normalizeMCPName text skill.id = some skill.id
  isSlug : mcpNameRE skill.id = true
  named : skill.name ≠ ""
  shortName : skill.name.toList.length ≤ 80
  shortDescription : skill.description.toList.length ≤ 400

theorem isClean_of_slug {clipped description : String}
    (lower : ∀ slug, mcpNameRE slug = true → text.toLower slug = slug) {given : String}
    (normal : normalizeMCPName text given = some id) (shortName : clipped.toList.length ≤ 80)
    (shortDescription : description.toList.length ≤ 400) :
    IsClean text ⟨id, if clipped = "" then id else clipped, description⟩ := by
  have isSlug := mcpNameRE_of_normalize normal
  rcases mcpNameRE_spec isSlug with ⟨⟨first, more, starts, _⟩, short, _⟩
  have named : (if clipped = "" then id else clipped) ≠ "" := by
    split
    · intro blank
      rw [blank, String.toList_empty] at starts
      cases starts
    · assumption
  have fits : (if clipped = "" then id else clipped).toList.length ≤ 80 := by
    split
    · omega
    · exact shortName
  exact ⟨normalizeMCPName_normal lower normal, isSlug, named, fits, shortDescription⟩

theorem isClean_of_cleanSkill {raw : A2ASkill}
    (lower : ∀ slug, mcpNameRE slug = true → text.toLower slug = slug)
    (cleaned : cleanSkill text raw = some skill) : IsClean text skill := by
  rcases Option.map_eq_some_iff.mp cleaned with ⟨slug, found, isSkill⟩
  rcases Option.or_eq_some_iff.mp found with isId | ⟨_, isName⟩
  · rw [← isSkill]
    exact isClean_of_slug lower isId (clipText_spec _ _).2 (clipText_spec _ _).2
  · rw [← isSkill]
    exact isClean_of_slug lower isName (clipText_spec _ _).2 (clipText_spec _ _).2

/-- How a skill with an id in normal form is cleaned. -/
theorem cleanSkill_of_normal {description : String} (normal : normalizeMCPName text id = some id) :
    cleanSkill text ⟨id, name, description⟩ =
      some ⟨id, if clipText name 80 = "" then id else clipText name 80,
        clipText description 400⟩ := by
  rw [cleanSkill, normal]
  rfl

theorem not_mem_slug {char : Char} (isSlug : mcpNameRE id = true)
    (other : (slugStart char || char = '_' || char = '-') = false) : char ∉ id.toList := by
  intro inside
  have isChar := (mcpNameRE_spec isSlug).2.2 char inside
  rw [other] at isChar
  cases isChar

/-- A line that begins with an id. -/
theorem parseSkillLine_of_slug (isSlug : mcpNameRE id = true)
    (parts : barParts body = name :: rest) :
    parseSkillLine text (id ++ " | " ++ body) = some ⟨id, name, join rest " | "⟩ := by
  rcases mcpNameRE_spec isSlug with ⟨⟨first, more, starts, isFirst⟩, _⟩
  have solid : isSpace first = false := not_isSpace_of_slug (by simp [isFirst])
  have begins : ∃ tail, (trimSpace (id ++ " | " ++ body)).toList = first :: tail := by
    rw [toList_trimSpace, String.toList_append, String.toList_append, starts, List.cons_append,
      List.cons_append]
    exact trim_cons solid _
  rcases begins with ⟨tail, begins⟩
  have solidLine : ¬(trimSpace (id ++ " | " ++ body) = "" ∨
      hasPrefix (trimSpace (id ++ " | " ++ body)) "#" = true) := by
    rintro (blank | comment)
    · rw [blank] at begins
      cases begins
    · rw [hasPrefix, begins, List.isPrefixOf_iff_prefix] at comment
      have isHash := (List.cons_prefix_cons.mp comment).1
      rw [← isHash] at isFirst
      exact absurd isFirst (by decide)
  have read : (split (trimSpace (id ++ " | " ++ body)) '|').map trimSpace = id :: name :: rest := by
    change barParts (trimSpace (id ++ " | " ++ body)) = id :: name :: rest
    rw [barParts_trimSpace, barParts_bar, barParts_plain (not_mem_slug isSlug (by decide)),
      trimSpace_slug isSlug, parts]
    rfl
  simp only [parseSkillLine, if_neg solidLine, read]
  cases rest with
  | nil => rfl
  | cons next rest => rfl

/-- The lines of a skill: the first has the id, and there is no other one without a line feed. -/
theorem split_formatSkillLine (isSlug : mcpNameRE skill.id = true) :
    ∃ body others, split (formatSkillLine skill) '\n' = (skill.id ++ " | " ++ body) :: others ∧
      '\n' ∉ body.toList ∧
        ('\n' ∉ skill.name.toList → '\n' ∉ skill.description.toList →
          body = skill.name ++ " | " ++ skill.description ∧ others = []) := by
  have noFeed : '\n' ∉ (skill.id ++ " | ").toList := by
    rw [String.toList_append, List.mem_append, not_or]
    exact ⟨not_mem_slug isSlug (by decide), by decide⟩
  have whole : formatSkillLine skill =
      skill.id ++ " | " ++ (skill.name ++ " | " ++ skill.description) := by
    simp only [formatSkillLine, String.append_assoc]
  generalize described : skill.name ++ " | " ++ skill.description = line at whole
  rcases List.exists_cons_of_ne_nil (List.splitOn_ne_nil '\n' line.toList) with
    ⟨first, others, splits⟩
  refine ⟨String.ofList first, others.map String.ofList, ?_, ?_, ?_⟩
  · rw [whole, split, String.toList_append, splitOn_append_left noFeed, splits,
      List.modifyHead_cons, List.map_cons, String.ofList_append, String.ofList_toList]
  · rw [String.toList_ofList]
    intro inside
    have isFirst : first ∈ line.toList.splitOn '\n' := by
      rw [splits]
      exact List.mem_cons_self
    exact (mem_of_mem_splitOn isFirst inside).2 rfl
  · intro noFeedName noFeedDescription
    have oneLine : '\n' ∉ line.toList := by
      rw [← described, String.toList_append, String.toList_append, List.mem_append, List.mem_append,
        not_or, not_or]
      exact ⟨⟨noFeedName, by decide⟩, noFeedDescription⟩
    rw [List.splitOn_eq_singleton oneLine] at splits
    cases splits
    exact ⟨String.ofList_toList, rfl⟩

/-- The skills that the lines of a skill are read as. -/
def lineSkills (text : TextLibrary) (skill : A2ASkill) : List A2ASkill :=
  (split (formatSkillLine skill) '\n').filterMap fun line =>
    (parseSkillLine text line).bind (cleanSkill text)

/-- The name and the description that a line gives. -/
theorem lineSkills_cons (isClean : IsClean text skill) :
    ∃ body others name rest, lineSkills text skill =
        ⟨skill.id, if clipText name 80 = "" then skill.id else clipText name 80,
          clipText (join rest " | ") 400⟩ :: others ∧
      barParts body = name :: rest ∧ '\n' ∉ body.toList ∧
        ('\n' ∉ skill.name.toList → '\n' ∉ skill.description.toList →
          body = skill.name ++ " | " ++ skill.description ∧ others = []) := by
  rcases split_formatSkillLine isClean.isSlug with ⟨body, others, lines, noFeed, whole⟩
  rcases List.exists_cons_of_ne_nil (barParts_ne_nil body) with ⟨name, rest, parts⟩
  refine ⟨body, others.filterMap fun line => (parseSkillLine text line).bind (cleanSkill text),
    name, rest, ?_, parts, noFeed, ?_⟩
  · rw [lineSkills, lines, List.filterMap_cons, parseSkillLine_of_slug isClean.isSlug parts,
      Option.bind_some, cleanSkill_of_normal isClean.normal]
  · intro noFeedName noFeedDescription
    rcases whole noFeedName noFeedDescription with ⟨isWhole, alone⟩
    rw [alone]
    exact ⟨isWhole, rfl⟩

/-- What a line gives has no line feed. -/
theorem noFeed_of_read (isSlug : mcpNameRE skill.id = true) (parts : barParts body = name :: rest)
    (noFeed : '\n' ∉ body.toList)
    (sameName : (if clipText name 80 = "" then skill.id else clipText name 80) = skill.name)
    (sameDescription : clipText (join rest " | ") 400 = skill.description) :
    '\n' ∉ skill.name.toList ∧ '\n' ∉ skill.description.toList := by
  have clipped : ∀ {line : String} {limit : ℕ}, '\n' ∉ line.toList →
      '\n' ∉ (clipText line limit).toList := by
    intro line limit without inside
    have isTrimmed := (clipText_spec line limit).1.subset inside
    rw [toList_trimSpace] at isTrimmed
    exact without (mem_of_mem_trim isTrimmed)
  have noFeedPart : ∀ part ∈ barParts body, '\n' ∉ part.toList := by
    intro part inside isFeed
    exact noFeed ((mem_barParts inside).2 _ isFeed).1
  rw [parts, List.forall_mem_cons] at noFeedPart
  constructor
  · rw [← sameName]
    split
    · exact not_mem_slug isSlug (by decide)
    · exact clipped noFeedPart.1
  · rw [← sameDescription]
    apply clipped
    intro inside
    rw [join, String.toList_intercalate] at inside
    rcases mem_intercalate inside with isBetween | ⟨chars, listed, isFeed⟩
    · exact absurd isBetween (by decide)
    · rcases List.mem_map.mp listed with ⟨part, isPart, rfl⟩
      exact noFeedPart.2 part isPart isFeed

/-- A name that is read as it was written. -/
theorem name_of_read (isSlug : mcpNameRE skill.id = true)
    (parts : barParts (skill.name ++ " | " ++ skill.description) = name :: rest)
    (sameName : (if clipText name 80 = "" then skill.id else clipText name 80) = skill.name) :
    trimSpace skill.name = skill.name ∧ '|' ∉ skill.name.toList := by
  have noBar : '|' ∉ skill.name.toList := by
    rw [← sameName]
    split
    · exact not_mem_slug isSlug (by decide)
    · intro inside
      have isTrimmed := (clipText_spec name 80).1.subset inside
      rw [toList_trimSpace] at isTrimmed
      have isFirst : name ∈ barParts (skill.name ++ " | " ++ skill.description) := by
        rw [parts]
        exact List.mem_cons_self
      exact ((mem_barParts isFirst).2 _ (mem_of_mem_trim isTrimmed)).2 rfl
  refine ⟨?_, noBar⟩
  rw [barParts_bar, barParts_plain noBar, List.singleton_append, List.cons.injEq] at parts
  rw [← parts.1] at sameName
  split at sameName
  · rw [← sameName, trimSpace_slug isSlug]
  · have short : (trimSpace skill.name).toList.length ≤ skill.name.toList.length := by
      rw [toList_trimSpace]
      exact length_trim_le _ _
    exact (trimSpace_of_clipText sameName short).2

/-- A description that is read as it was written. -/
theorem barred_of_read {line : String} (same : clipText (join (barParts line) " | ") 400 = line) :
    Barred line ∧ trimSpace line = line := by
  have starts := (clipText_spec (join (barParts line) " | ") 400).1
  have shown : (trimSpace (join (barParts line) " | ")).toList.filter (!isSpace ·) =
      line.toList.filter (!isSpace ·) := by
    rw [toList_trimSpace, filter_trim, filter_join_barParts]
  have trimmed : trim isSpace (trimSpace (join (barParts line) " | ")).toList =
      (trimSpace (join (barParts line) " | ")).toList := by
    rw [toList_trimSpace, trim_trim]
  rw [same] at starts
  have isWhole := String.toList_inj.mp (eq_of_prefix_of_filter starts trimmed shown)
  refine ⟨⟨barParts line, barParts_ne_nil line, ?_, isWhole⟩, ?_⟩
  · intro part inside
    rcases mem_barParts inside with ⟨isTrimmed, chars⟩
    exact ⟨fun isBar => (chars _ isBar).2 rfl, isTrimmed⟩
  · rw [isWhole, trimSpace_trimSpace]

theorem read_of_barred {line : String} (barred : Barred line) (short : line.toList.length ≤ 400) :
    clipText (join (barParts line) " | ") 400 = line := by
  rcases barred with ⟨parts, some, proper, rfl⟩
  have whole : ∀ part ∈ parts, '|' ∉ part.toList := fun part inside => (proper part inside).1
  have trimmed : parts.map trimSpace = parts := by
    conv_rhs => rw [← List.map_id parts]
    exact List.map_congr_left fun part inside => (proper part inside).2
  rw [barParts_trimSpace, barParts_join some whole, trimmed, ← clipText_trimSpace]
  exact clipText_of_trimmed (trimSpace_trimSpace _) short

theorem skill_eq_iff {description : String} :
    (⟨id, name, description⟩ : A2ASkill) = skill ↔
      id = skill.id ∧ name = skill.name ∧ description = skill.description := by
  cases skill
  rw [A2ASkill.mk.injEq]

/-- The lines of a skill are read as this skill and nothing else exactly when it is writable. -/
theorem lineSkills_eq_iff (isClean : IsClean text skill) :
    lineSkills text skill = [skill] ↔ Writable skill := by
  rcases lineSkills_cons isClean with ⟨body, others, name, rest, reads, parts, noFeed, whole⟩
  rw [reads, List.cons.injEq]
  constructor
  · rintro ⟨same, _⟩
    rcases skill_eq_iff.mp same with ⟨_, sameName, sameDescription⟩
    rcases noFeed_of_read isClean.isSlug parts noFeed sameName sameDescription with
      ⟨noFeedName, noFeedDescription⟩
    rw [(whole noFeedName noFeedDescription).1] at parts
    rcases name_of_read isClean.isSlug parts sameName with ⟨trimmedName, noBar⟩
    rw [barParts_bar, barParts_plain noBar, List.singleton_append, List.cons.injEq] at parts
    rw [← parts.2] at sameDescription
    rcases barred_of_read sameDescription with ⟨barred, trimmed⟩
    exact ⟨⟨noFeedName, trimmedName⟩, noBar, ⟨noFeedDescription, trimmed⟩, barred⟩
  · intro writable
    rcases whole writable.name.noFeed writable.description.noFeed with ⟨isWhole, alone⟩
    rw [isWhole, barParts_bar, barParts_plain writable.noBar, writable.name.trimmed,
      List.singleton_append, List.cons.injEq] at parts
    have keptName := clipText_of_trimmed writable.name.trimmed isClean.shortName
    have keptDescription := read_of_barred writable.barred isClean.shortDescription
    rw [← parts.1, ← parts.2, keptName, keptDescription, if_neg isClean.named]
    exact ⟨rfl, alone⟩

/-- There is no other skill in the lines of one that is read as it was written. -/
theorem lineSkills_starts (isClean : IsClean text skill) :
    ∃ first rest, lineSkills text skill = first :: rest ∧ (first = skill → rest = []) := by
  rcases lineSkills_cons isClean with ⟨body, others, name, rest, reads, parts, noFeed, whole⟩
  refine ⟨_, others, reads, ?_⟩
  intro same
  rcases skill_eq_iff.mp same with ⟨_, sameName, sameDescription⟩
  rcases noFeed_of_read isClean.isSlug parts noFeed sameName sameDescription with
    ⟨noFeedName, noFeedDescription⟩
  exact (whole noFeedName noFeedDescription).2

/-- The lines of several skills are read skill by skill. -/
theorem parseSkillLines_clean (skills : List A2ASkill) :
    (parseSkillLines text (formatSkillLines skills)).filterMap (cleanSkill text) =
      skills.flatMap (lineSkills text) := by
  cases skills with
  | nil => rfl
  | cons skill skills =>
      have someLines : ((skill :: skills).map formatSkillLine).map String.toList ≠ [] :=
        List.cons_ne_nil _ _
      have feed : "\n".toList = ['\n'] := by
        decide
      rw [parseSkillLines, formatSkillLines, List.filterMap_filterMap, split, join,
        String.toList_intercalate, feed, splitOn_intercalate_flatMap someLines, List.flatMap_map,
        List.flatMap_map, List.map_flatMap, List.filterMap_flatMap]
      rfl

end Reading

/-- The skills of a clean agent that the form sends back unchanged are the same exactly when each
of them fits into a line. -/
theorem resaved_skills_iff {text : TextLibrary}
    (lower : ∀ slug, mcpNameRE slug = true → text.toLower slug = slug) (agent : A2AUpstream) :
    ((agent.clean text).resaved text).skills = (agent.clean text).skills ↔
      ∀ skill ∈ (agent.clean text).skills, Writable skill := by
  have areClean : ∀ skill ∈ (agent.clean text).skills, IsClean text skill := by
    intro skill inside
    rcases List.mem_filterMap.mp (List.mem_of_mem_take inside) with ⟨raw, _, cleaned⟩
    exact isClean_of_cleanSkill lower cleaned
  have short : (agent.clean text).skills.length ≤ 32 := List.length_take_le _ _
  have reads : ((agent.clean text).resaved text).skills =
      ((agent.clean text).skills.flatMap (lineSkills text)).take 32 := by
    rw [← parseSkillLines_clean]
    rfl
  rw [reads, take_flatMap_eq_iff (fun skill inside => lineSkills_starts (areClean skill inside)) short]
  apply forall₂_congr
  intro skill inside
  exact lineSkills_eq_iff (areClean skill inside)

section Trials

/-- An agent with one skill. -/
def agentWith (name description : String) : A2AUpstream where
  id := 1
  name := "helper"
  url := ""
  token := ""
  enabled := true
  hubShare := false
  displayName := "Helper"
  company := ""
  description := ""
  skills := [⟨"search", name, description⟩]
  authHash := ""

theorem asciiText_toLower_slug (slug : String) (isSlug : mcpNameRE slug = true) :
    asciiText.toLower slug = slug := by
  have chars := (mcpNameRE_spec isSlug).2.2
  have same : slug.toList.map Char.toLower = slug.toList := by
    conv_rhs => rw [← List.map_id slug.toList]
    apply List.map_congr_left
    intro char inside
    have isLower : (decide (char.toLower = char)) = true :=
      of_slugChar (fun char => decide (char.toLower = char)) (by decide) (chars char inside)
    exact of_decide_eq_true isLower
  rw [← String.toList_inj, ← same]
  exact String.toList_map

theorem resaved_skills_iff_search :
    (((agentWith "Web search" "| pages | files").clean asciiText).resaved asciiText).skills =
        ((agentWith "Web search" "| pages | files").clean asciiText).skills ↔
      ∀ skill ∈ ((agentWith "Web search" "| pages | files").clean asciiText).skills, Writable skill :=
  resaved_skills_iff asciiText_toLower_slug (agentWith "Web search" "| pages | files")

/-- A bar in a name. -/
theorem not_resaved_skills :
    ¬∀ (text : TextLibrary) (agent : A2AUpstream),
      (∀ slug, mcpNameRE slug = true → text.toLower slug = slug) →
        ((agent.clean text).resaved text).skills = (agent.clean text).skills := by
  intro claim
  have same := claim asciiText (agentWith "Web|search" "") asciiText_toLower_slug
  exact absurd same (by decide +kernel)

end Trials

end MikroLLM.Domain
