import MikroLLM.Go.Strings
import MikroLLM.Go.Text

/-!
# Agents, groups and messages

The rows of the local agent directory, and the published profile as `Clean`
clamps it.
-/

namespace MikroLLM.Domain

open Go

abbrev AgentId := ℕ

abbrev GroupId := ℕ

abbrev MessageId := ℕ

/-- One published capability on an agent card. -/
structure A2ASkill where
  id : String
  name : String
  description : String
  deriving DecidableEq

structure A2AUpstream where
  id : AgentId
  name : String
  url : String
  token : String
  enabled : Bool
  hubShare : Bool
  displayName : String
  company : String
  description : String
  skills : List A2ASkill
  authHash : String
  deriving DecidableEq

/-- A visibility boundary. -/
structure A2AGroup where
  id : GroupId
  name : String
  title : String
  description : String
  inviteHash : String
  deriving DecidableEq

inductive A2AStatus
  | posted
  | pending
  | rejected
  deriving DecidableEq

/-- One line in a group transcript. -/
structure A2AMessage where
  id : MessageId
  groupId : GroupId
  fromAgent : String
  toAgent : String
  body : String
  status : A2AStatus
  createdAt : String
  deriving DecidableEq

/-- A character of `mcpNameRE` in first place. -/
def slugStart (char : Char) : Bool :=
  ('a' ≤ char && char ≤ 'z') || ('0' ≤ char && char ≤ '9')

/-- `mcpNameRE.MatchString`. -/
def mcpNameRE (name : String) : Bool :=
  match name.toList with
  | first :: rest =>
      slugStart first && rest.length ≤ 39 &&
        rest.all fun char => slugStart char || char = '_' || char = '-'
  | [] => false

/-- `NormalizeMCPName`. -/
def normalizeMCPName (text : TextLibrary) (name : String) : Option String :=
  let slug := text.toLower (trimSpace name)
  if mcpNameRE slug then some slug else none

/-- The parts of an URL that `ValidMCPURL` reads. -/
structure ParsedURL where
  scheme : String
  host : String
  hasUser : Bool

/-- `ValidMCPURL`, over `url.Parse`. -/
def validMCPURL (parse : String → Option ParsedURL) (raw : String) : Bool :=
  match parse (trimSpace raw) with
  | some url => url.host ≠ "" && !url.hasUser && (url.scheme = "http" || url.scheme = "https")
  | none => false

/-- `clipText`, and `clipStore` of the store. -/
def clipText (text : String) (limit : ℕ) : String :=
  let trimmed := trimSpace text
  if limit < trimmed.toList.length then String.ofList (trimmed.toList.take limit) else trimmed

/-- One character of the loop in `slugSkill`: what is written, and whether a dash was last. -/
def slugSkillStep (written : List Char × Bool) (char : Char) : List Char × Bool :=
  if slugStart char then (written.1 ++ [char], false)
  else if char = '_' ∨ char = '-' ∨ char = ' ' then
    if written.1 ≠ [] ∧ written.2 = false then (written.1 ++ ['-'], true) else written
  else written

/-- `slugSkill`. -/
def slugSkill (text : TextLibrary) (name : String) : String :=
  let written := ((text.toLower (trimSpace name)).toList.foldl slugSkillStep ([], false)).1
  String.ofList ((written.dropWhile (· = '-')).rdropWhile (· = '-'))

/-- One skill in `Clean`; `none` when it has no usable id. -/
def cleanSkill (text : TextLibrary) (skill : A2ASkill) : Option A2ASkill :=
  ((normalizeMCPName text skill.id).or
      (normalizeMCPName text (slugSkill text skill.name))).map fun id =>
    let name := clipText skill.name 80
    ⟨id, if name = "" then id else name, clipText skill.description 400⟩

/-- `A2AUpstream.Clean`. -/
def A2AUpstream.clean (text : TextLibrary) (agent : A2AUpstream) : A2AUpstream :=
  { agent with
    displayName := clipText agent.displayName 80
    company := clipText agent.company 80
    description := clipText agent.description 2000
    skills := (agent.skills.filterMap (cleanSkill text)).take 32 }

section Slugs

variable {text : TextLibrary} {name slug : String} {char : Char}

/-- What holds of the characters of slugs among the first ones holds of them all. -/
theorem of_slugChar (property : Char → Bool)
    (checked : ((List.range 123).map Char.ofNat).all
      (fun char => !(slugStart char || char = '_' || char = '-') || property char) = true)
    (isSlug : (slugStart char || char = '_' || char = '-') = true) : property char = true := by
  have small : char.toNat ≤ 122 := by
    simp only [slugStart, Bool.or_eq_true, Bool.and_eq_true, decide_eq_true_eq, Char.le_def,
      UInt32.le_iff_toNat_le] at isSlug
    rcases isSlug with ((lower | digit) | rfl) | rfl
    · exact lower.2
    · exact digit.2.trans (by decide)
    · decide
    · decide
  have inRange : char ∈ (List.range 123).map Char.ofNat := by
    rw [List.mem_map]
    exact ⟨char.toNat, List.mem_range.mpr (by omega), Char.ofNat_toNat char⟩
  have holds := List.all_eq_true.mp checked char inRange
  rw [isSlug] at holds
  exact holds

theorem not_isSpace_of_slug
    (isSlug : (slugStart char || char = '_' || char = '-') = true) : isSpace char = false := by
  have notSpace : (!isSpace char) = true :=
    of_slugChar (fun char => !isSpace char) (by decide) isSlug
  rwa [Bool.not_eq_true'] at notSpace

/-- What `mcpNameRE` matches: up to forty characters, the first a letter or a digit. -/
theorem mcpNameRE_spec (isSlug : mcpNameRE slug = true) :
    (∃ first rest, slug.toList = first :: rest ∧ slugStart first = true) ∧
      slug.toList.length ≤ 40 ∧
        ∀ char ∈ slug.toList, (slugStart char || char = '_' || char = '-') = true := by
  unfold mcpNameRE at isSlug
  split at isSlug
  · rename_i first rest starts
    simp only [Bool.and_eq_true, List.all_eq_true, decide_eq_true_eq] at isSlug
    rw [starts]
    refine ⟨⟨first, rest, rfl, isSlug.1.1⟩, Nat.succ_le_succ isSlug.1.2, ?_⟩
    rw [List.forall_mem_cons]
    refine ⟨by simp [isSlug.1.1], ?_⟩
    intro char inside
    exact isSlug.2 char inside
  · cases isSlug

/-- A slug has no spaces. -/
theorem trimSpace_slug (isSlug : mcpNameRE slug = true) : trimSpace slug = slug := by
  rcases mcpNameRE_spec isSlug with ⟨_, _, chars⟩
  have front : slug.toList.dropWhile isSpace = slug.toList := by
    rw [List.dropWhile_eq_self_iff]
    intro nonempty
    simp [not_isSpace_of_slug (chars _ (List.getElem_mem nonempty))]
  have back : slug.toList.rdropWhile isSpace = slug.toList := by
    rw [List.rdropWhile_eq_self_iff]
    intro nonempty
    simp [not_isSpace_of_slug (chars _ (List.getLast_mem nonempty))]
  rw [trimSpace, front, back, String.ofList_toList]

theorem mcpNameRE_of_normalize (normal : normalizeMCPName text name = some slug) :
    mcpNameRE slug = true := by
  simp only [normalizeMCPName] at normal
  split at normal
  · rename_i isSlug
    cases normal
    exact isSlug
  · cases normal

/-- A name that `NormalizeMCPName` gives is its own normal form, as lower case leaves it alone. -/
theorem normalizeMCPName_normal
    (lower : ∀ slug, mcpNameRE slug = true → text.toLower slug = slug)
    (normal : normalizeMCPName text name = some slug) :
    normalizeMCPName text slug = some slug := by
  have isSlug := mcpNameRE_of_normalize normal
  simp only [normalizeMCPName, trimSpace_slug isSlug, lower slug isSlug, isSlug, if_true]

end Slugs

end MikroLLM.Domain
