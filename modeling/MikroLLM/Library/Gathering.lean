import Mathlib.Data.Finset.Card
import Mathlib.Data.List.TakeWhile
import Mathlib.Logic.Function.Iterate

/-!
# Gathering answers with a budget

A round goes through a list of items, and asks about those of which nothing is
known until its budget is used up. An item with an answer is known after enough
rounds, unless the items before it that have none use up the budget of each round.
-/

namespace MikroLLM.Library

universe u v

variable {Item : Type u} {Value : Type v}

/-- What is known in a round, and how often it has asked. -/
structure Gathered (Item : Type u) (Value : Type v) where
  known : Item → Option Value
  asked : ℕ

namespace Gathered

variable [DecidableEq Item] (budget : ℕ) (answer : Item → Option Value)

/-- One item of a round. -/
def visit (state : Gathered Item Value) (item : Item) : Gathered Item Value :=
  if (state.known item).isSome ∨ budget ≤ state.asked then state
  else ⟨Function.update state.known item (answer item), state.asked + 1⟩

/-- A round. -/
def round (items : List Item) (known : Item → Option Value) : Item → Option Value :=
  (items.foldl (visit budget answer) ⟨known, 0⟩).known

/-- How many items without an answer are listed before an item. -/
def silentBefore (items : List Item) (item : Item) : ℕ :=
  (items.takeWhile (· ≠ item)).countP fun other => (answer other).isNone

variable {budget answer} {state : Gathered Item Value} {item other : Item} {items : List Item}
  {value : Value} {known : Item → Option Value}

/-- What is known is what was answered. -/
def Sound (answer : Item → Option Value) (known : Item → Option Value) : Prop :=
  ∀ item value, known item = some value → answer item = some value

theorem visit_full (full : budget ≤ state.asked) : visit budget answer state item = state :=
  if_pos (Or.inr full)

theorem visit_known (isKnown : state.known item = some value) :
    visit budget answer state item = state := by
  apply if_pos
  rw [isKnown]
  exact Or.inl rfl

theorem visit_asks (unknown : state.known item = none) (left : state.asked < budget) :
    visit budget answer state item =
      ⟨Function.update state.known item (answer item), state.asked + 1⟩ := by
  apply if_neg
  rw [unknown]
  rintro (isKnown | full)
  · cases isKnown
  · omega

/-- What a visit can do. -/
theorem visit_cases (budget : ℕ) (answer : Item → Option Value) (state : Gathered Item Value)
    (item : Item) :
    visit budget answer state item = state ∨
      (state.known item = none ∧ state.asked < budget ∧ visit budget answer state item =
        ⟨Function.update state.known item (answer item), state.asked + 1⟩) := by
  cases found : state.known item with
  | some value => exact Or.inl (visit_known found)
  | none =>
      by_cases full : budget ≤ state.asked
      · exact Or.inl (visit_full full)
      · rw [not_le] at full
        exact Or.inr ⟨rfl, full, visit_asks found full⟩

theorem Sound.visit (sound : Sound answer state.known) (budget : ℕ) (item : Item) :
    Sound answer (visit budget answer state item).known := by
  rcases visit_cases budget answer state item with same | ⟨_, _, asks⟩
  · rw [same]
    exact sound
  · rw [asks]
    intro one value isKnown
    by_cases isItem : one = item
    · subst isItem
      change Function.update state.known one (answer one) one = some value at isKnown
      rwa [Function.update_self] at isKnown
    · change Function.update state.known item (answer item) one = some value at isKnown
      rw [Function.update_of_ne isItem] at isKnown
      exact sound one value isKnown

theorem Sound.foldl (sound : Sound answer state.known) (budget : ℕ) (items : List Item) :
    Sound answer (items.foldl (Gathered.visit budget answer) state).known := by
  induction items generalizing state with
  | nil => exact sound
  | cons item rest ih => exact ih (sound.visit budget item)

theorem visit_keeps (budget : ℕ) (answer : Item → Option Value)
    (isKnown : state.known other = some value) (item : Item) :
    (visit budget answer state item).known other = some value := by
  rcases visit_cases budget answer state item with same | ⟨unknown, _, asks⟩
  · rw [same]
    exact isKnown
  · rw [asks]
    have differs : other ≠ item := by
      rintro rfl
      rw [isKnown] at unknown
      cases unknown
    exact (Function.update_of_ne differs _ _).trans isKnown

theorem foldl_keeps (budget : ℕ) (answer : Item → Option Value)
    (isKnown : state.known other = some value) (items : List Item) :
    (items.foldl (visit budget answer) state).known other = some value := by
  induction items generalizing state with
  | nil => exact isKnown
  | cons item rest ih => exact ih (visit_keeps budget answer isKnown item)

theorem foldl_full (full : budget ≤ state.asked) (items : List Item) :
    items.foldl (visit budget answer) state = state := by
  induction items with
  | nil => rfl
  | cons item rest ih => rw [List.foldl_cons, visit_full full, ih]

theorem foldl_other (budget : ℕ) (answer : Item → Option Value) (state : Gathered Item Value)
    (missing : other ∉ items) :
    (items.foldl (visit budget answer) state).known other = state.known other := by
  induction items generalizing state with
  | nil => rfl
  | cons item rest ih =>
      rw [List.mem_cons, not_or] at missing
      rw [List.foldl_cons, ih (visit budget answer state item) missing.2]
      rcases visit_cases budget answer state item with same | ⟨_, _, asks⟩
      · rw [same]
      · rw [asks]
        exact Function.update_of_ne missing.1 _ _

/-- A round asks about the items without an answer, until its budget is used up. -/
theorem asked_foldl (budget : ℕ) (sound : Sound answer state.known) (items : List Item) :
    min budget (state.asked + items.countP fun other => (answer other).isNone) ≤
      (items.foldl (visit budget answer) state).asked := by
  induction items generalizing state with
  | nil =>
      rw [List.countP_nil]
      exact min_le_right _ _
  | cons item rest ih =>
      have later := ih (sound.visit budget item)
      rw [List.foldl_cons, List.countP_cons]
      refine le_trans ?_ later
      by_cases full : budget ≤ state.asked
      · rw [visit_full full]
        omega
      · rw [not_le] at full
        cases found : state.known item with
        | some value =>
            have answered := sound item value found
            rw [visit_known found, answered]
            simp
        | none =>
            rw [visit_asks found full]
            dsimp only
            split <;> omega

/-- The items of a set that have an answer which is not known. -/
def missing (answer : Item → Option Value) (among : Finset Item) (known : Item → Option Value) :
    Finset Item :=
  among.filter fun item => (answer item).isSome ∧ known item = none

/-- What a round asks is paid by its silent items and by what it learns. -/
theorem asked_missing (budget : ℕ) (answer : Item → Option Value) (state : Gathered Item Value)
    {among : Finset Item} (inside : ∀ item ∈ items, item ∈ among) :
    (items.foldl (visit budget answer) state).asked +
        (missing answer among (items.foldl (visit budget answer) state).known).card ≤
      state.asked + (missing answer among state.known).card +
        items.countP fun other => (answer other).isNone := by
  induction items generalizing state with
  | nil => simp
  | cons item rest ih =>
      rw [List.forall_mem_cons] at inside
      have later := ih (visit budget answer state item) inside.2
      rw [List.foldl_cons, List.countP_cons]
      refine le_trans later ?_
      rcases visit_cases budget answer state item with
        same | ⟨unknown, _, asks⟩
      · rw [same]
        omega
      · rw [asks]
        cases answered : answer item with
        | none =>
            have unchanged : Function.update state.known item none = state.known := by
              rw [← unknown]
              exact Function.update_eq_self item state.known
            rw [unchanged]
            simp
            omega
        | some value =>
            have removed : missing answer among (Function.update state.known item (some value)) =
                (missing answer among state.known).erase item := by
              ext one
              by_cases isItem : one = item
              · subst isItem
                simp [missing]
              · simp [missing, isItem]
            have wasMissing : item ∈ missing answer among state.known := by
              simp [missing, inside.1, answered, unknown]
            have fewer := Finset.card_erase_add_one wasMissing
            rw [removed]
            simp
            omega

theorem missing_foldl (budget : ℕ) (answer : Item → Option Value) (state : Gathered Item Value)
    (items : List Item) (among : Finset Item) :
    missing answer among (items.foldl (visit budget answer) state).known ⊆
      missing answer among state.known := by
  intro item inside
  simp only [missing, Finset.mem_filter] at inside ⊢
  refine ⟨inside.1, inside.2.1, ?_⟩
  cases found : state.known item with
  | none => rfl
  | some value =>
      have kept := foldl_keeps budget answer found items
      rw [kept] at inside
      cases inside.2.2

/-- An item with its place in a list. -/
theorem split_takeWhile (inside : item ∈ items) :
    ∃ after, items = items.takeWhile (· ≠ item) ++ item :: after := by
  induction items with
  | nil => cases inside
  | cons first rest ih =>
      by_cases isFirst : first = item
      · subst isFirst
        exact ⟨rest, by simp⟩
      · have later : item ∈ rest := (List.mem_cons.mp inside).resolve_left (Ne.symm isFirst)
        rcases ih later with ⟨after, splits⟩
        refine ⟨after, ?_⟩
        rw [List.takeWhile_cons_of_pos (by simpa using isFirst), List.cons_append, ← splits]

theorem not_mem_takeWhile (items : List Item) (item : Item) :
    item ∉ items.takeWhile (· ≠ item) := by
  intro inside
  simpa using List.mem_takeWhile_imp inside

/-- Too many silent items before an item keep it unknown. -/
theorem round_starves (inside : item ∈ items) (sound : Sound answer known)
    (unknown : known item = none) (starved : budget ≤ silentBefore answer items item) :
    round budget answer items known item = none := by
  rcases split_takeWhile inside with ⟨after, splits⟩
  have start : Sound answer (⟨known, 0⟩ : Gathered Item Value).known := sound
  have used := asked_foldl budget start (items.takeWhile (· ≠ item))
  have full :
      budget ≤ ((items.takeWhile (· ≠ item)).foldl (visit budget answer) ⟨known, 0⟩).asked := by
    rw [silentBefore] at starved
    omega
  rw [round, splits, List.foldl_append, List.foldl_cons, visit_full full, foldl_full full,
    foldl_other budget answer _ (not_mem_takeWhile items item)]
  exact unknown

/-- Otherwise a round learns the item, or another one before it. -/
theorem round_learns (inside : item ∈ items) (has : answer item = some value)
    (few : silentBefore answer items item < budget) :
    round budget answer items known item = some value ∨ known item ≠ none ∨
      (missing answer (items.takeWhile (· ≠ item)).toFinset (round budget answer items known)).card <
        (missing answer (items.takeWhile (· ≠ item)).toFinset known).card := by
  rcases split_takeWhile inside with ⟨after, splits⟩
  by_cases unknown : known item = none
  · have among : ∀ one ∈ items.takeWhile (· ≠ item), one ∈ (items.takeWhile (· ≠ item)).toFinset :=
      fun one listed => List.mem_toFinset.mpr listed
    have paid := asked_missing budget answer ⟨known, 0⟩ among
    have stays := foldl_other budget answer ⟨known, 0⟩ (not_mem_takeWhile items item)
    generalize reached : (items.takeWhile (· ≠ item)).foldl (visit budget answer) ⟨known, 0⟩ =
      state at paid stays
    have whole : round budget answer items known =
        ((item :: after).foldl (visit budget answer) state).known := by
      conv_lhs => rw [round, splits, List.foldl_append, reached]
    by_cases left : state.asked < budget
    · left
      rw [whole, List.foldl_cons, visit_asks (stays.trans unknown) left]
      apply foldl_keeps
      rw [← has]
      exact Function.update_self _ _ _
    · right
      right
      have shrinks := Finset.card_le_card (missing_foldl budget answer state (item :: after)
        (items.takeWhile (· ≠ item)).toFinset)
      rw [whole]
      rw [silentBefore] at few
      dsimp only at paid
      omega
  · exact Or.inr (Or.inl unknown)

theorem Sound.rounds (budget : ℕ) (answer : Item → Option Value) (items : List Item) (n : ℕ) :
    Sound answer ((round budget answer items)^[n] fun _ => none) := by
  induction n with
  | zero =>
      intro item value isKnown
      cases isKnown
  | succ n ih =>
      rw [Function.iterate_succ_apply']
      have start : Sound answer
          (⟨(round budget answer items)^[n] fun _ => none, 0⟩ : Gathered Item Value).known := ih
      exact start.foldl budget items

theorem round_keeps (budget : ℕ) (answer : Item → Option Value) (items : List Item)
    (isKnown : known other = some value) :
    round budget answer items known other = some value := by
  have start : (⟨known, 0⟩ : Gathered Item Value).known other = some value := isKnown
  exact foldl_keeps budget answer start items

/-- Until the item is known, each round learns another one before it. -/
theorem rounds_learn (inside : item ∈ items) (has : answer item = some value)
    (few : silentBefore answer items item < budget) (n : ℕ) :
    ((round budget answer items)^[n] fun _ => none) item = some value ∨
      (missing answer (items.takeWhile (· ≠ item)).toFinset
        ((round budget answer items)^[n] fun _ => none)).card + n ≤
          (items.takeWhile (· ≠ item)).toFinset.card := by
  induction n with
  | zero =>
      right
      rw [Nat.add_zero]
      exact Finset.card_filter_le _ _
  | succ n ih =>
      rw [Function.iterate_succ_apply']
      have sound := Sound.rounds budget answer items n
      generalize (round budget answer items)^[n] (fun _ => none) = known at ih sound ⊢
      rcases ih with isKnown | bound
      · exact Or.inl (round_keeps budget answer items isKnown)
      · rcases round_learns inside has few with learned | isKnown | fewer
        · exact Or.inl learned
        · left
          apply round_keeps
          rcases Option.ne_none_iff_exists'.mp isKnown with ⟨other, isOther⟩
          rw [isOther, ← has, sound item other isOther]
        · right
          omega

/-- An item with an answer is known after as many rounds as there are items, when fewer items than the
budget are silent before it. -/
theorem known_rounds {n : ℕ} (inside : item ∈ items) (has : answer item = some value)
    (few : silentBefore answer items item < budget) (often : items.length ≤ n) :
    ((round budget answer items)^[n] fun _ => none) item = some value := by
  rcases rounds_learn inside has few n with isKnown | bound
  · exact isKnown
  · rcases split_takeWhile inside with ⟨after, splits⟩
    have shorter := congrArg List.length splits
    have size := List.toFinset_card_le (items.takeWhile (· ≠ item))
    rw [List.length_append, List.length_cons] at shorter
    omega

/-- Otherwise it never is. -/
theorem unknown_rounds (n : ℕ) (inside : item ∈ items)
    (starved : budget ≤ silentBefore answer items item) :
    ((round budget answer items)^[n] fun _ => none) item = none := by
  induction n with
  | zero => rfl
  | succ n ih =>
      rw [Function.iterate_succ_apply']
      exact round_starves inside (Sound.rounds budget answer items n) ih starved

end Gathered

end MikroLLM.Library
