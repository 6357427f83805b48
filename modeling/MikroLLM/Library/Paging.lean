import Mathlib.Data.List.MinMax
import Mathlib.Data.List.Sort

/-!
# Paging with a cursor

A client asks for a page after a cursor, goes on after the largest key of the
page, and stops at an empty page. Pages that ascend and lie after their cursor
come to an end, and what they leave out is lost exactly when it lies before the
last entry of a page, or when the page is empty.
-/

namespace MikroLLM.Library

universe u v

variable {Entry : Type u} {Refusal : Type v} (key : Entry → ℕ)
  (ask : ℕ → Except Refusal (List Entry))

/-- What the client has in the end when it starts after a cursor. -/
inductive Pages : ℕ → List Entry → Prop
  | ended {after : ℕ} (answered : ask after = .ok []) : Pages after []
  | more {after largest : ℕ} {page rest : List Entry} (answered : ask after = .ok page)
      (isLargest : (page.map key).max? = some largest) (later : Pages largest rest) :
      Pages after (page ++ rest)

/-- The cursors that the client asks with when it starts after a cursor. -/
inductive Requested (start : ℕ) : ℕ → Prop
  | first : Requested start start
  | next {after largest : ℕ} {page : List Entry} (requested : Requested start after)
      (answered : ask after = .ok page) (isLargest : (page.map key).max? = some largest) :
      Requested start largest

/-- A page has the entries that are wanted, or at least it leaves out only later ones. -/
def Steady (wanted : Entry → Prop) (page : List Entry) (after : ℕ) : Prop :=
  ∀ entry, wanted entry → after < key entry → entry ∉ page →
    page ≠ [] ∧ ∀ listed ∈ page, key listed < key entry

/-- The pages ascend, lie after their cursor and have keys below a bound. -/
structure Ascending (page : ℕ → List Entry) (bound : ℕ) : Prop where
  sorted : ∀ after, (page after).Pairwise fun first second => key first < key second
  above : ∀ after, ∀ entry ∈ page after, after < key entry
  bounded : ∀ after, ∀ entry ∈ page after, key entry < bound

variable {key ask} {page : ℕ → List Entry} {bound after largest : ℕ} {returned : List Entry}
  {wanted : Entry → Prop}

theorem max?_spec {entries : List Entry} (isLargest : (entries.map key).max? = some largest) :
    (∃ entry ∈ entries, key entry = largest) ∧ ∀ entry ∈ entries, key entry ≤ largest := by
  rcases List.max?_eq_some_iff.mp isLargest with ⟨listed, le⟩
  refine ⟨List.mem_map.mp listed, fun entry inside => ?_⟩
  exact le (key entry) (List.mem_map_of_mem inside)

theorem exists_max? {entries : List Entry} (listed : entries ≠ []) :
    ∃ largest, (entries.map key).max? = some largest := by
  rw [← Option.isSome_iff_exists, List.isSome_max?_iff]
  simpa using listed

/-- The cursor goes up. -/
theorem Ascending.lt_largest (ascending : Ascending key page bound)
    (isLargest : ((page after).map key).max? = some largest) : after < largest ∧ largest < bound := by
  rcases (max?_spec isLargest).1 with ⟨entry, inside, rfl⟩
  exact ⟨ascending.above after entry inside, ascending.bounded after entry inside⟩

/-- The client comes to an empty page. -/
theorem Ascending.exists_pages (ascending : Ascending key page bound)
    (answers : ∀ after, ask after = .ok (page after)) (after : ℕ) :
    ∃ returned, Pages key ask after returned := by
  induction left : bound - after using Nat.strong_induction_on generalizing after with
  | h left ih =>
      by_cases empty : page after = []
      · exact ⟨[], .ended (by rw [answers, empty])⟩
      · have hasLargest : ∃ largest, ((page after).map key).max? = some largest :=
          exists_max? empty
        rcases hasLargest with ⟨largest, isLargest⟩
        have goesUp := ascending.lt_largest isLargest
        rcases ih (bound - largest) (by omega) largest rfl with ⟨rest, later⟩
        exact ⟨page after ++ rest, .more (answers after) isLargest later⟩

/-- What the client has, it has once and in order, and it is from the pages. -/
theorem Ascending.returned_spec (ascending : Ascending key page bound)
    (answers : ∀ after, ask after = .ok (page after)) (pages : Pages key ask after returned) :
    (returned.Pairwise fun first second => key first < key second) ∧
      ∀ entry ∈ returned, after < key entry ∧ ∃ cursor, entry ∈ page cursor := by
  induction pages with
  | ended answered => simp
  | @more after largest found rest answered isLargest later ih =>
      have same : page after = found := Except.ok.inj ((answers after).symm.trans answered)
      subst same
      rcases ih with ⟨sorted, fromPages⟩
      have goesUp := ascending.lt_largest isLargest
      refine ⟨?_, fun entry inside => ?_⟩
      · rw [List.pairwise_append]
        refine ⟨ascending.sorted after, sorted, ?_⟩
        intro first firstListed second secondListed
        have atMost := (max?_spec isLargest).2 first firstListed
        have beyond := (fromPages second secondListed).1
        omega
      · rcases List.mem_append.mp inside with now | afterwards
        · exact ⟨ascending.above after entry now, after, now⟩
        · rcases fromPages entry afterwards with ⟨beyond, cursor, listed⟩
          exact ⟨by omega, cursor, listed⟩

theorem Requested.of_next {start cursor : ℕ} {found : List Entry} (answered : ask start = .ok found)
    (isLargest : (found.map key).max? = some largest)
    (requested : Requested key ask largest cursor) : Requested key ask start cursor := by
  induction requested with
  | first => exact .next .first answered isLargest
  | next before alsoAnswered alsoLargest ih => exact .next ih alsoAnswered alsoLargest

/-- The first cursor, or one after the first page. -/
theorem Requested.cases_first {start cursor : ℕ} (requested : Requested key ask start cursor) :
    cursor = start ∨ ∃ found largest, ask start = .ok found ∧
      (found.map key).max? = some largest ∧ Requested key ask largest cursor := by
  induction requested with
  | first => exact Or.inl rfl
  | next before answered isLargest ih =>
      right
      rcases ih with rfl | ⟨found, largest, firstAnswered, firstLargest, later⟩
      · exact ⟨_, _, answered, isLargest, .first⟩
      · exact ⟨found, largest, firstAnswered, firstLargest, .next later answered isLargest⟩

/-- The pages bring all that is wanted exactly when no page of the run leaves out an entry that
lies before its end. -/
theorem Ascending.complete_iff (ascending : Ascending key page bound)
    (answers : ∀ after, ask after = .ok (page after)) (pages : Pages key ask after returned) :
    (∀ entry, wanted entry → after < key entry → entry ∈ returned) ↔
      ∀ cursor, Requested key ask after cursor → Steady key wanted (page cursor) cursor := by
  induction pages with
  | @ended after answered =>
      have empty : page after = [] := Except.ok.inj ((answers after).symm.trans answered)
      constructor
      · intro complete cursor requested entry isWanted beyond
        rcases requested.cases_first with rfl | ⟨found, largest, alsoAnswered, isLargest, _⟩
        · exact absurd (complete entry isWanted beyond) List.not_mem_nil
        · have same : found = [] := Except.ok.inj (alsoAnswered.symm.trans answered)
          simp [same] at isLargest
      · intro steady entry isWanted beyond
        have leaves := steady after .first entry isWanted beyond (by simp [empty])
        exact absurd empty leaves.1
  | @more after largest found rest answered isLargest later ih =>
      have same : page after = found := Except.ok.inj ((answers after).symm.trans answered)
      subst same
      have goesUp := ascending.lt_largest isLargest
      rcases max?_spec isLargest with ⟨⟨last, lastListed, rfl⟩, atMost⟩
      have afterwards := (ascending.returned_spec answers later).2
      constructor
      · intro complete cursor requested
        rcases requested.cases_first with rfl | ⟨found, other, alsoAnswered, alsoLargest, laterOn⟩
        · intro entry isWanted beyond missing
          refine ⟨List.ne_nil_of_mem lastListed, fun listed inside => ?_⟩
          have inRest : entry ∈ rest := by
            simpa [missing] using complete entry isWanted beyond
          have above := (afterwards entry inRest).1
          have atLast := atMost listed inside
          omega
        · have samePage : found = page after := Except.ok.inj (alsoAnswered.symm.trans answered)
          subst samePage
          have sameLargest : other = key last := Option.some.inj (alsoLargest.symm.trans isLargest)
          subst sameLargest
          refine ih.mp ?_ cursor laterOn
          intro entry isWanted above
          rcases List.mem_append.mp (complete entry isWanted (by omega)) with now | inRest
          · have atLast := atMost entry now
            omega
          · exact inRest
      · intro steady entry isWanted beyond
        by_cases now : entry ∈ page after
        · exact List.mem_append_left _ now
        · have leaves := steady after .first entry isWanted beyond now
          have above := leaves.2 last lastListed
          refine List.mem_append_right _ (ih.mpr ?_ entry isWanted above)
          intro cursor requested
          exact steady cursor (requested.of_next answered isLargest)

section Sorted

variable {entries : List Entry} {limit threshold : ℕ}

/-- The first entries lie below a threshold when there are enough of them, or when all do. -/
theorem take_lt_iff (sorted : entries.Pairwise fun first second => key first < key second) :
    (∀ entry ∈ entries.take limit, key entry < threshold) ↔
      limit ≤ (entries.filter fun entry => key entry < threshold).length ∨
        ∀ entry ∈ entries, key entry < threshold := by
  induction entries generalizing limit with
  | nil => simp
  | cons first rest ih =>
      rcases List.pairwise_cons.mp sorted with ⟨below, sortedRest⟩
      cases limit with
      | zero => simp
      | succ limit =>
          by_cases small : key first < threshold
          · have restIff : (∀ entry ∈ rest.take limit, key entry < threshold) ↔ _ := ih sortedRest
            simp only [List.take_succ_cons, List.forall_mem_cons, small, true_and, restIff,
              List.filter_cons, decide_true, if_true, List.length_cons, Nat.add_le_add_iff_right]
          · have none : (first :: rest).filter (fun entry => key entry < threshold) = [] := by
              rw [List.filter_eq_nil_iff]
              intro entry listed
              rcases List.mem_cons.mp listed with rfl | later
              · simpa using small
              · have above := below entry later
                simp only [decide_eq_true_eq]
                omega
            rw [none]
            simp [small]

/-- An entry that is listed but not among the first is larger than these. -/
theorem lt_of_not_mem_take (sorted : entries.Pairwise fun first second => key first < key second)
    {entry listed : Entry} (inside : entry ∈ entries) (missing : entry ∉ entries.take limit)
    (inTake : listed ∈ entries.take limit) : key listed < key entry := by
  rw [← List.take_append_drop limit entries] at sorted inside
  have later : entry ∈ entries.drop limit := (List.mem_append.mp inside).resolve_left missing
  exact (List.pairwise_append.mp sorted).2.2 listed inTake entry later

end Sorted

end MikroLLM.Library
