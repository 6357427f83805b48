import Mathlib.Data.List.Basic

/-!
# Distinct items

The items of a list, each where it comes first. Marked items can be left out
without changing that list when something else gives them in the same place.
-/

namespace MikroLLM.Library

universe u

variable {Item : Type u}

/-- The items without a mark. -/
def unmarked (items : List (Item × Bool)) : List Item :=
  (items.filter fun item => !item.2).map Prod.fst

theorem unmarked_append (front back : List (Item × Bool)) :
    unmarked (front ++ back) = unmarked front ++ unmarked back := by
  rw [unmarked, List.filter_append, List.map_append, unmarked, unmarked]

theorem unmarked_of_false (items : List Item) : unmarked (items.map (·, false)) = items := by
  induction items with
  | nil => rfl
  | cons item rest ih => exact congrArg (item :: ·) ih

theorem unmarked_of_true (items : List Item) : unmarked (items.map (·, true)) = [] := by
  induction items with
  | nil => rfl
  | cons item rest ih => exact ih

variable [DecidableEq Item]

/-- The items that were not seen, each of them once. -/
def distinctFrom (seen : List Item) : List Item → List Item
  | [] => []
  | item :: rest =>
      if item ∈ seen then distinctFrom seen rest else item :: distinctFrom (item :: seen) rest

/-- The items, each of them once. -/
def distinct (items : List Item) : List Item := distinctFrom [] items

/-- One round of a loop that collects them. -/
def addDistinct (kept : List Item) (item : Item) : List Item :=
  if item ∈ kept then kept else kept ++ [item]

variable {seen earlier items : List Item} {item first : Item}

theorem distinctFrom_congr (same : ∀ item, item ∈ seen ↔ item ∈ earlier) :
    distinctFrom seen items = distinctFrom earlier items := by
  induction items generalizing seen earlier with
  | nil => rfl
  | cons item rest ih =>
      have sameCons : ∀ other, other ∈ item :: seen ↔ other ∈ item :: earlier := by
        intro other
        rw [List.mem_cons, List.mem_cons, same]
      rw [distinctFrom, distinctFrom, ih same, ih sameCons]
      simp only [same]

theorem mem_distinctFrom : item ∈ distinctFrom seen items ↔ item ∈ items ∧ item ∉ seen := by
  induction items generalizing seen with
  | nil => simp [distinctFrom]
  | cons first rest ih =>
      rw [distinctFrom, List.mem_cons]
      split
      · rename_i isSeen
        rw [ih]
        constructor
        · rintro ⟨later, fresh⟩
          exact ⟨Or.inr later, fresh⟩
        · rintro ⟨rfl | later, fresh⟩
          · exact absurd isSeen fresh
          · exact ⟨later, fresh⟩
      · rename_i isFresh
        rw [List.mem_cons, ih, List.mem_cons, not_or]
        constructor
        · rintro (rfl | ⟨later, _, fresh⟩)
          · exact ⟨Or.inl rfl, isFresh⟩
          · exact ⟨Or.inr later, fresh⟩
        · rintro ⟨rfl | later, fresh⟩
          · exact Or.inl rfl
          · by_cases same : item = first
            · exact Or.inl same
            · exact Or.inr ⟨later, same, fresh⟩

theorem mem_distinct : item ∈ distinct items ↔ item ∈ items := by
  simp [distinct, mem_distinctFrom]

theorem distinctFrom_append (front back : List Item) :
    distinctFrom seen (front ++ back) =
      distinctFrom seen front ++ distinctFrom (front ++ seen) back := by
  induction front generalizing seen with
  | nil => rfl
  | cons item rest ih =>
      rw [List.cons_append, distinctFrom, distinctFrom]
      split
      · rename_i isSeen
        have sameSeen : ∀ other, other ∈ rest ++ seen ↔ other ∈ item :: rest ++ seen := by
          intro other
          rw [List.cons_append, List.mem_cons, List.mem_append]
          constructor
          · exact Or.inr
          · rintro (rfl | isIn)
            · exact Or.inr isSeen
            · exact isIn
        rw [ih, distinctFrom_congr sameSeen]
      · have sameSeen : ∀ other, other ∈ rest ++ item :: seen ↔ other ∈ item :: rest ++ seen := by
          intro other
          rw [List.cons_append, List.mem_cons, List.mem_append, List.mem_append, List.mem_cons]
          exact or_left_comm
        rw [ih, distinctFrom_congr sameSeen, List.cons_append, List.cons_append]

/-- Items that are distinct already are collected as before. -/
theorem distinctFrom_distinctFrom (within : ∀ item ∈ earlier, item ∈ seen) :
    distinctFrom seen (distinctFrom earlier items) = distinctFrom seen items := by
  induction items generalizing seen earlier with
  | nil => rfl
  | cons item rest ih =>
      by_cases isEarlier : item ∈ earlier
      · rw [distinctFrom.eq_2 earlier, distinctFrom.eq_2 seen, if_pos isEarlier,
          if_pos (within item isEarlier), ih within]
      · have withinCons : ∀ other ∈ item :: earlier, other ∈ item :: seen := by
          intro other inside
          rcases List.mem_cons.mp inside with rfl | isIn
          · exact List.mem_cons_self
          · exact List.mem_cons_of_mem _ (within other isIn)
        rw [distinctFrom.eq_2 earlier, if_neg isEarlier, distinctFrom.eq_2 seen,
          distinctFrom.eq_2 seen]
        split
        · rename_i isSeen
          apply ih
          intro other inside
          rcases List.mem_cons.mp inside with rfl | isIn
          · exact isSeen
          · exact within other isIn
        · rw [ih withinCons]

theorem distinct_distinct (items : List Item) : distinct (distinct items) = distinct items :=
  distinctFrom_distinctFrom fun _ inside => inside

/-- What is collected in front may be made distinct first. -/
theorem distinct_append_left (front back : List Item) :
    distinct (distinct front ++ back) = distinct (front ++ back) := by
  have sameSeen : ∀ other, other ∈ distinct front ++ [] ↔ other ∈ front ++ [] := by
    intro other
    rw [List.append_nil, List.append_nil, mem_distinct]
  have sameFront : distinctFrom [] (distinct front) = distinctFrom [] front :=
    distinct_distinct front
  change distinctFrom [] (distinct front ++ back) = distinctFrom [] (front ++ back)
  rw [distinctFrom_append, distinctFrom_append, sameFront, distinctFrom_congr sameSeen]

/-- So may what is collected behind. -/
theorem distinct_append_right (front back : List Item) :
    distinct (front ++ distinct back) = distinct (front ++ back) := by
  have sameBack : distinctFrom (front ++ []) (distinct back) = distinctFrom (front ++ []) back :=
    distinctFrom_distinctFrom fun _ inside => absurd inside List.not_mem_nil
  change distinctFrom [] (front ++ distinct back) = distinctFrom [] (front ++ back)
  rw [distinctFrom_append, distinctFrom_append, sameBack]

theorem foldl_addDistinct (kept : List Item) :
    items.foldl addDistinct kept = kept ++ distinctFrom kept items := by
  induction items generalizing kept with
  | nil => simp [distinctFrom]
  | cons item rest ih =>
      have sameSeen : ∀ other, other ∈ kept ++ [item] ↔ other ∈ item :: kept := by
        intro other
        rw [List.mem_append, List.mem_singleton, List.mem_cons]
        exact or_comm
      rw [List.foldl_cons, ih, addDistinct, distinctFrom]
      split
      · rfl
      · rw [distinctFrom_congr sameSeen, List.append_assoc, List.singleton_append]

/-- The first item that was not seen comes first, and the others after it. -/
theorem distinctFrom_eq_cons_iff {rest : List Item} :
    distinctFrom seen items = first :: rest ↔
      items.find? (fun item => !decide (item ∈ seen)) = some first ∧
        distinctFrom (first :: seen) items = rest := by
  induction items generalizing rest with
  | nil => simp [distinctFrom]
  | cons item items ih =>
      rw [distinctFrom, distinctFrom, List.find?_cons]
      by_cases isSeen : item ∈ seen
      · have alsoSeen : item ∈ first :: seen := List.mem_cons_of_mem _ isSeen
        simp only [isSeen, alsoSeen, if_true, decide_true, Bool.not_true]
        exact ih
      · simp only [isSeen, if_false, decide_false, Bool.not_false, List.cons.injEq,
          Option.some.injEq]
        constructor
        · rintro ⟨rfl, same⟩
          rw [if_pos List.mem_cons_self]
          exact ⟨rfl, same⟩
        · rintro ⟨rfl, same⟩
          rw [if_pos List.mem_cons_self] at same
          exact ⟨rfl, same⟩

section Marks

/-- Every marked item was there before, or is the next new one without a mark. -/
def Covered (seen : List Item) : List (Item × Bool) → Prop
  | [] => True
  | (item, marked) :: rest =>
      (marked = true → item ∈ seen ∨
        (unmarked rest).find? (fun other => !decide (other ∈ seen)) = some item) ∧
        Covered (item :: seen) rest

theorem covered_congr {marks : List (Item × Bool)} (same : ∀ item, item ∈ seen ↔ item ∈ earlier) :
    Covered seen marks ↔ Covered earlier marks := by
  induction marks generalizing seen earlier with
  | nil => exact Iff.rfl
  | cons mark rest ih =>
      have sameCons : ∀ other, other ∈ mark.1 :: seen ↔ other ∈ mark.1 :: earlier := by
        intro other
        rw [List.mem_cons, List.mem_cons, same]
      rw [Covered, Covered, ih sameCons]
      simp only [same]

/-- Without the marked items the list of the distinct ones is the same exactly when these are
covered. -/
theorem distinctFrom_unmarked_iff {marks : List (Item × Bool)} :
    distinctFrom seen (marks.map Prod.fst) = distinctFrom seen (unmarked marks) ↔
      Covered seen marks := by
  induction marks generalizing seen with
  | nil => simp [unmarked, Covered]
  | cons mark rest ih =>
      rcases mark with ⟨item, marked⟩
      have absorbed (isSeen : item ∈ seen) : Covered seen rest ↔ Covered (item :: seen) rest := by
        apply covered_congr
        intro other
        rw [List.mem_cons]
        constructor
        · exact Or.inr
        · rintro (rfl | isIn)
          · exact isSeen
          · exact isIn
      rw [List.map_cons, Covered, distinctFrom]
      cases marked with
      | false =>
          have kept : unmarked ((item, false) :: rest) = item :: unmarked rest := rfl
          rw [kept, distinctFrom]
          by_cases isSeen : item ∈ seen
          · simp only [isSeen, if_true, Bool.false_eq_true, false_imp_iff, true_and]
            rw [ih, absorbed isSeen]
          · simp only [isSeen, if_false, Bool.false_eq_true, false_imp_iff, true_and,
              List.cons.injEq]
            exact ih
      | true =>
          have skipped : unmarked ((item, true) :: rest) = unmarked rest := rfl
          rw [skipped]
          by_cases isSeen : item ∈ seen
          · simp only [isSeen, if_true, true_or, imp_true_iff, true_and]
            rw [ih, absorbed isSeen]
          · simp only [isSeen, if_false, false_or, true_imp_iff]
            rw [eq_comm, distinctFrom_eq_cons_iff, ← ih]
            exact and_congr_right fun _ => eq_comm

end Marks

end MikroLLM.Library
