import Mathlib.Algebra.BigOperators.Group.List.Basic
import Mathlib.Data.List.Induction
import Mathlib.Data.List.Perm.Subperm
import Mathlib.Order.Monotone.Defs
import Mathlib.Algebra.Order.Group.Int
import MikroLLM.Library.Association

/-!
# Tallies

A table with one row for each key, to which amounts are added one at a time.
What a row holds is the sum of the amounts of its key, in the order in which
they came; the first one is stored as it is, so no zero is needed.
-/

namespace MikroLLM.Library

universe u v w

variable {Key : Type u} {Sum : Type v} {Entry : Type w}

/-- The sum of the amounts, the first one being the start; `none` when there is none. -/
def sumOf [Add Sum] : List Sum → Option Sum
  | [] => none
  | first :: rest => some (rest.foldl (· + ·) first)

theorem sumOf_concat [Add Sum] (amounts : List Sum) (amount : Sum) :
    sumOf (amounts ++ [amount]) = some ((sumOf amounts).elim amount (· + amount)) := by
  cases amounts with
  | nil => rfl
  | cons first rest => simp [sumOf]

theorem sumOf_eq_none_iff [Add Sum] {amounts : List Sum} : sumOf amounts = none ↔ amounts = [] := by
  cases amounts <;> simp [sumOf]

section Additive

variable {Number : Type w} [AddMonoid Number] {f : Sum → Number}

theorem sum_map_filterMap {Source : Type u} (found : Source → Option Sum) (sources : List Source) :
    ((sources.filterMap found).map f).sum =
      (sources.map fun source => (found source).elim 0 f).sum := by
  induction sources with
  | nil => rfl
  | cons source rest ih =>
      cases isFound : found source <;> simp [isFound, ih]

variable [Add Sum]

theorem map_foldl_start (add : ∀ left right, f (left + right) = f left + f right) (start : Sum)
    (amounts : List Sum) : f (amounts.foldl (· + ·) start) = f start + (amounts.map f).sum := by
  induction amounts generalizing start with
  | nil => simp
  | cons first rest ih => rw [List.foldl_cons, ih, add, List.map_cons, List.sum_cons, add_assoc]

/-- A function that keeps sums does so in any order of addition. -/
theorem map_foldl_add [Zero Sum] (zero : f 0 = 0)
    (add : ∀ left right, f (left + right) = f left + f right) (amounts : List Sum) :
    f (amounts.foldl (· + ·) 0) = (amounts.map f).sum := by
  rw [map_foldl_start add, zero, zero_add]

theorem map_sumOf (add : ∀ left right, f (left + right) = f left + f right)
    (amounts : List Sum) : (sumOf amounts).elim 0 f = (amounts.map f).sum := by
  cases amounts with
  | nil => rfl
  | cons first rest =>
      rw [List.map_cons, List.sum_cons]
      exact map_foldl_start add first rest

end Additive

section Tables

variable [DecidableEq Key]

/-- Add an amount to the row of a key; a key without a row gets one. -/
def accrue [Add Sum] (table : Association Key Sum) (key : Key) (amount : Sum) :
    Association Key Sum :=
  table.put key ((table.get key).elim amount (· + amount))

/-- The rows after one entry after the other. -/
def accrueAll [Add Sum] (key : Entry → Key) (amount : Entry → Sum)
    (table : Association Key Sum) (entries : List Entry) : Association Key Sum :=
  entries.foldl (fun table entry => accrue table (key entry) (amount entry)) table

/-- The amounts of one key. -/
def amountsOf (key : Entry → Key) (amount : Entry → Sum) (wanted : Key) (entries : List Entry) :
    List Sum :=
  (entries.filter (key · = wanted)).map amount

variable {key : Entry → Key} {amount : Entry → Sum} {wanted : Key} {entries : List Entry}

theorem amountsOf_append (before after : List Entry) :
    amountsOf key amount wanted (before ++ after) =
      amountsOf key amount wanted before ++ amountsOf key amount wanted after := by
  simp [amountsOf]

theorem amountsOf_singleton (entry : Entry) :
    amountsOf key amount wanted [entry] = if key entry = wanted then [amount entry] else [] := by
  by_cases same : key entry = wanted <;> simp [amountsOf, same]

theorem amountsOf_filter_self :
    amountsOf key amount wanted (entries.filter (key · = wanted)) =
      amountsOf key amount wanted entries := by
  simp [amountsOf]

theorem amountsOf_filter_other {other : Key} (differs : other ≠ wanted) :
    amountsOf key amount wanted (entries.filter (key · = other)) = [] := by
  rw [amountsOf, List.map_eq_nil_iff, List.filter_eq_nil_iff]
  intro entry inside
  have isOther : key entry = other := by simpa using List.of_mem_filter inside
  simpa [isOther] using differs

/-- The amounts of a key, where the entries come one key after the other. -/
theorem amountsOf_flatMap_filter {keys : List Key} (nodup : keys.Nodup) :
    amountsOf key amount wanted (keys.flatMap fun other => entries.filter (key · = other)) =
      if wanted ∈ keys then amountsOf key amount wanted entries else [] := by
  induction keys with
  | nil => rfl
  | cons other rest ih =>
      rw [List.nodup_cons] at nodup
      rw [List.flatMap_cons, amountsOf_append, ih nodup.2]
      by_cases same : other = wanted
      · subst same
        rw [amountsOf_filter_self, if_neg nodup.1, if_pos List.mem_cons_self, List.append_nil]
      · rw [amountsOf_filter_other same, List.nil_append]
        simp [Ne.symm same]

/-- The entries of different keys, one key after the other, are entries. -/
theorem flatMap_filter_subperm {keys : List Key} (nodup : keys.Nodup) :
    (keys.flatMap fun wanted => entries.filter (key · = wanted)).Subperm entries := by
  induction keys generalizing entries with
  | nil => exact List.nil_subperm
  | cons wanted rest ih =>
      rw [List.nodup_cons] at nodup
      have left : (rest.flatMap fun other => entries.filter (key · = other)) =
          rest.flatMap fun other =>
            (entries.filter fun entry => !decide (key entry = wanted)).filter (key · = other) := by
        refine List.flatMap_congr fun other inside => ?_
        rw [List.filter_filter]
        refine List.filter_congr fun entry _ => ?_
        by_cases isOther : key entry = other
        · have differs : other ≠ wanted := by
            rintro rfl
            exact nodup.1 inside
          simp [isOther, differs]
        · simp [isOther]
      rw [List.flatMap_cons, left]
      refine ((List.subperm_append_left _).mpr (ih nodup.2)).trans ?_
      exact (List.filter_append_perm _ entries).subperm

variable [Add Sum]

theorem get_accrue {table : Association Key Sum} {changed : Key} {added : Sum} :
    (accrue table changed added).get wanted =
      if changed = wanted then some ((table.get wanted).elim added (· + added))
      else table.get wanted := by
  rw [accrue]
  split
  · rename_i same
    rw [same, Association.get_put_self]
  · rename_i differs
    exact Association.get_put_other (Ne.symm differs)

/-- Adding to zero when there is no row. -/
theorem put_getD_eq_accrue {Number : Type v} [AddZeroClass Number] (table : Association Key Number)
    (changed : Key) (added : Number) :
    table.put changed ((table.get changed).getD 0 + added) = accrue table changed added := by
  rw [accrue]
  cases table.get changed with
  | none => rw [Option.getD_none, zero_add, Option.elim_none]
  | some old => rfl

theorem accrueAll_append (table : Association Key Sum) (before after : List Entry) :
    accrueAll key amount table (before ++ after) =
      accrueAll key amount (accrueAll key amount table before) after := by
  simp [accrueAll]

/-- What a row holds after one entry after the other. -/
theorem get_accrueAll (key : Entry → Key) (amount : Entry → Sum) (wanted : Key)
    (entries : List Entry) :
    (accrueAll key amount Association.empty entries).get wanted =
      sumOf (amountsOf key amount wanted entries) := by
  induction entries using List.reverseRecOn with
  | nil => rfl
  | append_singleton before entry ih =>
      have one (table : Association Key Sum) :
          accrueAll key amount table [entry] = accrue table (key entry) (amount entry) := rfl
      rw [accrueAll_append, one, get_accrue, ih, amountsOf_append, amountsOf_singleton]
      split
      · rw [sumOf_concat]
      · rw [List.append_nil]

end Tables

section Windows

variable [AddCommMonoid Sum] (amount : Entry → Sum)

/-- The sum of the amounts of the entries that meet a condition. -/
def sumWhere (entries : List Entry) (wanted : Entry → Bool) : Sum :=
  ((entries.filter wanted).map amount).sum

theorem sumWhere_or {entries : List Entry} {first second : Entry → Bool}
    (apart : ∀ entry ∈ entries, first entry = true → second entry = false) :
    sumWhere amount entries first + sumWhere amount entries second =
      sumWhere amount entries fun entry => first entry || second entry := by
  induction entries with
  | nil => simp [sumWhere]
  | cons entry rest ih =>
      rw [List.forall_mem_cons] at apart
      have tail := ih apart.2
      simp only [sumWhere] at tail ⊢
      cases isFirst : first entry with
      | true =>
          have notSecond := apart.1 isFirst
          simp only [List.filter_cons, isFirst, notSecond, Bool.true_or, if_true, List.map_cons,
            List.sum_cons, Bool.false_eq_true, if_false]
          rw [add_assoc, tail]
      | false =>
          cases isSecond : second entry with
          | true =>
              simp only [List.filter_cons, isFirst, isSecond, Bool.or_true, if_true, List.map_cons,
                List.sum_cons, Bool.false_eq_true, if_false]
              rw [add_left_comm, tail]
          | false =>
              simp only [List.filter_cons, isFirst, isSecond, Bool.or_false, Bool.false_eq_true,
                if_false]
              exact tail

/-- Adding up the rows of different keys adds up the entries with one of these keys. -/
theorem sum_rows [DecidableEq Key] (key : Entry → Key) (entries : List Entry) {keys : List Key}
    (nodup : keys.Nodup) :
    (keys.map fun wanted => (amountsOf key amount wanted entries).sum).sum =
      sumWhere amount entries (key · ∈ keys) := by
  induction keys with
  | nil => simp [sumWhere]
  | cons wanted rest ih =>
      rw [List.nodup_cons] at nodup
      have one : (amountsOf key amount wanted entries).sum =
          sumWhere amount entries (key · = wanted) := rfl
      rw [List.map_cons, List.sum_cons, ih nodup.2, one, sumWhere_or]
      · simp only [sumWhere, List.mem_cons, Bool.decide_or]
      · intro entry _ isWanted
        rw [decide_eq_true_eq] at isWanted
        rw [decide_eq_false_iff_not, isWanted]
        exact nodup.1

variable {Time : Type} [LinearOrder Time] {border : ℕ → Time}

/-- Adjoining windows are one window. -/
theorem sum_windows (time : Entry → Time) (entries : List Entry) (rising : Monotone border)
    (count : ℕ) :
    ((List.range count).map fun i =>
        sumWhere amount entries fun entry => border i ≤ time entry ∧ time entry < border (i + 1)).sum =
      sumWhere amount entries fun entry => border 0 ≤ time entry ∧ time entry < border count := by
  induction count with
  | zero =>
      rw [List.range_zero, List.map_nil, List.sum_nil, sumWhere, List.filter_eq_nil_iff.mpr]
      · rfl
      · intro entry _
        simp
  | succ count ih =>
      rw [List.range_succ, List.map_append, List.sum_append, ih, List.map_singleton,
        List.sum_singleton, sumWhere_or]
      · have first := rising (Nat.zero_le count)
        have last := rising (Nat.le_succ count)
        simp only [sumWhere, Nat.succ_eq_add_one] at first last ⊢
        congr 2
        refine List.filter_congr fun entry _ => ?_
        rw [← Bool.decide_or, decide_eq_decide]
        constructor
        · rintro (⟨low, high⟩ | ⟨low, high⟩)
          · exact ⟨low, lt_of_lt_of_le high last⟩
          · exact ⟨le_trans first low, high⟩
        · rintro ⟨low, high⟩
          rcases lt_or_ge (time entry) (border count) with earlier | later
          · exact Or.inl ⟨low, earlier⟩
          · exact Or.inr ⟨later, high⟩
      · intro entry _ inside
        rw [decide_eq_true_eq] at inside
        rw [decide_eq_false_iff_not]
        intro again
        exact absurd inside.2 (not_lt.mpr again.1)

end Windows

/-- An instant between the first border and the last lies in exactly one window. -/
theorem one_window {Time : Type} [LinearOrder Time] {border : ℕ → Time} (rising : Monotone border)
    {count : ℕ} {instant : Time} (low : border 0 ≤ instant) (high : instant < border count) :
    ((List.range count).filter fun i => border i ≤ instant ∧ instant < border (i + 1)).length =
      1 := by
  induction count with
  | zero => exact absurd low (not_le.mpr high)
  | succ count ih =>
      rw [List.range_succ, List.filter_append, List.length_append]
      by_cases earlier : instant < border count
      · rw [ih earlier, List.filter_cons_of_neg]
        · rfl
        · rw [decide_eq_true_eq]
          intro inside
          exact absurd earlier (not_lt.mpr inside.1)
      · rw [not_lt] at earlier
        have none : (List.range count).filter
            (fun i => border i ≤ instant ∧ instant < border (i + 1)) = [] := by
          rw [List.filter_eq_nil_iff]
          intro i inside
          have before := rising (Nat.succ_le_of_lt (List.mem_range.mp inside))
          rw [Nat.succ_eq_add_one] at before
          rw [decide_eq_true_eq]
          intro inside
          exact absurd inside.2 (not_lt.mpr (le_trans before earlier))
        rw [none, List.filter_cons_of_pos]
        · rfl
        · rw [decide_eq_true_eq]
          exact ⟨earlier, high⟩

end MikroLLM.Library
