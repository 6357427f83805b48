import Mathlib.Data.List.Perm.Basic

/-!
# Exchange sort

The sort that swaps two entries whenever the later one has the smaller key. It
is not stable: which of several entries with the least key comes first depends
on the order of the input.
-/

namespace MikroLLM.Library

universe u

variable {Entry : Type u}

/-- One pass of the outer loop: `current` stands at its index while the inner
loop walks over the later entries and swaps each smaller one in. -/
def sweep (key : Entry → ℕ) (current : Entry) : List Entry → Entry × List Entry
  | [] => (current, [])
  | next :: rest =>
      if key next < key current then
        let swept := sweep key next rest
        (swept.1, current :: swept.2)
      else
        let swept := sweep key current rest
        (swept.1, next :: swept.2)

/-- The outer loop, with the number of passes left. -/
def exchangePasses (key : Entry → ℕ) : ℕ → List Entry → List Entry
  | 0, entries => entries
  | _, [] => []
  | passes + 1, first :: rest =>
      let swept := sweep key first rest
      swept.1 :: exchangePasses key passes swept.2

/-- Sort by key with exchanges. -/
def exchangeSort (key : Entry → ℕ) (entries : List Entry) : List Entry :=
  exchangePasses key entries.length entries

variable {key : Entry → ℕ}

theorem sweep_perm (current : Entry) (entries : List Entry) :
    ((sweep key current entries).1 :: (sweep key current entries).2).Perm (current :: entries) := by
  induction entries generalizing current with
  | nil => simp [sweep]
  | cons next rest ih =>
      simp only [sweep]
      split
      · have swapped := List.Perm.cons current (ih next)
        exact (List.Perm.swap _ _ _).trans swapped
      · have kept := List.Perm.cons next (ih current)
        exact (List.Perm.swap _ _ _).trans (kept.trans (List.Perm.swap _ _ _))

theorem sweep_le (current : Entry) (entries : List Entry) :
    key (sweep key current entries).1 ≤ key current ∧
      ∀ entry ∈ entries, key (sweep key current entries).1 ≤ key entry := by
  induction entries generalizing current with
  | nil => simp [sweep]
  | cons next rest ih =>
      simp only [sweep, List.forall_mem_cons]
      split
      · rename_i smaller
        rcases ih next with ⟨leNext, leRest⟩
        exact ⟨Nat.le_trans leNext (Nat.le_of_lt smaller), leNext, leRest⟩
      · rename_i notSmaller
        rcases ih current with ⟨leCurrent, leRest⟩
        exact ⟨leCurrent, Nat.le_trans leCurrent (Nat.not_lt.mp notSmaller), leRest⟩

theorem exchangePasses_perm (passes : ℕ) (entries : List Entry) :
    (exchangePasses key passes entries).Perm entries := by
  induction passes generalizing entries with
  | zero => simp [exchangePasses]
  | succ passes ih =>
      cases entries with
      | nil => simp [exchangePasses]
      | cons first rest =>
          simp only [exchangePasses]
          exact (List.Perm.cons _ (ih _)).trans (sweep_perm first rest)

theorem exchangeSort_perm (entries : List Entry) : (exchangeSort key entries).Perm entries :=
  exchangePasses_perm _ entries

/-- The first entry of the result has the least key. -/
theorem exchangeSort_head_le {entries rest : List Entry} {head : Entry}
    (sorted : exchangeSort key entries = head :: rest) : ∀ entry ∈ entries, key head ≤ key entry := by
  cases entries with
  | nil => simp
  | cons first others =>
      simp only [exchangeSort, List.length_cons, exchangePasses, List.cons.injEq] at sorted
      rw [← sorted.1, List.forall_mem_cons]
      exact sweep_le first others

end MikroLLM.Library
