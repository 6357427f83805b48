import Mathlib.Data.List.Sort
import Mathlib.Order.Lattice

/-!
# Sorting by a key

`ORDER BY` and `sort.Slice` with a key that tells the entries apart: the result
does not depend on the order of the input.
-/

namespace MikroLLM.Library

universe u v

variable {Entry : Type u} {Key : Type v} [LinearOrder Key] {key : Entry → Key}

/-- The entries in the order of their keys. -/
def orderBy (key : Entry → Key) (entries : List Entry) : List Entry :=
  entries.insertionSort fun first second => key first ≤ key second

theorem orderBy_perm (key : Entry → Key) (entries : List Entry) : (orderBy key entries).Perm entries :=
  List.perm_insertionSort _ entries

@[simp]
theorem mem_orderBy {entries : List Entry} {entry : Entry} :
    entry ∈ orderBy key entries ↔ entry ∈ entries :=
  (orderBy_perm key entries).mem_iff

theorem nodup_orderBy {entries : List Entry} : (orderBy key entries).Nodup ↔ entries.Nodup :=
  (orderBy_perm key entries).nodup_iff

theorem orderBy_sorted (entries : List Entry) :
    (orderBy key entries).Pairwise fun first second => key first ≤ key second := by
  have total : Std.Total fun first second : Entry => key first ≤ key second :=
    ⟨fun first second => le_total (key first) (key second)⟩
  have trans : IsTrans Entry fun first second => key first ≤ key second :=
    ⟨fun _ _ _ => le_trans⟩
  exact List.pairwise_insertionSort _ entries

/-- Two lists of the same entries are sorted to the same list. -/
theorem orderBy_eq_of_perm {first second : List Entry} (perm : first.Perm second)
    (distinct : ∀ a ∈ first, ∀ b ∈ first, key a = key b → a = b) :
    orderBy key first = orderBy key second := by
  have sorted := (orderBy_perm key first).trans
    (perm.trans (orderBy_perm key second).symm)
  apply sorted.eq_of_pairwise _ (orderBy_sorted first) (orderBy_sorted second)
  intro a b aListed bListed le ge
  have aMem := mem_orderBy.mp aListed
  have bMem := perm.mem_iff.mpr (mem_orderBy.mp bListed)
  exact distinct a aMem b bMem (le_antisymm le ge)

/-- Two lists without repetitions that have the same entries are sorted to the same list. -/
theorem orderBy_congr {first second : List Entry} (firstNodup : first.Nodup)
    (secondNodup : second.Nodup) (same : ∀ entry, entry ∈ first ↔ entry ∈ second)
    (distinct : ∀ a ∈ first, ∀ b ∈ first, key a = key b → a = b) :
    orderBy key first = orderBy key second :=
  orderBy_eq_of_perm ((List.perm_ext_iff_of_nodup firstNodup secondNodup).mpr same) distinct

/-- Sorting and filtering commute. -/
theorem filter_orderBy (keeps : Entry → Bool) {entries : List Entry}
    (distinct : ∀ a ∈ entries, ∀ b ∈ entries, key a = key b → a = b) :
    (orderBy key entries).filter keeps = orderBy key (entries.filter keeps) := by
  have perm : ((orderBy key entries).filter keeps).Perm (orderBy key (entries.filter keeps)) :=
    ((orderBy_perm key entries).filter keeps).trans (orderBy_perm key (entries.filter keeps)).symm
  apply perm.eq_of_pairwise _ ((orderBy_sorted entries).filter keeps) (orderBy_sorted _)
  intro a b aListed bListed le ge
  have aMem := mem_orderBy.mp (List.mem_of_mem_filter aListed)
  have bMem := List.mem_of_mem_filter (mem_orderBy.mp bListed)
  exact distinct a aMem b bMem (le_antisymm le ge)

end MikroLLM.Library
