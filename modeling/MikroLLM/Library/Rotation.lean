import Mathlib.Data.Int.ModEq
import Mathlib.Data.List.Nodup
import Mathlib.Data.List.Perm.Subperm

/-!
# Taking turns

A list serves in turns when turn `t` gets the entry at the remainder of `t` by
the length of the list. The remainder is the truncated one, so a negative turn
has an entry only when the length divides it.
-/

namespace MikroLLM.Library

universe u

variable {Entry : Type u}

/-- The entry that a turn gets; none when the remainder is no index. -/
def atTurn (entries : List Entry) (turn : ℤ) : Option Entry :=
  let index := turn.tmod entries.length
  if 0 ≤ index then entries[index.toNat]? else none

/-- Every answer is an entry, and as many answers in a row as there are entries are each entry
once. -/
structure Rotates (entries : List Entry) (answers : List (Option Entry)) : Prop where
  answered : ∀ answer ∈ answers, answer.isSome
  once : ∀ window, window <:+: answers → window.length = entries.length →
    window.Perm (entries.map some)

/-- A turn that has an entry. -/
def HasEntry (entries : List Entry) (turn : ℤ) : Prop :=
  0 ≤ turn ∨ (entries.length : ℤ) ∣ turn

variable {entries : List Entry}

theorem tmod_eq_emod_of_hasEntry {turn : ℤ} (valid : HasEntry entries turn) :
    turn.tmod entries.length = turn % entries.length := by
  rcases valid with nonneg | divides
  · exact Int.tmod_eq_emod_of_nonneg nonneg
  · rw [Int.tmod_eq_zero_of_dvd divides, Int.emod_eq_zero_of_dvd divides]

theorem hasEntry_iff {turn : ℤ} :
    HasEntry entries turn ↔ 0 ≤ turn.tmod entries.length := by
  constructor
  · intro valid
    rcases valid with nonneg | divides
    · exact Int.tmod_nonneg _ nonneg
    · rw [Int.tmod_eq_zero_of_dvd divides]
  · intro index
    by_cases nonneg : 0 ≤ turn
    · exact Or.inl nonneg
    · right
      have negated : (-turn).tmod entries.length = -turn.tmod entries.length := Int.neg_tmod ..
      have opposite := Int.tmod_nonneg entries.length (show 0 ≤ -turn by omega)
      apply Int.dvd_of_tmod_eq_zero
      omega

theorem tmod_toNat_lt (nonempty : entries ≠ []) (turn : ℤ) :
    (turn.tmod entries.length).toNat < entries.length := by
  have positive : 0 < entries.length := List.length_pos_iff.mpr nonempty
  have below := Int.tmod_lt_of_pos turn (show (0 : ℤ) < entries.length by omega)
  omega

theorem isSome_atTurn_iff (nonempty : entries ≠ []) {turn : ℤ} :
    (atTurn entries turn).isSome ↔ HasEntry entries turn := by
  rw [hasEntry_iff]
  simp only [atTurn]
  split
  · rename_i index
    simp [index, List.getElem?_eq_getElem (tmod_toNat_lt nonempty turn)]
  · rename_i negative
    simp [negative]

/-- Two turns of a list without repetitions get the same entry when its length divides their
distance. -/
theorem atTurn_eq_iff (distinct : entries.Nodup) (nonempty : entries ≠ []) {first second : ℤ}
    (firstValid : HasEntry entries first) (secondValid : HasEntry entries second) :
    atTurn entries first = atTurn entries second ↔ (entries.length : ℤ) ∣ second - first := by
  have firstIndex := hasEntry_iff.mp firstValid
  have secondIndex := hasEntry_iff.mp secondValid
  have firstLt := tmod_toNat_lt nonempty first
  have secondLt := tmod_toNat_lt nonempty second
  calc atTurn entries first = atTurn entries second
      ↔ (first.tmod entries.length).toNat = (second.tmod entries.length).toNat := by
        simp only [atTurn, if_pos firstIndex, if_pos secondIndex,
          List.getElem?_eq_getElem firstLt, List.getElem?_eq_getElem secondLt, Option.some.injEq]
        exact List.Nodup.getElem_inj_iff distinct
    _ ↔ first % entries.length = second % entries.length := by
        rw [← tmod_eq_emod_of_hasEntry firstValid, ← tmod_eq_emod_of_hasEntry secondValid]
        omega
    _ ↔ (entries.length : ℤ) ∣ second - first := Int.modEq_iff_dvd

theorem atTurn_mem {turn : ℤ} {entry : Entry} (taken : atTurn entries turn = some entry) :
    entry ∈ entries := by
  simp only [atTurn] at taken
  split at taken
  · exact List.mem_of_getElem? taken
  · cases taken

/-- As many turns as there are entries get each entry once exactly when the length divides the
distance of no two of them. -/
theorem perm_map_atTurn_iff (distinct : entries.Nodup) (nonempty : entries ≠ []) {turns : List ℤ}
    (valid : ∀ turn ∈ turns, HasEntry entries turn) (full : turns.length = entries.length) :
    (turns.map (atTurn entries)).Perm (entries.map some) ↔
      turns.Pairwise fun first second => ¬(entries.length : ℤ) ∣ second - first := by
  have allDistinct : (turns.map (atTurn entries)).Nodup ↔
      turns.Pairwise fun first second => ¬(entries.length : ℤ) ∣ second - first := by
    rw [List.Nodup, List.pairwise_map]
    apply List.Pairwise.iff_of_mem
    intro first second firstMem secondMem
    exact not_congr (atTurn_eq_iff distinct nonempty (valid first firstMem) (valid second secondMem))
  rw [← allDistinct]
  constructor
  · intro perm
    exact perm.nodup_iff.mpr (List.Nodup.map (Option.some_injective _) distinct)
  · intro nodup
    have included : turns.map (atTurn entries) ⊆ entries.map some := by
      intro answer inside
      rcases List.mem_map.mp inside with ⟨turn, turnMem, rfl⟩
      have answered := (isSome_atTurn_iff nonempty).mpr (valid turn turnMem)
      rcases Option.isSome_iff_exists.mp answered with ⟨entry, taken⟩
      rw [taken]
      exact List.mem_map_of_mem (atTurn_mem taken)
    apply (List.subperm_of_subset nodup included).perm_of_length_le
    simp [full]

/-- When the answers to a list of turns rotate. -/
theorem rotates_iff (distinct : entries.Nodup) (nonempty : entries ≠ []) {turns : List ℤ} :
    Rotates entries (turns.map (atTurn entries)) ↔
      (∀ turn ∈ turns, HasEntry entries turn) ∧
        ∀ window, window <:+: turns → window.length = entries.length →
          window.Pairwise fun first second => ¬(entries.length : ℤ) ∣ second - first := by
  constructor
  · rintro ⟨answered, once⟩
    have valid : ∀ turn ∈ turns, HasEntry entries turn := by
      intro turn inside
      exact (isSome_atTurn_iff nonempty).mp (answered _ (List.mem_map_of_mem inside))
    refine ⟨valid, ?_⟩
    intro window inside full
    apply (perm_map_atTurn_iff distinct nonempty (fun turn listed => ?_) full).mp
    · apply once _ (inside.map _)
      simp [full]
    · exact valid turn (inside.subset listed)
  · rintro ⟨valid, apart⟩
    constructor
    · intro answer inside
      rcases List.mem_map.mp inside with ⟨turn, turnMem, rfl⟩
      exact (isSome_atTurn_iff nonempty).mpr (valid turn turnMem)
    · intro window inside full
      rcases List.infix_map_iff.mp inside with ⟨turned, turnedInside, rfl⟩
      rw [List.length_map] at full
      apply (perm_map_atTurn_iff distinct nonempty (fun turn listed => ?_) full).mpr
      · exact apart turned turnedInside full
      · exact valid turn (turnedInside.subset listed)

/-- Turns that count up from one that is not negative rotate. -/
theorem rotates_countUp (distinct : entries.Nodup) (nonempty : entries ≠ []) {start : ℤ}
    (nonneg : 0 ≤ start) (count : ℕ) :
    Rotates entries (((List.range count).map fun (step : ℕ) => start + (step : ℤ)).map
      (atTurn entries)) := by
  rw [rotates_iff distinct nonempty]
  constructor
  · intro turn inside
    rcases List.mem_map.mp inside with ⟨step, _, rfl⟩
    left
    omega
  · intro window inside full
    rcases List.infix_map_iff.mp inside with ⟨steps, ⟨before, after, parts⟩, rfl⟩
    rw [List.length_map] at full
    have consecutive : ∀ index (bound : index < steps.length),
        steps[index] = before.length + index := by
      intro index bound
      have listed : (List.range count)[before.length + index]? = some steps[index] := by
        rw [← parts, List.append_assoc, List.getElem?_append_right (by omega)]
        simp [List.getElem?_append_left bound, List.getElem?_eq_getElem bound]
      rw [List.getElem?_eq_some_iff] at listed
      rcases listed with ⟨_, isStep⟩
      simpa using isStep.symm
    rw [List.pairwise_map, List.pairwise_iff_getElem]
    intro first second firstBound secondBound before divides
    rw [consecutive first firstBound, consecutive second secondBound] at divides
    have := Int.le_of_dvd (by omega) divides
    omega

end MikroLLM.Library
