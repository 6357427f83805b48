import Mathlib.Data.List.Induction
import Mathlib.Data.List.Nodup
import Mathlib.Data.Nat.Notation

/-!
# Slots for fragments with keys

The fragments of several things come interleaved, and the key of a fragment says
which thing it is a part of. The first fragment with a key opens a slot, a later
one goes into the slot that a table has for its key. So there is one slot for
each key, in the order in which the keys come up, and it holds what the fragments
with its key make together.
-/

namespace MikroLLM.Library

universe u v w

section Firsts

variable {Key : Type u} [DecidableEq Key] {keys : List Key} {key : Key}

theorem eraseDups_concat (keys : List Key) (key : Key) :
    (keys ++ [key]).eraseDups = if key ∈ keys then keys.eraseDups else keys.eraseDups ++ [key] := by
  rw [List.eraseDups_append]
  by_cases known : key ∈ keys
  · simp [List.removeAll, known]
  · simp [List.removeAll, known, List.eraseDups_cons]

theorem nodup_eraseDups (keys : List Key) : keys.eraseDups.Nodup := by
  induction keys using List.reverseRecOn with
  | nil => simp
  | append_singleton before key ih =>
      rw [eraseDups_concat]
      split
      · exact ih
      · rename_i new
        apply ih.append (List.nodup_singleton key)
        simpa using new

theorem eraseDups_of_nodup (nodup : keys.Nodup) : keys.eraseDups = keys := by
  induction keys using List.reverseRecOn with
  | nil => rfl
  | append_singleton before key ih =>
      rw [List.nodup_append] at nodup
      have new : key ∉ before := fun known => nodup.2.2 key known key (by simp) rfl
      rw [eraseDups_concat, if_neg new, ih nodup.1]

theorem length_eraseDups_le (keys : List Key) : keys.eraseDups.length ≤ keys.length := by
  induction keys using List.reverseRecOn with
  | nil => simp
  | append_singleton before key ih =>
      rw [eraseDups_concat]
      split
      · rw [List.length_append]
        omega
      · rw [List.length_append, List.length_append]
        omega

theorem nodup_of_length_eraseDups (same : keys.eraseDups.length = keys.length) : keys.Nodup := by
  induction keys using List.reverseRecOn with
  | nil => simp
  | append_singleton before key ih =>
      have shorter := length_eraseDups_le before
      rw [eraseDups_concat, List.length_append, List.length_singleton] at same
      split at same
      · omega
      · rename_i new
        rw [List.length_append, List.length_singleton] at same
        apply (ih (by omega)).append (List.nodup_singleton key)
        simpa using new

end Firsts

/-- The slots, and the places that the keys have among them. -/
structure Slots (Key : Type u) (Slot : Type v) where
  slots : List Slot
  places : List (Key × ℕ)

section Filling

variable {Key : Type u} {Slot : Type v} {Fragment : Type w} [DecidableEq Key]
  (key : Fragment → Key) (fresh : Key → Slot) (absorb : Slot → Fragment → Slot)

/-- The fragment goes into the slot of its key. -/
def Slots.put (held : Slots Key Slot) (fragment : Fragment) : Slots Key Slot :=
  match held.places.lookup (key fragment) with
  | some place => ⟨held.slots.modify place (absorb · fragment), held.places⟩
  | none =>
      ⟨held.slots ++ [absorb (fresh (key fragment)) fragment],
        (key fragment, held.slots.length) :: held.places⟩

/-- What the fragments with a key make together. -/
def gathered (fragments : List Fragment) (wanted : Key) : Slot :=
  (fragments.filter fun fragment => key fragment = wanted).foldl absorb (fresh wanted)

/-- The slots hold what these fragments make, and the table has the place of every slot. -/
structure Slots.Holds (held : Slots Key Slot) (fragments : List Fragment) : Prop where
  slots : held.slots = (fragments.map key).eraseDups.map (gathered key fresh absorb fragments)
  places : ∀ wanted place, held.places.lookup wanted = some place ↔
    (fragments.map key).eraseDups[place]? = some wanted

variable {key fresh absorb} {held : Slots Key Slot} {fragments : List Fragment}

theorem gathered_concat (fragment : Fragment) (wanted : Key) :
    gathered key fresh absorb (fragments ++ [fragment]) wanted =
      if key fragment = wanted then absorb (gathered key fresh absorb fragments wanted) fragment
      else gathered key fresh absorb fragments wanted := by
  rw [gathered, gathered, List.filter_append, List.foldl_append]
  by_cases same : key fragment = wanted
  · simp [same]
  · simp [same]

theorem gathered_new {wanted : Key} (new : wanted ∉ fragments.map key) :
    gathered key fresh absorb fragments wanted = fresh wanted := by
  have noFragment : fragments.filter (fun fragment => key fragment = wanted) = [] := by
    rw [List.filter_eq_nil_iff]
    intro fragment inside same
    apply new
    rw [← of_decide_eq_true same]
    exact List.mem_map_of_mem inside
  rw [gathered, noFragment, List.foldl_nil]

theorem Slots.holds_nil : Slots.Holds key fresh absorb ⟨[], []⟩ [] :=
  ⟨rfl, by simp⟩

/-- The table knows the keys that came up. -/
theorem Slots.Holds.lookup_eq_none (holds : held.Holds key fresh absorb fragments) {wanted : Key} :
    held.places.lookup wanted = none ↔ wanted ∉ fragments.map key := by
  rw [Option.eq_none_iff_forall_ne_some]
  simp only [ne_eq, holds.places]
  rw [← List.mem_eraseDups, List.mem_iff_getElem?, not_exists]

/-- A new key: the fragment opens a slot behind the others. -/
theorem Slots.Holds.opens (holds : held.Holds key fresh absorb fragments) {fragment : Fragment}
    (new : key fragment ∉ fragments.map key) :
    Slots.Holds key fresh absorb
      ⟨held.slots ++ [absorb (fresh (key fragment)) fragment],
        (key fragment, held.slots.length) :: held.places⟩ (fragments ++ [fragment]) := by
  have keys : ((fragments ++ [fragment]).map key).eraseDups =
      (fragments.map key).eraseDups ++ [key fragment] := by
    rw [List.map_append, List.map_singleton, eraseDups_concat, if_neg new]
  have length : held.slots.length = (fragments.map key).eraseDups.length := by
    rw [holds.slots, List.length_map]
  constructor
  · rw [keys, List.map_append, List.map_singleton, gathered_concat, if_pos rfl, gathered_new new]
    apply congrArg (· ++ _)
    rw [holds.slots]
    apply List.map_congr_left
    intro wanted known
    rw [List.mem_eraseDups] at known
    have other : key fragment ≠ wanted := fun same => new (same ▸ known)
    rw [gathered_concat, if_neg other]
  · intro wanted place
    rw [keys, length]
    by_cases same : wanted = key fragment
    · subst same
      rw [List.lookup_cons_self, Option.some.injEq, List.getElem?_append]
      split
      · rename_i before
        have notThere : (fragments.map key).eraseDups[place]? ≠ some (key fragment) := by
          intro there
          apply new
          rw [← List.mem_eraseDups]
          exact List.mem_of_getElem? there
        constructor
        · omega
        · intro there
          exact absurd there notThere
      · rw [List.getElem?_singleton]
        split
        · simp only [iff_true]
          omega
        · simp only [reduceCtorEq, iff_false]
          omega
    · have other : (wanted == key fragment) = false := by simpa using same
      rw [List.lookup_cons, other]
      simp only [holds.places]
      rw [List.getElem?_append]
      split
      · rfl
      · rw [List.getElem?_eq_none (by omega), List.getElem?_singleton]
        split
        · simp [Ne.symm same]
        · simp

/-- A key that has a slot: the fragment goes into it. -/
theorem Slots.Holds.fills (holds : held.Holds key fresh absorb fragments) {fragment : Fragment}
    {place : ℕ} (there : (fragments.map key).eraseDups[place]? = some (key fragment)) :
    Slots.Holds key fresh absorb ⟨held.slots.modify place (absorb · fragment), held.places⟩
      (fragments ++ [fragment]) := by
  have known : key fragment ∈ fragments.map key := by
    rw [← List.mem_eraseDups]
    exact List.mem_of_getElem? there
  have keys : ((fragments ++ [fragment]).map key).eraseDups = (fragments.map key).eraseDups := by
    rw [List.map_append, List.map_singleton, eraseDups_concat, if_pos known]
  constructor
  · rw [keys, holds.slots]
    apply List.ext_getElem?
    intro spot
    rw [List.getElem?_modify, List.getElem?_map, List.getElem?_map]
    cases here : (fragments.map key).eraseDups[spot]? with
    | none => simp
    | some wanted =>
        have sameKey : place = spot ↔ key fragment = wanted := by
          constructor
          · intro isSpot
            rw [← isSpot, there] at here
            exact Option.some.inj here
          · intro same
            rw [same] at there
            have inRange := (List.getElem?_eq_some_iff.mp there).1
            exact (List.getElem?_inj inRange (nodup_eraseDups _)).mp (there.trans here.symm)
        simp only [sameKey, Option.map_eq_map, Option.map_some, gathered_concat]
  · intro wanted spot
    rw [keys]
    exact holds.places wanted spot

theorem Slots.Holds.put (holds : held.Holds key fresh absorb fragments) (fragment : Fragment) :
    (held.put key fresh absorb fragment).Holds key fresh absorb (fragments ++ [fragment]) := by
  rw [Slots.put]
  cases looks : held.places.lookup (key fragment) with
  | none => exact holds.opens (holds.lookup_eq_none.mp looks)
  | some place => exact holds.fills ((holds.places _ _).mp looks)

theorem Slots.Holds.foldl (holds : held.Holds key fresh absorb fragments) (more : List Fragment) :
    (more.foldl (Slots.put key fresh absorb) held).Holds key fresh absorb (fragments ++ more) := by
  induction more generalizing held fragments with
  | nil => simpa using holds
  | cons fragment rest ih =>
      rw [List.foldl_cons]
      have later := ih (holds.put fragment)
      rwa [List.append_assoc, List.singleton_append] at later

end Filling

section Whole

variable {Value : Type u} {zero whole : Value} {combine : Value → Value → Value}
  {values : List Value}

/-- The value comes whole, perhaps several times, and everything else that comes is empty. -/
def ArrivesWhole (zero whole : Value) (values : List Value) : Prop :=
  (∀ value ∈ values, value = zero ∨ value = whole) ∧ (whole = zero ∨ whole ∈ values)

theorem arrivesWhole_singleton (zero whole : Value) : ArrivesWhole zero whole [whole] :=
  ⟨fun _ inside => Or.inr (List.mem_singleton.mp inside), Or.inr (List.mem_singleton_self whole)⟩

theorem foldl_of_arrivesWhole (skips : ∀ held, combine held zero = held)
    (takes : combine zero whole = whole) (keeps : combine whole whole = whole)
    (arrives : ArrivesWhole zero whole values) : values.foldl combine zero = whole := by
  have stays : ∀ values : List Value, (∀ value ∈ values, value = zero ∨ value = whole) →
      values.foldl combine whole = whole := by
    intro values each
    induction values with
    | nil => rfl
    | cons value rest ih =>
        rw [List.forall_mem_cons] at each
        rw [List.foldl_cons]
        rcases each.1 with rfl | rfl
        · rw [skips]
          exact ih each.2
        · rw [keeps]
          exact ih each.2
  rcases arrives with ⟨each, comes⟩
  induction values with
  | nil =>
      rcases comes with isZero | inside
      · exact isZero.symm
      · cases inside
  | cons value rest ih =>
      rw [List.forall_mem_cons] at each
      rw [List.foldl_cons]
      rcases each.1 with rfl | rfl
      · rw [skips]
        apply ih each.2
        rcases comes with isZero | inside
        · exact Or.inl isZero
        · rcases List.mem_cons.mp inside with isZero | later
          · exact Or.inl isZero
          · exact Or.inr later
      · rw [takes]
        exact stays rest each.2

end Whole

end MikroLLM.Library
