import Mathlib.Data.Set.Basic
import MikroLLM.Store.Registry

/-!
# What a failed save leaves behind

`SaveModel` writes the row of a model, deletes its backends and inserts the new
ones, in statements of their own. When an insertion fails, what came before it
stays.
-/

namespace MikroLLM.Store

open Domain Go Library

namespace Registry

section Tables

variable (registry : Registry)

/-- The table `models`. -/
def modelRows : Set Model :=
  {row | ∃ model ∈ registry.models.models, row = { model with backendIds := [] }}

/-- The table `model_backends`. -/
def modelBackends : Set (ModelId × BackendId) :=
  {pair | ∃ model ∈ registry.models.models, model.id = pair.1 ∧ pair.2 ∈ model.backendIds}

/-- Two states of the store with the same models and the same backends of each. -/
def SameTables (next : Registry) : Prop :=
  next.modelRows = registry.modelRows ∧ next.modelBackends = registry.modelBackends

/-- A save that fails leaves the tables as they were. -/
def Atomic (text : TextLibrary) (model : Model) : Prop :=
  ∀ error, (registry.saveModel text model).2 = .error error →
    registry.SameTables (registry.saveModel text model).1

/-- The ids of a list before the first one that cannot be written: one that is unknown, or a second
time there. -/
def StopsAfter (known ids front : List BackendId) : Prop :=
  ∃ bad back, ids = front ++ bad :: back ∧ front.Nodup ∧ (∀ id ∈ front, id ∈ known) ∧
    (bad ∉ known ∨ bad ∈ front)

/-- The saves of which no failure is seen in the tables: the alias is taken or not unique, the row
is not there, no backend is unknown or listed twice, or what is written before the first such one
is what was there. -/
def SavesWhole (text : TextLibrary) (model : Model) : Prop :=
  let row := normalizeModel text model
  let known := registry.models.backends.map (·.id)
  registry.aliasTaken row.aliasName 0 row.id = true ∨
    (row.id ≠ 0 ∧ row.id ∉ registry.models.models.map (·.id)) ∨
    (∃ other ∈ registry.models.models, other.id ≠ row.id ∧ other.aliasName = row.aliasName) ∨
    (row.backendIds.Nodup ∧ ∀ id ∈ row.backendIds, id ∈ known) ∨
    ∃ old ∈ registry.models.models, old.id = row.id ∧
      { row with backendIds := old.backendIds } = old ∧
      ∃ front, StopsAfter known row.backendIds front ∧ ∀ id, id ∈ front ↔ id ∈ old.backendIds

end Tables

section Insertions

variable {known written ids front : List BackendId}

theorem insertBackends_fits (nodup : (written ++ ids).Nodup) (inside : ∀ id ∈ ids, id ∈ known) :
    insertBackends known written ids = (written ++ ids, true) := by
  induction ids generalizing written with
  | nil => rw [insertBackends, List.append_nil]
  | cons id rest ih =>
      rw [List.forall_mem_cons] at inside
      have fresh : id ∉ written := by
        rw [List.nodup_append] at nodup
        intro before
        exact nodup.2.2 id before id List.mem_cons_self rfl
      rw [insertBackends, if_pos ⟨inside.1, fresh⟩]
      rw [List.append_cons written id rest] at nodup ⊢
      exact ih nodup inside.2

/-- The loop writes the ids before the first bad one. -/
theorem insertBackends_stops {bad : BackendId} {back : List BackendId}
    (nodup : (written ++ front).Nodup) (inside : ∀ id ∈ front, id ∈ known)
    (fails : bad ∉ known ∨ bad ∈ written ++ front) :
    insertBackends known written (front ++ bad :: back) = (written ++ front, false) := by
  induction front generalizing written with
  | nil =>
      rw [List.append_nil] at fails
      rw [List.nil_append, List.append_nil, insertBackends, if_neg]
      rintro ⟨isKnown, fresh⟩
      rcases fails with unknown | twice
      · exact unknown isKnown
      · exact fresh twice
  | cons id rest ih =>
      rw [List.forall_mem_cons] at inside
      have fresh : id ∉ written := by
        rw [List.nodup_append] at nodup
        intro before
        exact nodup.2.2 id before id List.mem_cons_self rfl
      rw [List.cons_append, insertBackends, if_pos ⟨inside.1, fresh⟩]
      rw [List.append_cons written id rest] at nodup fails ⊢
      exact ih nodup inside.2 fails

/-- All ids can be written, or there is a first bad one. -/
theorem fits_or_stops (known ids : List BackendId) :
    (ids.Nodup ∧ ∀ id ∈ ids, id ∈ known) ∨ ∃ front, StopsAfter known ids front := by
  induction ids using List.reverseRecOn with
  | nil => exact Or.inl ⟨List.nodup_nil, by simp⟩
  | append_singleton before last ih =>
      rcases ih with ⟨nodup, inside⟩ | ⟨front, bad, back, rfl, rest⟩
      · by_cases fits : last ∈ known ∧ last ∉ before
        · left
          refine ⟨?_, ?_⟩
          · rw [List.nodup_append]
            refine ⟨nodup, List.nodup_singleton last, ?_⟩
            intro id isBefore other isLast same
            rw [List.mem_singleton] at isLast
            rw [same, isLast] at isBefore
            exact fits.2 isBefore
          · intro id listed
            rcases List.mem_append.mp listed with isBefore | isLast
            · exact inside id isBefore
            · rw [List.mem_singleton.mp isLast]
              exact fits.1
        · right
          refine ⟨before, last, [], rfl, nodup, inside, ?_⟩
          rw [not_and_or, not_not] at fits
          exact fits
      · right
        exact ⟨front, bad, back ++ [last], by simp, rest⟩

theorem insertBackends_of_stops (stops : StopsAfter known ids front) :
    insertBackends known [] ids = (front, false) := by
  rcases stops with ⟨bad, back, rfl, nodup, inside, fails⟩
  exact insertBackends_stops nodup inside fails

end Insertions

section Saving

variable {text : TextLibrary} {registry next : Registry} {model row saved : Model} {id : ModelId}
  {ids front : List BackendId}

theorem not_fits_of_stops {known : List BackendId} (stops : StopsAfter known ids front) :
    ¬(ids.Nodup ∧ ∀ id ∈ ids, id ∈ known) := by
  rcases stops with ⟨bad, back, rfl, _, _, fails⟩
  rintro ⟨nodup, inside⟩
  rcases fails with unknown | twice
  · exact unknown (inside bad (by simp))
  · rw [List.nodup_append] at nodup
    exact nodup.2.2 bad twice bad List.mem_cons_self rfl

/-- The rows after the backends of one of them are written. -/
theorem bindBackends_rows (bound : (insertBackends
      (if id ∈ registry.models.models.map (·.id) then registry.models.backends.map (·.id) else [])
      [] ids).1 = front) :
    (registry.bindBackends id ids).1.models.models = registry.models.models.map fun model =>
      if model.id = id then { model with backendIds := front } else model := by
  subst bound
  rfl

/-- A save that is refused leaves everything. -/
theorem atomic_of_unwritten (unwritten : (registry.saveModel text model).1 = registry) :
    registry.Atomic text model := by
  intro error _
  rw [unwritten]
  exact ⟨rfl, rfl⟩

/-- A row that is not there gets no backends. -/
theorem sameTables_absent (absent : id ∉ registry.models.models.map (·.id))
    (ids : List BackendId) : registry.SameTables (registry.bindBackends id ids).1 := by
  have same : (registry.bindBackends id ids).1.models.models = registry.models.models := by
    rw [bindBackends_rows rfl]
    apply (List.map_congr_left ?_).trans (List.map_id _)
    intro model inside
    rw [if_neg, id_eq]
    rintro rfl
    exact absent (List.mem_map.mpr ⟨model, inside, rfl⟩)
  rw [SameTables, modelRows, modelRows, modelBackends, modelBackends, same]
  exact ⟨rfl, rfl⟩

/-- What a save has done when its last statement ends. -/
theorem saveModel_written {middle : Registry} (open' : registry.aliasTaken
      (normalizeModel text model).aliasName 0 (normalizeModel text model).id = false)
    (written : (if (normalizeModel text model).id = 0 then
        (registry.insertModel (normalizeModel text model)).map
          fun next => (next, registry.nextModel)
      else (registry.updateModel (normalizeModel text model)).map
        fun next => (next, (normalizeModel text model).id)) = some (middle, id)) :
    registry.saveModel text model =
      ((middle.bindBackends id (normalizeModel text model).backendIds).1,
        if (middle.bindBackends id (normalizeModel text model).backendIds).2 then .ok id
        else .error .constraint) := by
  simp only [saveModel, open', Bool.false_eq_true, if_false, written]

theorem saveModel_unwritten (open' : registry.aliasTaken
      (normalizeModel text model).aliasName 0 (normalizeModel text model).id = false)
    (written : (if (normalizeModel text model).id = 0 then
        (registry.insertModel (normalizeModel text model)).map
          fun next => (next, registry.nextModel)
      else (registry.updateModel (normalizeModel text model)).map
        fun next => (next, (normalizeModel text model).id)) = none) :
    registry.saveModel text model = (registry, .error .constraint) := by
  simp only [saveModel, open', Bool.false_eq_true, if_false, written]

theorem bindBackends_fits (present : id ∈ registry.models.models.map (·.id)) (nodup : ids.Nodup)
    (inside : ∀ backend ∈ ids, backend ∈ registry.models.backends.map (·.id)) :
    (registry.bindBackends id ids).2 = true := by
  have fits := @insertBackends_fits (registry.models.backends.map (·.id)) [] ids nodup inside
  simp only [bindBackends, if_pos present, fits]

theorem bindBackends_stops (present : id ∈ registry.models.models.map (·.id))
    (stops : StopsAfter (registry.models.backends.map (·.id)) ids front) :
    (registry.bindBackends id ids).2 = false ∧
      (registry.bindBackends id ids).1.models.models = registry.models.models.map fun model =>
        if model.id = id then { model with backendIds := front } else model := by
  have stopped := insertBackends_of_stops stops
  constructor
  · simp only [bindBackends, if_pos present, stopped]
  · apply bindBackends_rows
    rw [if_pos present, stopped]

/-- A new row stays when one of its backends cannot be written. -/
theorem not_sameTables_of_new (listed : saved ∈ next.models.models)
    (fresh : saved.id ∉ registry.models.models.map (·.id)) : ¬registry.SameTables next := by
  rintro ⟨rows, _⟩
  have inside : { saved with backendIds := [] } ∈ next.modelRows := ⟨saved, listed, rfl⟩
  rw [rows] at inside
  rcases inside with ⟨old, isOld, same⟩
  have sameId := congrArg Model.id same
  exact fresh (List.mem_map.mpr ⟨old, isOld, sameId.symm⟩)

theorem not_sameTables_rebound {middle : Registry} (listed : saved ∈ middle.models.models)
    (fresh : saved.id ∉ registry.models.models.map (·.id))
    (stops : StopsAfter (middle.models.backends.map (·.id)) ids front) :
    ¬registry.SameTables (middle.bindBackends saved.id ids).1 := by
  have present : saved.id ∈ middle.models.models.map (·.id) := List.mem_map_of_mem listed
  have stays : { saved with backendIds := front } ∈
      (middle.bindBackends saved.id ids).1.models.models := by
    rw [(bindBackends_stops present stops).2]
    exact List.mem_map.mpr ⟨saved, listed, if_pos rfl⟩
  exact not_sameTables_of_new stays fresh

/-- An old row is in the tables what it was exactly if what is written is what was there. -/
theorem sameTables_overwritten_iff {old : Model} (inside : old ∈ registry.models.models)
    (rows : next.models.models = registry.models.models.map fun model =>
      if model.id = old.id then { row with backendIds := front } else model)
    (sameId : row.id = old.id) :
    registry.SameTables next ↔ { row with backendIds := old.backendIds } = old ∧
      ∀ id, id ∈ front ↔ id ∈ old.backendIds := by
  have unique : ∀ other ∈ registry.models.models, other.id = old.id → other = old :=
    fun other isOther same =>
      List.inj_on_of_nodup_map registry.models.models_id_nodup isOther inside same
  have mem (saved : Model) : saved ∈ next.models.models ↔
      saved = { row with backendIds := front } ∨
        saved ∈ registry.models.models ∧ saved ≠ old := by
    rw [rows, List.mem_map]
    constructor
    · rintro ⟨other, isOther, rfl⟩
      split
      · exact Or.inl rfl
      · rename_i differs
        refine Or.inr ⟨isOther, ?_⟩
        rintro rfl
        exact differs rfl
    · rintro (rfl | ⟨isSaved, differs⟩)
      · exact ⟨old, inside, if_pos rfl⟩
      · exact ⟨saved, isSaved, if_neg fun same => differs (unique saved isSaved same)⟩
  have written : { row with backendIds := front } ∈ next.models.models := (mem _).mpr (Or.inl rfl)
  constructor
  · rintro ⟨sameRows, sameBackends⟩
    have row' : { row with backendIds := [] } ∈ next.modelRows :=
      ⟨{ row with backendIds := front }, written, rfl⟩
    rw [sameRows] at row'
    rcases row' with ⟨other, isOther, same⟩
    have isOld := unique other isOther ((congrArg Model.id same).symm.trans sameId)
    subst isOld
    refine ⟨?_, ?_⟩
    · have restored := congrArg (fun model : Model => { model with backendIds := other.backendIds }) same
      exact restored
    · intro id
      have pairs : (other.id, id) ∈ next.modelBackends ↔ (other.id, id) ∈ registry.modelBackends := by
        rw [sameBackends]
      constructor
      · intro isFront
        have now : (other.id, id) ∈ next.modelBackends :=
          ⟨{ row with backendIds := front }, written, sameId, isFront⟩
        rcases pairs.mp now with ⟨before, isBefore, same, listed⟩
        rw [unique before isBefore same] at listed
        exact listed
      · intro listed
        have before : (other.id, id) ∈ registry.modelBackends := ⟨other, isOther, rfl, listed⟩
        rcases pairs.mpr before with ⟨saved, isSaved, same, isListed⟩
        rcases (mem saved).mp isSaved with rfl | ⟨isOld, differs⟩
        · exact isListed
        · exact absurd (unique saved isOld same) differs
  · rintro ⟨sameRow, sameBackends⟩
    have bare : ({ row with backendIds := [] } : Model) = { old with backendIds := [] } :=
      congrArg (fun model : Model => { model with backendIds := [] }) sameRow
    constructor
    · apply Set.ext
      intro shown
      constructor
      · rintro ⟨saved, isSaved, rfl⟩
        rcases (mem saved).mp isSaved with rfl | ⟨isOld, _⟩
        · exact ⟨old, inside, bare⟩
        · exact ⟨saved, isOld, rfl⟩
      · rintro ⟨before, isBefore, rfl⟩
        by_cases isOld : before = old
        · subst isOld
          exact ⟨_, written, bare.symm⟩
        · exact ⟨before, (mem before).mpr (Or.inr ⟨isBefore, isOld⟩), rfl⟩
    · apply Set.ext
      rintro ⟨id, backend⟩
      constructor
      · rintro ⟨saved, isSaved, same, listed⟩
        rcases (mem saved).mp isSaved with rfl | ⟨isOld, _⟩
        · exact ⟨old, inside, sameId.symm.trans same, (sameBackends backend).mp listed⟩
        · exact ⟨saved, isOld, same, listed⟩
      · rintro ⟨before, isBefore, same, listed⟩
        by_cases isOld : before = old
        · subst isOld
          exact ⟨_, written, sameId.trans same, (sameBackends backend).mpr listed⟩
        · exact ⟨before, (mem before).mpr (Or.inr ⟨isBefore, isOld⟩), same, listed⟩

end Saving

section Outcomes

variable {text : TextLibrary} {registry : Registry} {model : Model}

theorem insertModel_cases (row : Model) :
    (∃ other ∈ registry.models.models, other.aliasName = row.aliasName) ∧
        registry.insertModel row = none ∨
      (∀ other ∈ registry.models.models, other.aliasName ≠ row.aliasName) ∧
        ∃ middle, registry.insertModel row = some middle ∧
          middle.models.models = registry.models.models ++ [{ row with id := registry.nextModel }] ∧
          middle.models.backends = registry.models.backends := by
  rw [insertModel]
  split
  · rename_i free
    exact Or.inr ⟨free, _, rfl, rfl, rfl⟩
  · rename_i taken
    left
    simp only [not_forall, not_not] at taken
    rcases taken with ⟨other, inside, same⟩
    exact ⟨⟨other, inside, same⟩, rfl⟩

theorem updateModel_cases (row : Model) :
    row.id ∉ registry.models.models.map (·.id) ∧ registry.updateModel row = some registry ∨
      row.id ∈ registry.models.models.map (·.id) ∧
        ((∃ other ∈ registry.models.models, other.id ≠ row.id ∧ other.aliasName = row.aliasName) ∧
            registry.updateModel row = none ∨
          (∀ other ∈ registry.models.models, other.id ≠ row.id → other.aliasName ≠ row.aliasName) ∧
            ∃ middle, registry.updateModel row = some middle ∧
              middle.models.models = overwrite (·.id) row registry.models.models ∧
              middle.models.backends = registry.models.backends) := by
  rw [updateModel]
  split
  · rename_i present
    right
    refine ⟨present, ?_⟩
    split
    · rename_i free
      exact Or.inr ⟨free, _, rfl, rfl, rfl⟩
    · rename_i taken
      left
      simp only [not_forall, not_not, exists_prop] at taken
      exact ⟨taken, rfl⟩
  · rename_i absent
    exact Or.inl ⟨absent, rfl⟩

/-- A save that goes through, and one that stops at a backend. -/
theorem atomic_written_iff {middle : Registry} {id : ModelId}
    (saves : registry.saveModel text model =
      ((middle.bindBackends id (normalizeModel text model).backendIds).1,
        if (middle.bindBackends id (normalizeModel text model).backendIds).2 then .ok id
        else .error .constraint))
    (present : id ∈ middle.models.models.map (·.id)) :
    registry.Atomic text model ↔
      ((normalizeModel text model).backendIds.Nodup ∧
        ∀ backend ∈ (normalizeModel text model).backendIds,
          backend ∈ middle.models.backends.map (·.id)) ∨
      ∃ front, StopsAfter (middle.models.backends.map (·.id))
          (normalizeModel text model).backendIds front ∧
        registry.SameTables
          (middle.bindBackends id (normalizeModel text model).backendIds).1 := by
  rw [Atomic, saves]
  rcases fits_or_stops (middle.models.backends.map (·.id))
    (normalizeModel text model).backendIds with fits | ⟨front, stops⟩
  · refine iff_of_true ?_ (Or.inl fits)
    intro error failed
    rw [bindBackends_fits present fits.1 fits.2] at failed
    cases failed
  · have stopped := (bindBackends_stops present stops).1
    rw [or_iff_right (not_fits_of_stops stops), stopped]
    constructor
    · intro atomic
      exact ⟨front, stops, atomic .constraint rfl⟩
    · rintro ⟨_, _, same⟩ _ _
      exact same

theorem atomic_new_iff (open' : registry.aliasTaken (normalizeModel text model).aliasName 0
      (normalizeModel text model).id = false) (isNew : (normalizeModel text model).id = 0) :
    registry.Atomic text model ↔ registry.SavesWhole text model := by
  rcases @insertModel_cases registry (normalizeModel text model) with
    ⟨⟨other, inside, same⟩, fails⟩ | ⟨free, middle, inserts, rows, backends⟩
  · have unwritten := saveModel_unwritten open' (by rw [if_pos isNew, fails]; rfl)
    refine iff_of_true (atomic_of_unwritten (by rw [unwritten])) ?_
    refine Or.inr (Or.inr (Or.inl ⟨other, inside, ?_, same⟩))
    rw [isNew]
    exact Nat.ne_of_gt (registry.models_id_pos other inside)
  · have fresh : registry.nextModel ∉ registry.models.models.map (·.id) := by
      intro listed
      rcases List.mem_map.mp listed with ⟨old, isOld, isNext⟩
      exact absurd isNext (Nat.ne_of_lt (registry.models_id_lt old isOld))
    have listed : { normalizeModel text model with id := registry.nextModel } ∈
        middle.models.models := by
      rw [rows]
      simp
    have present : registry.nextModel ∈ middle.models.models.map (·.id) :=
      List.mem_map.mpr ⟨_, listed, rfl⟩
    rw [atomic_written_iff (saveModel_written open' (by rw [if_pos isNew, inserts]; rfl)) present,
      backends, SavesWhole]
    constructor
    · rintro (fits | ⟨front, stops, same⟩)
      · exact Or.inr (Or.inr (Or.inr (Or.inl fits)))
      · exfalso
        rw [← backends] at stops
        exact not_sameTables_rebound listed fresh stops same
    · rintro (taken | ⟨old, _⟩ | ⟨other, inside, _, same⟩ | fits | ⟨old, inside, same, _⟩)
      · rw [open'] at taken
        cases taken
      · exact absurd isNew old
      · exact absurd same (free other inside)
      · exact Or.inl fits
      · rw [isNew] at same
        exact absurd same (Nat.ne_of_gt (registry.models_id_pos old inside))

theorem atomic_old_iff (open' : registry.aliasTaken (normalizeModel text model).aliasName 0
      (normalizeModel text model).id = false) (notNew : (normalizeModel text model).id ≠ 0) :
    registry.Atomic text model ↔ registry.SavesWhole text model := by
  rcases @updateModel_cases registry (normalizeModel text model) with ⟨absent, updates⟩ |
    ⟨present, ⟨taken, fails⟩ | ⟨free, middle, updates, rows, backends⟩⟩
  · have written := saveModel_written open' (by rw [if_neg notNew, updates]; rfl)
    refine iff_of_true ?_ (Or.inr (Or.inl ⟨notNew, absent⟩))
    intro error _
    rw [written]
    exact sameTables_absent absent _
  · have unwritten := saveModel_unwritten open' (by rw [if_neg notNew, fails]; rfl)
    exact iff_of_true (atomic_of_unwritten (by rw [unwritten]))
      (Or.inr (Or.inr (Or.inl taken)))
  · have presentMiddle : (normalizeModel text model).id ∈ middle.models.models.map (·.id) := by
      rw [rows, overwrite_map_key]
      exact present
    rcases List.mem_map.mp present with ⟨old, inside, sameId⟩
    have shown {front : List BackendId} (stops : StopsAfter (registry.models.backends.map (·.id))
        (normalizeModel text model).backendIds front) :
        registry.SameTables (middle.bindBackends (normalizeModel text model).id
            (normalizeModel text model).backendIds).1 ↔
          { normalizeModel text model with backendIds := old.backendIds } = old ∧
            ∀ id, id ∈ front ↔ id ∈ old.backendIds := by
      rw [← backends] at stops
      have bound := (bindBackends_stops presentMiddle stops).2
      apply sameTables_overwritten_iff inside _ sameId.symm
      rw [bound, rows, overwrite, List.map_map]
      apply List.map_congr_left
      intro other _
      simp only [Function.comp_apply, sameId]
      split
      · rw [if_pos rfl]
      · rfl
    rw [atomic_written_iff (saveModel_written open' (by rw [if_neg notNew, updates]; rfl))
      presentMiddle, backends, SavesWhole]
    constructor
    · rintro (fits | ⟨front, stops, same⟩)
      · exact Or.inr (Or.inr (Or.inr (Or.inl fits)))
      · rcases (shown stops).mp same with ⟨row, restored⟩
        exact Or.inr (Or.inr (Or.inr (Or.inr ⟨old, inside, sameId, row, front, stops, restored⟩)))
    · rintro (taken | ⟨_, absent⟩ | ⟨other, isOther, differs, same⟩ | fits |
        ⟨before, isBefore, same, row, front, stops, restored⟩)
      · rw [open'] at taken
        cases taken
      · exact absurd present absent
      · exact absurd same (free other isOther differs)
      · exact Or.inl fits
      · have isOld : before = old :=
          List.inj_on_of_nodup_map registry.models.models_id_nodup isBefore inside
            (same.trans sameId.symm)
        subst isOld
        exact Or.inr ⟨front, stops, (shown stops).mpr ⟨row, restored⟩⟩

/-- A save that fails leaves the tables as they were exactly if it is one of those. -/
theorem atomic_iff (text : TextLibrary) (registry : Registry) (model : Model) :
    registry.Atomic text model ↔ registry.SavesWhole text model := by
  cases taken : registry.aliasTaken (normalizeModel text model).aliasName 0
      (normalizeModel text model).id with
  | true =>
      refine iff_of_true (atomic_of_unwritten ?_) (Or.inl taken)
      simp only [saveModel, taken, if_true]
  | false =>
      by_cases isNew : (normalizeModel text model).id = 0
      · exact atomic_new_iff taken isNew
      · exact atomic_old_iff taken isNew

/-- A store with one server and a model that is not there yet. -/
def oneBackend : Registry :=
  empty [⟨1, "mac", "http://192.168.88.82:8000", .vllm, "", true⟩] (by decide) (by decide)

def twiceBound : Model :=
  ⟨0, "chat", "qwen3", "", true, [1, 1], 0, "", "inherit", "", [], false, "", ""⟩

theorem not_atomic : ¬∀ (text : TextLibrary) (registry : Registry) (model : Model),
    registry.Atomic text model := by
  intro always
  have name : (normalizeModel asciiText twiceBound).aliasName = twiceBound.aliasName := by
    decide
  have open' : oneBackend.aliasTaken (normalizeModel asciiText twiceBound).aliasName 0
      (normalizeModel asciiText twiceBound).id = false := by
    rw [name]
    decide
  have whole := (atomic_new_iff open' rfl).mp (always asciiText oneBackend twiceBound)
  rcases whole with taken | ⟨old, _⟩ | ⟨_, inside, _⟩ | ⟨nodup, _⟩ | ⟨_, inside, _⟩
  · rw [open'] at taken
    cases taken
  · exact old rfl
  · cases inside
  · exact absurd nodup (by decide)
  · cases inside

end Outcomes

end Registry

end MikroLLM.Store
