import Mathlib.Data.List.Nodup
import MikroLLM.Domain.Gateway
import MikroLLM.Go.Text
import MikroLLM.Library.Keyed

/-!
# Backends in the store

The table `backends` with its keys, and the statements that write it. What is
stored as the token of a subscription is a session, which `UpsertBackend` reads
and writes anew.
-/

namespace MikroLLM.Store

open Domain Go Library

/-- A row of table `backends` with the weight, which the proxy does not read. -/
structure BackendRow extends Backend where
  weight : ℤ
  deriving DecidableEq

/-- The table; the counter is that of `AUTOINCREMENT`. -/
structure BackendTable where
  rows : List BackendRow
  next : BackendId
  id_nodup : (rows.map (·.id)).Nodup
  url_nodup : (rows.map (·.baseURL)).Nodup
  id_lt : ∀ row ∈ rows, row.id < next

/-- The table before the first insert. -/
def BackendTable.empty : BackendTable where
  rows := []
  next := 1
  id_nodup := List.nodup_nil
  url_nodup := List.nodup_nil
  id_lt _ listed := absurd listed List.not_mem_nil

/-- `codex.Parse` or `grok.Parse`, and `Session.Compact`. -/
structure SessionLibrary (Session : Type) where
  parse : String → Option Session
  compact : Session → String

/-- `SanitizeToken`. -/
def sanitizeToken (text : TextLibrary) (token : String) : String :=
  let isQuote (char : Char) : Bool := char = '"' || char = '\''
  let unquoted := ((trimSpace token).toList.dropWhile isQuote).rdropWhile isQuote
  let line := (trimSpace (String.ofList unquoted)).toList.takeWhile fun char =>
    char ≠ '\r' && char ≠ '\n'
  let line := (trimSpace (String.ofList line)).toList
  let first := String.ofList (firstBytes 6 line)
  if text.equalFold first "bearer" then trimSpace (String.ofList (line.drop first.length))
  else String.ofList line

namespace BackendTable

variable {CodexSession GrokSession : Type} (text : TextLibrary)
  (codex : SessionLibrary CodexSession) (grok : SessionLibrary GrokSession)

/-- The token that `UpsertBackend` stores; none when it is no session. -/
def storedToken (kind : BackendKind) (token : String) : Option String :=
  match kind with
  | .codex => (codex.parse token).map codex.compact
  | .grok => (grok.parse token).map grok.compact
  | _ => some (sanitizeToken text token)

/-- The values of an upsert on a row with the URL. -/
def update (row : BackendRow) (name : String) (enabled : Bool) (weight : ℤ) (kind : BackendKind)
    (token : String) : BackendRow :=
  { row with
    name := name
    enabled := enabled
    weight := if weight ≤ 0 then 1 else weight
    kind := kind
    token := token }

/-- The row with this URL. -/
def atURL (table : BackendTable) (baseURL : String) : Option BackendRow :=
  table.rows.find? (·.baseURL = trimRight baseURL '/')

/-- `INSERT INTO backends`, and on a conflict of the URL the update. The counter moves on in both
cases. -/
def write (table : BackendTable) (name baseURL : String) (enabled : Bool) (weight : ℤ)
    (kind : BackendKind) (token : String) : BackendTable :=
  let url := trimRight baseURL '/'
  if conflict : ∃ row ∈ table.rows, row.baseURL = url then
    { rows := table.rows.map fun row =>
        if row.baseURL = url then update row name enabled weight kind token else row
      next := table.next + 1
      id_nodup := by
        have sameId : ∀ row : BackendRow, (if row.baseURL = url then
            update row name enabled weight kind token else row).id = row.id := by
          intro row
          split <;> rfl
        simpa only [List.map_map, Function.comp_def, sameId] using table.id_nodup
      url_nodup := by
        have sameURL : ∀ row : BackendRow, (if row.baseURL = url then
            update row name enabled weight kind token else row).baseURL = row.baseURL := by
          intro row
          split <;> rfl
        simpa only [List.map_map, Function.comp_def, sameURL] using table.url_nodup
      id_lt := by
        intro row listed
        rcases List.mem_map.mp listed with ⟨old, inside, rfl⟩
        split <;> exact Nat.lt_succ_of_lt (table.id_lt old inside) }
  else
    { rows := table.rows ++ [update ⟨⟨table.next, "", url, kind, "", true⟩, 1⟩ name enabled weight
        kind token]
      next := table.next + 1
      id_nodup := append_map_nodup table.id_nodup fun old inside =>
        Nat.ne_of_lt (table.id_lt old inside)
      url_nodup := append_map_nodup table.url_nodup fun old inside sameURL =>
        conflict ⟨old, inside, sameURL⟩
      id_lt := append_key_lt table.id_lt rfl }

/-- `Store.UpsertBackend`; none when the token of a subscription is no session. -/
def upsertBackend (table : BackendTable) (name baseURL : String) (enabled : Bool) (weight : ℤ)
    (kind : BackendKind) (token : String) : Option BackendTable :=
  (storedToken text codex grok kind token).map fun token =>
    table.write name baseURL enabled weight kind token

/-- `Store.SetBackendEnabled`. -/
def setBackendEnabled (table : BackendTable) (id : BackendId) (enabled : Bool) : BackendTable :=
  { table with
    rows := table.rows.map fun row => if row.id = id then { row with enabled := enabled } else row
    id_nodup := by
      have sameId : ∀ row : BackendRow,
          (if row.id = id then { row with enabled := enabled } else row).id = row.id := by
        intro row
        split <;> rfl
      simpa only [List.map_map, Function.comp_def, sameId] using table.id_nodup
    url_nodup := by
      have sameURL : ∀ row : BackendRow,
          (if row.id = id then { row with enabled := enabled } else row).baseURL = row.baseURL := by
        intro row
        split <;> rfl
      simpa only [List.map_map, Function.comp_def, sameURL] using table.url_nodup
    id_lt := by
      intro row listed
      rcases List.mem_map.mp listed with ⟨old, inside, rfl⟩
      split <;> exact table.id_lt old inside }

/-- `Store.DeleteBackend`. -/
def deleteBackend (table : BackendTable) (id : BackendId) : BackendTable where
  rows := table.rows.filter (·.id ≠ id)
  next := table.next
  id_nodup := table.id_nodup.sublist (List.filter_sublist.map _)
  url_nodup := table.url_nodup.sublist (List.filter_sublist.map _)
  id_lt row listed := table.id_lt row (List.mem_of_mem_filter listed)

/-- `Store.GetBackend`. -/
def getBackend (table : BackendTable) (id : BackendId) : Option BackendRow :=
  table.rows.find? (·.id = id)

/-- The rows of an upsert that finds the URL. -/
theorem write_rows_of_some {table : BackendTable} {name baseURL : String} {enabled : Bool}
    {weight : ℤ} {kind : BackendKind} {token : String} {found : BackendRow}
    (isRow : table.atURL baseURL = some found) :
    (table.write name baseURL enabled weight kind token).rows =
      table.rows.map fun row =>
        if row.id = found.id then update row name enabled weight kind token else row := by
  have inside := List.mem_of_find?_eq_some isRow
  have hasURL : found.baseURL = trimRight baseURL '/' := by simpa using List.find?_some isRow
  have conflict : ∃ row ∈ table.rows, row.baseURL = trimRight baseURL '/' := ⟨found, inside, hasURL⟩
  simp only [write, dif_pos conflict]
  apply List.map_congr_left
  intro row listed
  by_cases sameURL : row.baseURL = trimRight baseURL '/'
  · have isFound := List.inj_on_of_nodup_map table.url_nodup listed inside
      (sameURL.trans hasURL.symm)
    rw [if_pos sameURL, isFound, if_pos rfl]
  · have otherId : row.id ≠ found.id := by
      intro sameId
      rw [List.inj_on_of_nodup_map table.id_nodup listed inside sameId] at sameURL
      exact sameURL hasURL
    rw [if_neg sameURL, if_neg otherId]

/-- An upsert that does not find the URL makes a new row. -/
theorem length_write_of_none {table : BackendTable} {name baseURL : String} {enabled : Bool}
    {weight : ℤ} {kind : BackendKind} {token : String} (missing : table.atURL baseURL = none) :
    (table.write name baseURL enabled weight kind token).rows.length = table.rows.length + 1 := by
  have free : ¬∃ row ∈ table.rows, row.baseURL = trimRight baseURL '/' := by
    rintro ⟨row, inside, hasURL⟩
    simpa [hasURL] using List.find?_eq_none.mp missing row inside
  simp [write, dif_neg free]

section Rows

variable {table : BackendTable} {name baseURL url : String} {enabled : Bool} {weight : ℤ}
  {kind : BackendKind} {token : String} {row : BackendRow}

theorem find?_baseURL_eq_some_iff :
    table.rows.find? (·.baseURL = url) = some row ↔ row ∈ table.rows ∧ row.baseURL = url := by
  constructor
  · intro found
    exact ⟨List.mem_of_find?_eq_some found, by simpa using List.find?_some found⟩
  · rintro ⟨inside, hasURL⟩
    cases finds : table.rows.find? (·.baseURL = url) with
    | none =>
        have differs := List.find?_eq_none.mp finds row inside
        simp [hasURL] at differs
    | some other =>
        have otherURL : other.baseURL = url := by simpa using List.find?_some finds
        rw [List.inj_on_of_nodup_map table.url_nodup (List.mem_of_find?_eq_some finds) inside
          (otherURL.trans hasURL.symm)]

/-- The row with the URL after an upsert has what was given. -/
theorem mem_write_self (inside : row ∈ (table.write name baseURL enabled weight kind token).rows)
    (hasURL : row.baseURL = trimRight baseURL '/') : row.kind = kind ∧ row.token = token := by
  simp only [write] at inside
  split at inside
  · rcases List.mem_map.mp inside with ⟨old, _, rfl⟩
    split at hasURL
    · rename_i same
      rw [if_pos same]
      exact ⟨rfl, rfl⟩
    · contradiction
  · rename_i free
    rcases List.mem_append.mp inside with old | isNew
    · exact absurd ⟨row, old, hasURL⟩ free
    · rw [List.mem_singleton.mp isNew]
      exact ⟨rfl, rfl⟩

theorem exists_mem_write (table : BackendTable) (name baseURL : String) (enabled : Bool) (weight : ℤ)
    (kind : BackendKind) (token : String) :
    ∃ row ∈ (table.write name baseURL enabled weight kind token).rows,
      row.baseURL = trimRight baseURL '/' := by
  simp only [write]
  split
  · rename_i conflict
    rcases conflict with ⟨row, inside, hasURL⟩
    refine ⟨_, List.mem_map_of_mem inside, ?_⟩
    rw [if_pos hasURL]
    exact hasURL
  · exact ⟨_, List.mem_append_right _ (List.mem_singleton_self _), rfl⟩

/-- An upsert leaves the rows with other URLs as they are. -/
theorem mem_write_other (otherURL : row.baseURL ≠ trimRight baseURL '/') :
    row ∈ (table.write name baseURL enabled weight kind token).rows ↔ row ∈ table.rows := by
  simp only [write]
  split
  · constructor
    · intro inside
      rcases List.mem_map.mp inside with ⟨old, listed, rfl⟩
      split at otherURL
      · rename_i same
        exact absurd same otherURL
      · rename_i differs
        rwa [if_neg differs]
    · intro inside
      refine List.mem_map.mpr ⟨row, inside, ?_⟩
      rw [if_neg otherURL]
  · rw [List.mem_append, List.mem_singleton]
    refine or_iff_left ?_
    rintro rfl
    exact otherURL rfl

end Rows

end BackendTable

end MikroLLM.Store
