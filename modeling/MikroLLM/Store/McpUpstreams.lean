import MikroLLM.Domain.A2A
import MikroLLM.Library.Keyed

/-!
# MCP servers in the store

The table `mcp_upstreams` with its keys, and the statement that writes it.
-/

namespace MikroLLM.Store

open Domain Go Library

/-- A row of table `mcp_upstreams`. -/
structure MCPUpstream where
  id : ℕ
  name : String
  url : String
  token : String
  enabled : Bool
  hubShare : Bool
  deriving DecidableEq

/-- The table; the counter is that of `AUTOINCREMENT`. -/
structure MCPTable where
  rows : List MCPUpstream
  next : ℕ
  id_nodup : (rows.map (·.id)).Nodup
  name_nodup : (rows.map (·.name)).Nodup
  id_lt : ∀ row ∈ rows, row.id < next

namespace MCPTable

variable (table : MCPTable)

/-- `Store.GetMCP`. -/
def getMCP (id : ℕ) : Option MCPUpstream :=
  table.rows.find? (·.id = id)

/-- `Store.GetMCPByName`. -/
def getMCPByName (text : TextLibrary) (name : String) : Option MCPUpstream :=
  (normalizeMCPName text name).bind fun slug => table.rows.find? (·.name = slug)

/-- `INSERT INTO mcp_upstreams`. -/
def insertMCP (row : MCPUpstream) : Except String (MCPTable × ℕ) :=
  if free : ∀ old ∈ table.rows, old.name ≠ row.name then
    .ok ({
      rows := table.rows ++ [{ row with id := table.next }]
      next := table.next + 1
      id_nodup := append_map_nodup table.id_nodup fun old inside =>
        Nat.ne_of_lt (table.id_lt old inside)
      name_nodup := append_map_nodup table.name_nodup free
      id_lt := append_key_lt table.id_lt rfl }, table.next)
  else .error "mcp name taken"

/-- `UPDATE mcp_upstreams`. -/
def updateMCP (row : MCPUpstream) : Except String (MCPTable × ℕ) :=
  if (table.getMCP row.id).isNone then .error "sql: no rows in result set"
  else if free : ∀ old ∈ table.rows, old.id ≠ row.id → old.name ≠ row.name then
    .ok ({ table with
      rows := overwrite (·.id) row table.rows
      id_nodup := by
        rw [overwrite_map_key]
        exact table.id_nodup
      name_nodup := overwrite_map_nodup table.id_nodup table.name_nodup free
      id_lt := overwrite_forall_key (p := (· < table.next)) table.id_lt }, row.id)
  else .error "mcp name taken"

/-- `Store.SaveMCP`. -/
def saveMCP (text : TextLibrary) (parse : String → Option ParsedURL) (upstream : MCPUpstream) :
    Except String (MCPTable × ℕ) :=
  match normalizeMCPName text upstream.name with
  | none => .error "mcp name"
  | some name =>
      let url := trimSpace upstream.url
      if validMCPURL parse url = false then .error "mcp url"
      else
        let row := { upstream with name := name, url := url }
        if upstream.id = 0 then table.insertMCP row
        else if upstream.token = "" then
          match table.getMCP upstream.id with
          | none => .error "sql: no rows in result set"
          | some old => table.updateMCP { row with token := old.token }
        else table.updateMCP row

section Saving

variable {table} {saved : MCPTable} {text : TextLibrary} {parse : String → Option ParsedURL}
  {row upstream : MCPUpstream} {id : ℕ}

theorem insertMCP_rows (inserts : table.insertMCP row = .ok (saved, id)) :
    ∀ other ∈ saved.rows, other ∈ table.rows ∨ other.name = row.name := by
  unfold insertMCP at inserts
  split at inserts
  · cases inserts
    intro other listed
    rcases List.mem_append.mp listed with old | isNew
    · exact Or.inl old
    · rw [List.mem_singleton.mp isNew]
      exact Or.inr rfl
  · cases inserts

theorem updateMCP_rows (updates : table.updateMCP row = .ok (saved, id)) :
    ∀ other ∈ saved.rows, other ∈ table.rows ∨ other.name = row.name := by
  unfold updateMCP at updates
  split_ifs at updates
  cases updates
  intro other listed
  rcases mem_overwrite listed with ⟨rfl, _⟩ | ⟨old, _⟩
  · exact Or.inr rfl
  · exact Or.inl old

/-- A save changes one row, and gives it the name in its normal form. -/
theorem saveMCP_rows (saves : table.saveMCP text parse upstream = .ok (saved, id)) :
    ∀ other ∈ saved.rows, other ∈ table.rows ∨
      normalizeMCPName text upstream.name = some other.name := by
  unfold saveMCP at saves
  split at saves
  · cases saves
  · rename_i name normal
    intro other listed
    rw [normal]
    dsimp only at saves
    split_ifs at saves
    · exact (insertMCP_rows saves other listed).imp_right fun same => congrArg some same.symm
    · split at saves
      · cases saves
      · exact (updateMCP_rows saves other listed).imp_right fun same => congrArg some same.symm
    · exact (updateMCP_rows saves other listed).imp_right fun same => congrArg some same.symm

end Saving

end MCPTable

end MikroLLM.Store
