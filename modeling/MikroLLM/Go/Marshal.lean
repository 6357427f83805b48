import Mathlib.Data.List.Basic
import MikroLLM.Go.Unmarshal

/-!
# Values written

`Marshal` writes a map with its keys in order. How it writes a `float64` is left
open here.
-/

namespace MikroLLM.Go

/-- The members of a map in the order of their keys. -/
def sortKeys (members : List (String × Doc)) : List (String × Doc) :=
  members.mergeSort fun left right => left.1 ≤ right.1

/-- A key and what it leads to, as they are written. -/
def writtenMember (member : String × Doc) : Bytes × Doc :=
  (quote (bytesOf member.1), member.2)

mutual

/-- `Marshal` of an `any`. -/
def Json.marshal (number : Decimal → Bytes) : Json → Doc
  | .null => .null
  | .bool value => .bool value
  | .number literal => .number (number literal)
  | .string text => .string (quote (bytesOf text))
  | .array items => .array (marshalItems number items)
  | .object fields => .object ((sortKeys (marshalFields number fields)).map writtenMember)

def marshalItems (number : Decimal → Bytes) : List Json → List Doc
  | [] => []
  | item :: rest => item.marshal number :: marshalItems number rest

def marshalFields (number : Decimal → Bytes) : List (String × Json) → List (String × Doc)
  | [] => []
  | (key, member) :: rest => (key, member.marshal number) :: marshalFields number rest

end

variable {number : Decimal → Bytes} {members : List (String × Doc)}

theorem sortKeys_of_sorted (sorted : (members.map Prod.fst).Pairwise (· ≤ ·)) :
    sortKeys members = members := by
  apply List.mergeSort_of_pairwise
  rw [List.pairwise_map] at sorted
  exact sorted.imp fun {left right} before => by simpa using before

section Newlines

variable {room : ℕ} {doc : Doc}

/-- A symbol on which an automaton stops is not in what it reads. -/
theorem not_mem_of_foldlM {State Symbol : Type} {next : State → Symbol → Option State}
    {symbol : Symbol} (stops : ∀ state, next state symbol = none) {text : List Symbol}
    {first last : State} (reads : text.foldlM next first = some last) : symbol ∉ text := by
  induction text generalizing first with
  | nil => exact List.not_mem_nil
  | cons other rest ih =>
      rw [List.foldlM_cons, Option.bind_eq_bind, Option.bind_eq_some_iff] at reads
      rcases reads with ⟨middle, goesOn, reads⟩
      rw [List.mem_cons, not_or]
      refine ⟨?_, ih reads⟩
      rintro rfl
      rw [stops] at goesOn
      cases goesOn

theorem newline_not_mem_number {literal : Bytes} (isNumber : IsNumber literal) :
    0x0a ∉ literal := by
  have stops : ∀ state : NumberState, state.next 0x0a = none := by
    intro state
    cases state <;> decide
  rcases isNumber with ⟨last, reads, _⟩
  cases literal with
  | nil => exact List.not_mem_nil
  | cons byte rest =>
      rcases Option.bind_eq_some_iff.mp reads with ⟨first, starts, reads⟩
      rw [List.mem_cons, not_or]
      refine ⟨?_, not_mem_of_foldlM stops reads⟩
      rintro rfl
      cases starts

theorem newline_not_mem_inner {inner : Bytes} (isInner : IsInner inner) : 0x0a ∉ inner := by
  have stops : ∀ state : StringState, state.next (byteChar 0x0a) = none := by
    intro state
    cases state <;> rfl
  let next (state : StringState) (byte : UInt8) := state.next (byteChar byte)
  exact @not_mem_of_foldlM _ _ next _ stops _ _ _ isInner

theorem newline_not_mem_items {items : List Doc} (none : ∀ item ∈ items, 0x0a ∉ item.print) :
    0x0a ∉ printItems items := by
  induction items with
  | nil => exact List.not_mem_nil
  | cons item rest ih =>
      rw [List.forall_mem_cons] at none
      have later := ih none.2
      cases rest with
      | nil => exact none.1
      | cons => simpa [printItems] using And.intro none.1 later

theorem newline_not_mem_members {members : List (Bytes × Doc)}
    (none : ∀ member ∈ members, 0x0a ∉ member.1 ∧ 0x0a ∉ member.2.print) :
    0x0a ∉ printMembers members := by
  induction members with
  | nil => exact List.not_mem_nil
  | cons member rest ih =>
      rw [List.forall_mem_cons] at none
      have later := ih none.2
      cases rest with
      | nil => simpa [printMembers] using none.1
      | cons => simpa [printMembers, and_assoc] using And.intro none.1 later

/-- A document is written in one line. -/
theorem newline_not_mem_print (readable : Readable room doc) : 0x0a ∉ doc.print := by
  induction readable with
  | null => decide
  | bool _ value => cases value <;> decide
  | number _ isNumber => exact newline_not_mem_number isNumber
  | string _ isInner => simpa [Doc.print] using newline_not_mem_inner isInner
  | array _ ih => simpa [Doc.print] using newline_not_mem_items ih
  | object keys _ ih =>
      have none := newline_not_mem_members fun member inside =>
        ⟨newline_not_mem_inner (keys member inside), ih member inside⟩
      simpa [Doc.print] using none

end Newlines

end MikroLLM.Go
