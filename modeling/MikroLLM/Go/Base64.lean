import Mathlib.Data.List.Basic
import MikroLLM.Go.Utf8

/-!
# Package `encoding/base64`

Three bytes are written as four letters. The last one or two bytes are written
as two or three letters, by `RawURLEncoding` without padding. `DecodeString` skips
line ends, and does not look at the bits of the last letter that no byte takes.
-/

namespace MikroLLM.Go

/-- The letter of six bits. -/
def letterOf (bits : ℕ) : UInt8 :=
  if bits < 26 then UInt8.ofNat (0x41 + bits)
  else if bits < 52 then UInt8.ofNat (0x61 + (bits - 26))
  else if bits < 62 then UInt8.ofNat (0x30 + (bits - 52))
  else if bits = 62 then 0x2d
  else 0x5f

/-- The six bits of a letter. -/
def bitsOf (letter : UInt8) : Option ℕ :=
  if 0x41 ≤ letter ∧ letter ≤ 0x5a then some (letter.toNat - 0x41)
  else if 0x61 ≤ letter ∧ letter ≤ 0x7a then some (letter.toNat - 0x61 + 26)
  else if 0x30 ≤ letter ∧ letter ≤ 0x39 then some (letter.toNat - 0x30 + 52)
  else if letter = 0x2d then some 62
  else if letter = 0x5f then some 63
  else none

/-- The bytes as groups of six bits. -/
def groupsOf : Bytes → List ℕ
  | [] => []
  | [a] => [a.toNat / 4, a.toNat % 4 * 16]
  | [a, b] => [a.toNat / 4, a.toNat % 4 * 16 + b.toNat / 16, b.toNat % 16 * 4]
  | a :: b :: c :: rest =>
      a.toNat / 4 :: (a.toNat % 4 * 16 + b.toNat / 16) :: (b.toNat % 16 * 4 + c.toNat / 64) ::
        c.toNat % 64 :: groupsOf rest

/-- The bytes of groups of six bits, none when a single group is left. -/
def bytesOfGroups : List ℕ → Option Bytes
  | [] => some []
  | [_] => none
  | [a, b] => some [UInt8.ofNat (a * 4 + b / 16)]
  | [a, b, c] => some [UInt8.ofNat (a * 4 + b / 16), UInt8.ofNat (b % 16 * 16 + c / 4)]
  | a :: b :: c :: d :: rest =>
      (bytesOfGroups rest).map fun bytes =>
        UInt8.ofNat (a * 4 + b / 16) :: UInt8.ofNat (b % 16 * 16 + c / 4) ::
          UInt8.ofNat (c % 4 * 64 + d) :: bytes

/-- `EncodeToString`. -/
def rawURLEncode (bytes : Bytes) : Bytes :=
  (groupsOf bytes).map letterOf

/-- `DecodeString`. -/
def rawURLDecode (text : Bytes) : Option Bytes :=
  ((text.filter fun letter => letter ≠ 0x0a && letter ≠ 0x0d).mapM bitsOf).bind bytesOfGroups

/-- `DecodeString` of `base64.URLEncoding`, where one or two signs fill up the last four letters. -/
def urlDecode (text : Bytes) : Option Bytes :=
  let letters := text.filter fun letter => letter ≠ 0x0a && letter ≠ 0x0d
  let fill := (letters.reverse.take 2).takeWhile (· = 0x3d)
  if letters.length % 4 = 0 then
    ((letters.take (letters.length - fill.length)).mapM bitsOf).bind bytesOfGroups
  else none

theorem bitsOf_letterOf : ∀ bits < 64, bitsOf (letterOf bits) = some bits := by
  decide

theorem isLetter_letterOf : ∀ bits < 64,
    letterOf bits ≠ 0x0a ∧ letterOf bits ≠ 0x0d ∧ letterOf bits ≠ 0x2e := by
  decide

theorem groupsOf_lt (bytes : Bytes) : ∀ bits ∈ groupsOf bytes, bits < 64 := by
  fun_induction groupsOf bytes with
  | case1 => simp
  | case2 a =>
      have aSmall := a.toNat_lt
      simp only [List.mem_cons, List.not_mem_nil, or_false]
      omega
  | case3 a b =>
      have aSmall := a.toNat_lt
      have bSmall := b.toNat_lt
      simp only [List.mem_cons, List.not_mem_nil, or_false]
      omega
  | case4 a b c rest ih =>
      have aSmall := a.toNat_lt
      have bSmall := b.toNat_lt
      have cSmall := c.toNat_lt
      intro bits inside
      simp only [List.mem_cons] at inside
      rcases inside with rfl | rfl | rfl | rfl | more
      · omega
      · omega
      · omega
      · omega
      · exact ih bits more

theorem ofNat_of_eq (byte : UInt8) {number : ℕ} (same : number = byte.toNat) :
    UInt8.ofNat number = byte := by
  rw [same, UInt8.ofNat_toNat]

theorem bytesOfGroups_groupsOf (bytes : Bytes) : bytesOfGroups (groupsOf bytes) = some bytes := by
  fun_induction groupsOf bytes with
  | case1 => rfl
  | case2 a =>
      rw [bytesOfGroups, ofNat_of_eq a (by omega)]
  | case3 a b =>
      have bSmall := b.toNat_lt
      rw [bytesOfGroups, ofNat_of_eq a (by omega), ofNat_of_eq b (by omega)]
  | case4 a b c rest ih =>
      have bSmall := b.toNat_lt
      have cSmall := c.toNat_lt
      rw [bytesOfGroups, ih, Option.map_some, ofNat_of_eq a (by omega),
        ofNat_of_eq b (by omega), ofNat_of_eq c (by omega)]

/-- What was encoded is decoded. -/
theorem rawURLDecode_encode (bytes : Bytes) : rawURLDecode (rawURLEncode bytes) = some bytes := by
  have noLineEnd : (rawURLEncode bytes).filter
      (fun letter => letter ≠ 0x0a && letter ≠ 0x0d) = rawURLEncode bytes := by
    rw [List.filter_eq_self]
    intro letter inside
    rcases List.mem_map.mp inside with ⟨bits, isGroup, rfl⟩
    rcases isLetter_letterOf bits (groupsOf_lt bytes bits isGroup) with ⟨notFeed, notReturn, _⟩
    simp [notFeed, notReturn]
  have groups : (rawURLEncode bytes).mapM bitsOf = some (groupsOf bytes) := by
    rw [rawURLEncode]
    have small := groupsOf_lt bytes
    generalize groupsOf bytes = groups at small
    induction groups with
    | nil => rfl
    | cons bits rest ih =>
        rw [List.forall_mem_cons] at small
        rw [List.map_cons, List.mapM_cons, bitsOf_letterOf bits small.1, ih small.2]
        rfl
  rw [rawURLDecode, noLineEnd, groups, Option.bind_some, bytesOfGroups_groupsOf]

theorem dot_not_mem_rawURLEncode (bytes : Bytes) : 0x2e ∉ rawURLEncode bytes := by
  intro inside
  rcases List.mem_map.mp inside with ⟨bits, isGroup, isDot⟩
  exact (isLetter_letterOf bits (groupsOf_lt bytes bits isGroup)).2.2 isDot

example : rawURLEncode (bytesOf "\x7b\"v\":2\x7d") = bytesOf "eyJ2IjoyfQ" := by decide

end MikroLLM.Go
