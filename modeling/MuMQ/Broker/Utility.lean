import Mathlib.Data.List.TakeWhile

namespace MuMQ

/-- A NUL-terminated string: the bytes in front of its terminator. -/
structure CString where
  bytes : List UInt8
  noNul : 0 ∉ bytes
  deriving DecidableEq

namespace CString

/-- The string a buffer holds when it is read up to its first NUL. -/
def ofBuffer (buffer : List UInt8) : CString where
  bytes := buffer.takeWhile (fun byte => byte != 0)
  noNul := by
    intro member
    have notNul := List.mem_takeWhile_imp member
    simp at notNul

def strlen (string : CString) : Nat := string.bytes.length

theorem strlen_ofBuffer_le (buffer : List UInt8) : (ofBuffer buffer).strlen ≤ buffer.length :=
  (List.takeWhile_sublist _).length_le

/-- `string[index]`; the terminator stands behind the last byte. -/
def charAt (string : CString) (index : Nat) : UInt8 :=
  string.bytes.getD index 0

theorem ext_bytes {left right : CString} (same : left.bytes = right.bytes) :
    left = right := by
  cases left
  cases right
  cases same
  rfl

end CString

/-! The characters topics are made of. -/

abbrev plus : UInt8 := 0x2b
abbrev hash : UInt8 := 0x23
abbrev slash : UInt8 := 0x2f
abbrev dollar : UInt8 := 0x24

/-- `str[0]`, the end of the list standing for the terminator. -/
def firstChar : List UInt8 → UInt8
  | [] => 0
  | byte :: _ => byte

/-- The scan of `pub_topic_valid` from `str` on, after `len` characters. -/
def pubTopicScan (len : Nat) : List UInt8 → Bool
  | [] => !decide (len > 65535)
  | byte :: rest =>
      if byte = 0 then !decide (len > 65535)
      else if byte = plus ∨ byte = hash then false
      else pubTopicScan (len + 1) rest

def pubTopicValid (str : List UInt8) : Bool := pubTopicScan 0 str

/-- The scan of `sub_topic_valid` from `str` on, after `len` characters of which
`c` was the last. -/
def subTopicScan (c : UInt8) (len : Nat) : List UInt8 → Bool
  | [] => !decide (len > 65535)
  | byte :: rest =>
      if byte = 0 then !decide (len > 65535)
      else if byte = plus then
        if (c ≠ 0 ∧ c ≠ slash) ∨ (firstChar rest ≠ 0 ∧ firstChar rest ≠ slash) then
          false
        else subTopicScan byte (len + 1) rest
      else if byte = hash then
        if (c ≠ 0 ∧ c ≠ slash) ∨ firstChar rest ≠ 0 then false
        else subTopicScan byte (len + 1) rest
      else subTopicScan byte (len + 1) rest

def subTopicValid (str : List UInt8) : Bool := subTopicScan 0 0 str

end MuMQ
