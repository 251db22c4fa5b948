import Mathlib.Data.Nat.Notation
import Mathlib.Tactic.Common

/-!
# Strings in memory

A C string is what is in memory before the first `NUL`. `strlen` counts it and `%s` reads
it; `strlcpy` and `snprintf` write as much of a text as there is room for, and a `NUL`
after it.
-/

namespace FileSync.Lib

variable {str mem buf text : List UInt8}

/-- The string at the start of some memory: what `%s` reads. -/
def stringAt (mem : List UInt8) : List UInt8 := mem.takeWhile fun c => c != 0

/-- `strlen`. -/
def strlen (mem : List UInt8) : ℕ := (stringAt mem).length

/-- `strlcpy` and `snprintf` into a buffer of which the whole size is given. -/
def writeString (buf text : List UInt8) : List UInt8 :=
  text.take (buf.length - 1) ++ 0 :: buf.drop ((text.take (buf.length - 1)).length + 1)

theorem stringAt_append (h : 0 ∉ str) (mem : List UInt8) : stringAt (str ++ 0 :: mem) = str := by
  have hstr : ∀ c ∈ str, (c != 0) = true := by
    intro c hc
    rw [bne_iff_ne]
    rintro rfl
    exact h hc
  rw [stringAt, List.takeWhile_append_of_pos hstr]
  simp

theorem strlen_append (h : 0 ∉ str) (mem : List UInt8) : strlen (str ++ 0 :: mem) = str.length := by
  rw [strlen, stringAt_append h]

/-- A text that fits is written as it is. -/
theorem writeString_of_lt (h : text.length < buf.length) :
    writeString buf text = text ++ 0 :: buf.drop (text.length + 1) := by
  rw [writeString, List.take_of_length_le (Nat.le_sub_one_of_lt h)]

end FileSync.Lib
