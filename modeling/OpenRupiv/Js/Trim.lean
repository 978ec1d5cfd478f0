import OpenRupiv.Js.Text
import Mathlib.Data.List.DropRight

/-!
# White space and letter case

`String.prototype.trim`, and the `i` flag of a regular expression over ASCII.
-/

namespace OpenRupiv.Js

/-- White space and line terminators, as `trim` and `\s` of a regular expression know them. -/
def isWhite (u : UInt16) : Bool :=
  (9 ≤ u && u ≤ 13) || u == 0x20 || u == 0xA0 || u == 0x1680 || (0x2000 ≤ u && u ≤ 0x200A) ||
    u == 0x2028 || u == 0x2029 || u == 0x202F || u == 0x205F || u == 0x3000 || u == 0xFEFF

/-- `s.trim()`. -/
def trim (s : Text) : Text := (s.dropWhile isWhite).rdropWhile isWhite

def lowerUnit (u : UInt16) : UInt16 := if 65 ≤ u && u ≤ 90 then u + 32 else u

end OpenRupiv.Js
