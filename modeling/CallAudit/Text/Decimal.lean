import CallAudit.Text.Basic

/-!
# Integers that are written out

An integer is written out in decimal notation only if it has at most 4300 digits. The minus of a
negative one does not count. Whatever shows an integer, be it a location, a report or a key of a
mapping, fails with one that is longer.
-/

namespace CallAudit

/-- Why a value is not written out. -/
inductive WriteFault
  /-- An integer has too many digits. -/
  | longInteger
  /-- A value of the given type has no JSON form. -/
  | noJson (type : Text)
  /-- A value of the given type is no name of a JSON field. -/
  | noFieldName (type : Text)
  /-- Containers are nested too deeply. -/
  | tooDeep
deriving DecidableEq

/-- The message for a value that is not written out. -/
def WriteFault.message : WriteFault → Text
  | .longInteger =>
    "Exceeds the limit (4300 digits) for integer string conversion; " ++
      Text.ofString "use sys.set_int_max_str_digits() to increase the limit"
  | .noJson type => "Object of type " ++ type ++ " is not JSON serializable"
  | .noFieldName type => "keys must be str, int, float, bool or None, not " ++ type
  | .tooDeep => "maximum recursion depth exceeded"

namespace Text

/-- The most decimal digits with which an integer is written out. -/
def maxWrittenDigits : Nat := 4300

/-- Whether an integer has too many digits to be written out. -/
def isLong (i : Int) : Bool := maxWrittenDigits < (decimalDigits i.natAbs).length

/-- An integer in decimal notation, unless it is too long. -/
def writeInt (i : Int) : Except WriteFault Text :=
  if isLong i then .error .longInteger else .ok (ofInt i)

end Text

end CallAudit
