/-!
# Decimal numbers

The value of a run of decimal digits, of any length and with any leading zeros.
-/

namespace Scriptorium

/-- The value of a decimal digit. -/
def digitValue (d : Char) : Nat := d.toNat - '0'.toNat

/-- The value of a run of decimal digits. -/
def digitsValue (digits : List Char) : Nat := digits.foldl (fun n d => 10 * n + digitValue d) 0

end Scriptorium
