/-!
# Settings text

Settings are read leniently: blanks around a value are dropped and letter case is ignored, both for
ASCII characters only, and a number is a run of decimal digits that fits a machine word.
-/

set_option autoImplicit false

namespace GuardedActions.Ascii

/-- Space, tab, line feed, vertical tab, form feed and carriage return. -/
def isBlank (c : Char) : Bool :=
  c == ' ' || (9 ≤ c.toNat && c.toNat ≤ 13)

/-- Drop the blanks at both ends. -/
def trim (s : String) : String :=
  String.ofList (((s.toList.dropWhile isBlank).reverse.dropWhile isBlank).reverse)

/-- The letters `A` to `Z` in lower case, everything else unchanged. -/
def lower (s : String) : String :=
  s.map fun c => if 'A' ≤ c ∧ c ≤ 'Z' then Char.ofNat (c.toNat + 32) else c

/-- The value of a run of decimal digits. -/
def digitsValue (digits : List Char) : Nat :=
  digits.foldl (fun n c => 10 * n + (c.toNat - '0'.toNat)) 0

/-- One or more decimal digits whose value is below 2^64, and nothing else. -/
def word? (s : String) : Option UInt64 :=
  let digits := s.toList
  if digits ≠ [] ∧ digits.all (fun c => '0' ≤ c ∧ c ≤ '9') ∧ digitsValue digits < UInt64.size then
    some (UInt64.ofNat (digitsValue digits))
  else none

end GuardedActions.Ascii
