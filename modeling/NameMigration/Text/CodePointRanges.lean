/-!
Sets of code points, as increasing lists of closed ranges.
-/

namespace NameMigration.Text

abbrev CodePointRanges := List (Nat × Nat)

/-- Whether a code point lies in one of the ranges. The search stops at the first range that starts
behind the code point, since the ranges are increasing. -/
def CodePointRanges.contains : CodePointRanges → Nat → Bool
  | [], _ => false
  | (first, last) :: rest, codePoint =>
      if codePoint < first then false
      else if codePoint ≤ last then true
      else CodePointRanges.contains rest codePoint

end NameMigration.Text
