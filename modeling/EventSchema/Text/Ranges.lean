/-!
# Ranges of code points

Character classes given by tables of closed ranges.
-/

namespace EventSchema.Text

/-- Whether a code point lies in one of the closed ranges. -/
def inRanges (ranges : Array (Nat × Nat)) (n : Nat) : Bool :=
  ranges.any fun r => r.1 ≤ n && n ≤ r.2

end EventSchema.Text
