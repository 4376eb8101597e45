/-!
# Tables of characters

A property of characters is given by its code points, as closed intervals.
-/

namespace ArityScript.Text

def inRanges (ranges : Array (Nat × Nat)) (point : Nat) : Bool :=
  ranges.any (fun (low, high) => low ≤ point && point ≤ high)

end ArityScript.Text
