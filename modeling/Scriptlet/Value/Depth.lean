import Scriptlet.Value

/-!
# Depth of values

How many levels of tuples and arrays an operation on whole values goes through.
-/

namespace Scriptlet.Value

mutual

/-- The levels that showing the value goes through. -/
def height : Value → Nat
  | tuple vs _ => heightOfAll vs + 1
  | array vs _ => heightOfAll vs + 1
  | _ => 0

def heightOfAll : List Value → Nat
  | [] => 0
  | v :: vs => max (height v) (heightOfAll vs)

end

mutual

/-- The levels that comparing two values goes through. Rows of different lengths
differ at once, and nothing is compared behind the first difference. One and the
same row is not looked into, wherever it stands. -/
def comparedDepth : Value → Value → Nat
  | tuple as m, tuple bs n =>
    if m = n ∨ as.length ≠ bs.length then 1 else comparedDepthOfAll as bs + 1
  | array as m, array bs n =>
    if m = n ∨ as.length ≠ bs.length then 1 else comparedDepthOfAll as bs + 1
  | _, _ => 0

def comparedDepthOfAll : List Value → List Value → Nat
  | a :: as, b :: bs =>
    if isOneRow a b then comparedDepthOfAll as bs
    else
      max (comparedDepth a b)
        (if (compare a b).1 || isOneOdd a b then comparedDepthOfAll as bs else 0)
  | _, _ => 0

end

/-- The levels that looking for `item` among `vs` goes through. -/
def soughtDepth (item : Value) : List Value → Nat
  | [] => 0
  | v :: vs => max (comparedDepth item v) (if (compare item v).1 then 0 else soughtDepth item vs)

end Scriptlet.Value
