namespace ApiModel.Text

def commonLength : List Char → List Char → Nat
  | a :: r, b :: s => if a = b then commonLength r s + 1 else 0
  | _, _ => 0

structure Block where
  left : Nat
  right : Nat
  length : Nat

/-- The longest block that starts at the front of the first text, at the least place of the second. -/
def longestFrom (a : List Char) (left : Nat) : (right : Nat) → List Char → Block → Block
  | _, [], best => best
  | right, b :: s, best =>
    let n := commonLength a (b :: s)
    longestFrom a left (right + 1) s (if best.length < n then ⟨left, right, n⟩ else best)

/-- The longest block, of several the one that starts first in the first text, then in the second. -/
def longestBlock (b : List Char) : (left : Nat) → List Char → Block → Block
  | _, [], best => best
  | left, x :: r, best => longestBlock b (left + 1) r (longestFrom (x :: r) left 0 b best)

/-- Characters in matching blocks; `fuel` bounds the depth of the division. -/
def matching : (fuel : Nat) → List Char → List Char → Nat
  | 0, _, _ => 0
  | fuel + 1, a, b =>
    let m := longestBlock b 0 a ⟨0, 0, 0⟩
    if m.length = 0 then 0
    else matching fuel (a.take m.left) (b.take m.right) + m.length +
      matching fuel (a.drop (m.left + m.length)) (b.drop (m.right + m.length))

/-- Two words are alike if at least three fifths of their characters match. -/
def isSimilar (a b : String) : Bool :=
  let total := a.length + b.length
  3 * total ≤ 10 * matching (a.length + 1) a.toList b.toList

end ApiModel.Text
