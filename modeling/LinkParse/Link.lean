import LinkParse.Connector
import LinkParse.Label

/-!
# Links

A link joins two words of a sentence by a connector on each: the left
word's connector points right and the right word's points left. The label
is absent until a label rule has derived it.
-/

namespace LinkParse

structure Link where
  left : Nat
  right : Nat
  leftConnector : Connector
  rightConnector : Connector
  label : Option Label
  left_lt_right : left < right
  points_right : leftConnector.direction = .right
  points_left : rightConnector.direction = .left
deriving DecidableEq

namespace Link

inductive Fault where
  | notAscending (left right : Nat)
  | leftPointsLeft (connector : Connector) (word : Nat)
  | rightPointsRight (connector : Connector) (word : Nat)
deriving DecidableEq

def Fault.message : Fault → String
  | notAscending left right => s!"link endpoints must satisfy left < right, got ({left}, {right})"
  | leftPointsLeft connector word =>
    s!"connector {connector.text} on left word {word} must point right"
  | rightPointsRight connector word =>
    s!"connector {connector.text} on right word {word} must point left"

/-- A link without a label. Of several faults the order of the words comes
first, then the left connector. -/
def make (left right : Nat) (leftConnector rightConnector : Connector) : Except Fault Link :=
  if left_lt_right : left < right then
    if points_right : leftConnector.direction = .right then
      if points_left : rightConnector.direction = .left then
        .ok { left, right, leftConnector, rightConnector, label := none,
              left_lt_right, points_right, points_left }
      else .error (.rightPointsRight rightConnector right)
    else .error (.leftPointsLeft leftConnector left)
  else .error (.notAscending left right)

def span (l : Link) : Nat := l.right - l.left

def touches (l : Link) (word : Nat) : Bool := l.left == word || l.right == word

/-- The right word seen from the left one, and the left word from any
other. -/
def otherEnd (l : Link) (word : Nat) : Nat := if l.left = word then l.right else l.left

def joinsSameWords (l m : Link) : Bool := l.left == m.left && l.right == m.right

def sameConnectors (l m : Link) : Bool :=
  l.leftConnector == m.leftConnector && l.rightConnector == m.rightConnector

def bare (l : Link) : Link := { l with label := none }

def withLabel (l : Link) (label : Label) : Link := { l with label := some label }

@[simp] theorem bare_withLabel (l : Link) (label : Label) : (l.withLabel label).bare = l.bare := rfl

/-- Equality of labels that may be absent. -/
def sameLabel : Option Label → Option Label → Bool
  | none, none => true
  | some a, some b => a.same b
  | _, _ => false

/-- Equality of links, with labels compared as labels. -/
def same (l m : Link) : Bool := l.bare == m.bare && sameLabel l.label m.label

end Link

end LinkParse
