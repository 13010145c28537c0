import LinkParse.LabelRule
import LinkParse.Linkage

/-!
# Deriving labels

`Linkage.deriveLabels` gives every link the label that a label rule spells
for its connectors, link by link in the order of the list. Each label is
interned, so links with one text share one entry. The run stops at the
first link whose connectors do not agree: the links before it have their
new labels then, and the others keep what they had.
-/

namespace LinkParse

/-- A link whose connectors do not agree under the label rule. -/
structure Mismatch where
  link : Link
deriving DecidableEq

def Mismatch.message (e : Mismatch) : String :=
  s!"connectors {e.link.leftConnector.text} and {e.link.rightConnector.text} on link " ++
    s!"({e.link.left}, {e.link.right}) do not match"

/-- What a run leaves behind, and where it stopped if it did. -/
structure Labeling where
  table : LabelTable
  linkage : Linkage
  mismatch? : Option Mismatch
deriving DecidableEq

namespace Labeling

/-- The table, the links and the mismatch after a run over links. One buffer
serves all links: it is cleared before the rule appends to it, so nothing of
an earlier label is left in it. -/
def labelLinks (rule : LabelRule) :
    LabelTable → List Link → LabelTable × List Link × Option Mismatch
  | table, [] => (table, [], none)
  | table, l :: ls =>
    if rule.agrees l.leftConnector l.rightConnector then
      let buffer := rule.append l.leftConnector l.rightConnector ""
      let (table, label) := table.intern buffer
      let (table, rest, mismatch?) := labelLinks rule table ls
      (table, l.withLabel label :: rest, mismatch?)
    else (table, l :: ls, some ⟨l⟩)

/-- A run changes labels only. -/
theorem bare_labelLinks (rule : LabelRule) : ∀ (table : LabelTable) (links : List Link),
    (labelLinks rule table links).2.1.map Link.bare = links.map Link.bare
  | _, [] => rfl
  | table, l :: ls => by
    simp only [labelLinks]
    split
    · simp [bare_labelLinks rule _ ls]
    · rfl

end Labeling

def Linkage.deriveLabels (rule : LabelRule) (table : LabelTable) (k : Linkage) : Labeling where
  table := (Labeling.labelLinks rule table k.links).1
  linkage := k.relabel _ (Labeling.bare_labelLinks rule table k.links)
  mismatch? := (Labeling.labelLinks rule table k.links).2.2

end LinkParse
