import LinkParse.Linkage.Labeling
import LinkParse.Score
import LinkParse.Text.Shown
import LinkParse.Verdict

/-!
# Faults

A fault is a promise that the caller of an operation has broken, such as a
link whose connectors do not match. It says nothing about the sentence: a
sentence that is not well formed has a verdict instead.
-/

namespace LinkParse

inductive Fault where
  | link (fault : Link.Fault)
  | linkage (fault : Linkage.Fault)
  | mismatch (mismatch : Mismatch)
  | unlabeledLink (index : Nat)
  | unlabeledLinkage
  | index (fault : IndexFault)
  | cost (fault : Cost.Fault)
  | score (fault : Score.Fault)
  | processorOptions (fault : Options.Fault)
  | fixtureLabel (label : String) (reason : Connector.Malformed)
  | builderConnector (side : Direction) (reason : Connector.Malformed)
deriving DecidableEq

namespace Fault

def sideText : Direction → String
  | .left => "left connector"
  | .right => "right connector"

def message : Fault → String
  | .link fault => fault.message
  | .linkage fault => fault.message
  | .mismatch m => m.message
  | .unlabeledLink i => s!"link {i} has no label; derive labels before analysis"
  | .unlabeledLinkage => "linkage has unlabeled links; derive labels before analysis"
  | .index fault => fault.message
  | .cost fault => fault.message
  | .score fault => fault.message
  | .processorOptions fault =>
    s!"cannot post-process with invalid parse options: Invalid configuration: {fault.message}"
  | .fixtureLabel label reason => s!"invalid fixture label '{label}': {reason.message}"
  | .builderConnector side reason =>
    sideText side ++ ": " ++ Text.record "InvalidConnector" [("text", Text.quoted reason.text),
      ("reason", Text.quoted reason.reason.message)]

end Fault

namespace Linkage

/-- The domains of a linkage, of which every link must have a label. -/
def domainTable (k : Linkage) (rules : RuleSet) : Except LinkParse.Fault DomainTable :=
  match k.diagram? with
  | some d => .ok (DomainTable.ofDiagram rules d)
  | none => .error (.unlabeledLink (k.firstUnlabeled?.getD 0))

/-- The verdict on a linkage, of which every link must have a label. -/
def analyze (k : Linkage) (rules : RuleSet) : Except LinkParse.Fault Verdict :=
  match k.diagram? with
  | some d => .ok (d.analyze rules)
  | none => .error .unlabeledLinkage

end Linkage

end LinkParse
