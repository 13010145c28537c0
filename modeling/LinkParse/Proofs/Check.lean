import LinkParse.Proofs.Domain

/-!
# What checks demand

`Check.Holds` reads a check as a statement about all domains and links of a
diagram at once, and `Check.FailsAt` says which link is to blame where it
does not hold. Neither mentions an order of links or a table.

The two agree: a check about links holds exactly if it fails at no link
(`holds_iff_forall_not_failsAt`). A check about the number of links fails at
none.
-/

namespace LinkParse

/-! ## The words of checks -/

/-- The placement is right for an arc and its anchor, compared by left word
and then by right word. -/
def Placement.Fits : Placement → Arc → Arc → Prop
  | .before, a, anchor => toLex (a.left, a.right) < toLex (anchor.left, anchor.right)
  | .after, a, anchor => toLex (anchor.left, anchor.right) < toLex (a.left, a.right)

/-- The requirement is met, given whether there are companions. -/
def Requirement.Met : Requirement → Prop → Prop
  | .require, found => found
  | .forbid, found => ¬found

/-- The second domain begins inside the first and ends behind it. -/
def Domain.CrossedBy (outer inner : Domain) : Prop :=
  outer.start < inner.start ∧ inner.start < outer.last ∧ outer.last < inner.last

namespace Diagram

/-- The link that opens the domain has a label that one of the patterns
accepts. -/
def OpensAllowed (d : Diagram) (allow : List Pattern) (x : Domain) : Prop :=
  ∃ a, d.arcs[x.starter]? = some a ∧ ∃ p ∈ allow, p.accepts a.label = true

/-- One of the domains is of the kind, and the other is not opened by an
allowed link. -/
def ForbidsCrossing (d : Diagram) (kind : String) (allow : List Pattern) (x y : Domain) : Prop :=
  (x.kind = kind ∧ ¬d.OpensAllowed allow y) ∨ (y.kind = kind ∧ ¬d.OpensAllowed allow x)

/-- Another link than the given one is a companion among some links. -/
def HasCompanion (d : Diagram) (companions : List Pattern) (i : Nat) (among : Nat → Prop) : Prop :=
  ∃ j a, d.arcs[j]? = some a ∧ j ≠ i ∧ among j ∧ ∃ p ∈ companions, p.accepts a.label = true

end Diagram

/-! ## Checks as statements -/

namespace Check

/-- What a check says of a diagram as a whole. -/
def Holds (starters : List Starter) (d : Diagram) : Check → Prop
  | .minimumLinks count => count ≤ d.arcs.length
  | .containment kind allow =>
    ∀ x y, d.HasDomain starters x → d.HasDomain starters y → x.CrossedBy y →
      (x.kind = kind → d.OpensAllowed allow y) ∧ (y.kind = kind → d.OpensAllowed allow x)
  | .bounded kind =>
    ∀ x, d.HasDomain starters x → x.kind = kind →
      ∀ i ∈ x.members, ∀ a, d.arcs[i]? = some a → x.start ≤ a.left
  | .ordering selector anchor placement =>
    ∀ x, d.HasDomain starters x → ∀ i ∈ x.members, ∀ j ∈ x.members, j ≠ i →
      ∀ a b, d.arcs[i]? = some a → d.arcs[j]? = some b → selector.accepts a.label = true →
        anchor.accepts b.label = true → placement.Fits a b
  | .companion selector companions .linkage requirement =>
    ∀ i a, d.arcs[i]? = some a → selector.accepts a.label = true →
      requirement.Met (d.HasCompanion companions i fun _ => True)
  | .companion selector companions .domain requirement =>
    ∀ i a, d.arcs[i]? = some a → selector.accepts a.label = true →
      ∀ x, d.HasDomain starters x → i ∈ x.members →
        requirement.Met (d.HasCompanion companions i (· ∈ x.members))
  | .cycle selector =>
    ∀ i a, d.arcs[i]? = some a → selector.accepts a.label = true →
      Diagram.Connected (d.arcs.eraseIdx i) a.left a.right
  | .connected =>
    ∀ u v, Diagram.IsLinked d.arcs u → Diagram.IsLinked d.arcs v → Diagram.Connected d.arcs u v

/-- The check does not hold, and the link with an index is to blame: it
opens the later one of two domains that must not cross, leaves its domain
to the left, stands on the wrong side of an anchor, lacks or has a
companion, lies on no cycle, or is not connected with the leftmost linked
word. -/
def FailsAt (starters : List Starter) (d : Diagram) (i : Nat) : Check → Prop
  | .minimumLinks _ => False
  | .containment kind allow =>
    ∃ x y, d.HasDomain starters x ∧ d.HasDomain starters y ∧ y.starter = i ∧ x.CrossedBy y ∧
      d.ForbidsCrossing kind allow x y
  | .bounded kind =>
    ∃ x a, d.HasDomain starters x ∧ x.kind = kind ∧ i ∈ x.members ∧ d.arcs[i]? = some a ∧
      a.left < x.start
  | .ordering selector anchor placement =>
    ∃ x j a b, d.HasDomain starters x ∧ i ∈ x.members ∧ j ∈ x.members ∧ j ≠ i ∧
      d.arcs[i]? = some a ∧ d.arcs[j]? = some b ∧ selector.accepts a.label = true ∧
      anchor.accepts b.label = true ∧ ¬placement.Fits a b
  | .companion selector companions .linkage requirement =>
    ∃ a, d.arcs[i]? = some a ∧ selector.accepts a.label = true ∧
      ¬requirement.Met (d.HasCompanion companions i fun _ => True)
  | .companion selector companions .domain requirement =>
    ∃ a x, d.arcs[i]? = some a ∧ selector.accepts a.label = true ∧ d.HasDomain starters x ∧
      i ∈ x.members ∧ ¬requirement.Met (d.HasCompanion companions i (· ∈ x.members))
  | .cycle selector =>
    ∃ a, d.arcs[i]? = some a ∧ selector.accepts a.label = true ∧
      ¬Diagram.Connected (d.arcs.eraseIdx i) a.left a.right
  | .connected =>
    ∃ a first, d.arcs[i]? = some a ∧ IsLeast {w | Diagram.IsLinked d.arcs w} first ∧
      ¬Diagram.Connected d.arcs first a.left ∧ ¬Diagram.Connected d.arcs first a.right

/-! ## Failing at no link -/

variable {starters : List Starter} {d : Diagram}

theorem FailsAt.getElem? {i : Nat} :
    ∀ {check : Check}, check.FailsAt starters d i → ∃ a, d.arcs[i]? = some a
  | .containment _ _, ⟨_, _, _, hy, hstarter, _⟩ => by
      obtain ⟨a, ha, -⟩ := hy.getElem?_starter
      exact ⟨a, hstarter ▸ ha⟩
  | .bounded _, ⟨_, a, _, _, _, ha, _⟩ => ⟨a, ha⟩
  | .ordering _ _ _, ⟨_, _, a, _, _, _, _, _, ha, _⟩ => ⟨a, ha⟩
  | .companion _ _ .linkage _, ⟨a, ha, _⟩ => ⟨a, ha⟩
  | .companion _ _ .domain _, ⟨a, _, ha, _⟩ => ⟨a, ha⟩
  | .cycle _, ⟨a, ha, _⟩ => ⟨a, ha⟩
  | .connected, ⟨a, _, ha, _⟩ => ⟨a, ha⟩

theorem containment_holds_iff {kind : String} {allow : List Pattern} :
    (containment kind allow).Holds starters d
      ↔ ∀ i, ¬(containment kind allow).FailsAt starters d i := by
  constructor
  · rintro hall i ⟨x, y, hx, hy, -, hcross, ⟨hk, hnot⟩ | ⟨hk, hnot⟩⟩
    · exact hnot ((hall x y hx hy hcross).1 hk)
    · exact hnot ((hall x y hx hy hcross).2 hk)
  · intro hnone x y hx hy hcross
    have hallowed : ¬d.ForbidsCrossing kind allow x y := fun hforbids =>
      hnone y.starter ⟨x, y, hx, hy, rfl, hcross, hforbids⟩
    constructor
    · intro hk
      by_contra hnot
      exact hallowed (Or.inl ⟨hk, hnot⟩)
    · intro hk
      by_contra hnot
      exact hallowed (Or.inr ⟨hk, hnot⟩)

theorem bounded_holds_iff {kind : String} :
    (bounded kind).Holds starters d ↔ ∀ i, ¬(bounded kind).FailsAt starters d i := by
  constructor
  · rintro hall i ⟨x, a, hx, hk, hi, ha, hlt⟩
    exact absurd (hall x hx hk i hi a ha) (Nat.not_le.mpr hlt)
  · intro hnone x hx hk i hi a ha
    exact Nat.not_lt.mp fun hlt => hnone i ⟨x, a, hx, hk, hi, ha, hlt⟩

theorem ordering_holds_iff {selector anchor : Pattern} {placement : Placement} :
    (ordering selector anchor placement).Holds starters d
      ↔ ∀ i, ¬(ordering selector anchor placement).FailsAt starters d i := by
  constructor
  · rintro hall i ⟨x, j, a, b, hx, hi, hj, hne, ha, hb, hsel, hanchor, hnot⟩
    exact hnot (hall x hx i hi j hj hne a b ha hb hsel hanchor)
  · intro hnone x hx i hi j hj hne a b ha hb hsel hanchor
    by_contra hnot
    exact hnone i ⟨x, j, a, b, hx, hi, hj, hne, ha, hb, hsel, hanchor, hnot⟩

theorem companion_holds_iff {selector : Pattern} {companions : List Pattern} {scope : Scope}
    {requirement : Requirement} :
    (companion selector companions scope requirement).Holds starters d
      ↔ ∀ i, ¬(companion selector companions scope requirement).FailsAt starters d i := by
  cases scope with
  | linkage =>
      constructor
      · rintro hall i ⟨a, ha, hsel, hnot⟩
        exact hnot (hall i a ha hsel)
      · intro hnone i a ha hsel
        by_contra hnot
        exact hnone i ⟨a, ha, hsel, hnot⟩
  | domain =>
      constructor
      · rintro hall i ⟨a, x, ha, hsel, hx, hi, hnot⟩
        exact hnot (hall i a ha hsel x hx hi)
      · intro hnone i a ha hsel x hx hi
        by_contra hnot
        exact hnone i ⟨a, x, ha, hsel, hx, hi, hnot⟩

theorem cycle_holds_iff {selector : Pattern} :
    (cycle selector).Holds starters d ↔ ∀ i, ¬(cycle selector).FailsAt starters d i := by
  constructor
  · rintro hall i ⟨a, ha, hsel, hnot⟩
    exact hnot (hall i a ha hsel)
  · intro hnone i a ha hsel
    by_contra hnot
    exact hnone i ⟨a, ha, hsel, hnot⟩

/-- If every link is connected with the leftmost linked word, any two linked
words are connected through it. -/
theorem connected_holds_iff :
    connected.Holds starters d ↔ ∀ i, ¬connected.FailsAt starters d i := by
  constructor
  · rintro hall i ⟨a, first, ha, hfirst, hnot, -⟩
    exact hnot (hall first a.left hfirst.1 ⟨a, List.mem_of_getElem? ha, Or.inl rfl⟩)
  · intro hnone u v hu hv
    obtain ⟨first, hfirst⟩ := Diagram.exists_isLeast_isLinked hu
    have hreach : ∀ w, Diagram.IsLinked d.arcs w → Diagram.Connected d.arcs first w := by
      rintro w ⟨a, ha, hw⟩
      obtain ⟨i, hi⟩ := List.mem_iff_getElem?.mp ha
      have hedge := Diagram.connected_of_mem ha
      -- the link's two words are connected or not together
      have hleft : Diagram.Connected d.arcs first a.left := by
        by_contra hnot
        exact hnone i ⟨a, _, hi, hfirst, hnot, fun h => hnot (h.trans hedge.symm)⟩
      rcases hw with rfl | rfl
      · exact hleft
      · exact hleft.trans hedge
    exact (hreach u hu).symm.trans (hreach v hv)

/-- A check about links holds exactly if it fails at no link. -/
theorem holds_iff_forall_not_failsAt : ∀ {check : Check},
    (∀ count, check ≠ .minimumLinks count) →
      (check.Holds starters d ↔ ∀ i, ¬check.FailsAt starters d i)
  | .minimumLinks count, h => absurd rfl (h count)
  | .containment _ _, _ => containment_holds_iff
  | .bounded _, _ => bounded_holds_iff
  | .ordering _ _ _, _ => ordering_holds_iff
  | .companion _ _ _ _, _ => companion_holds_iff
  | .cycle _, _ => cycle_holds_iff
  | .connected, _ => connected_holds_iff

end Check

end LinkParse
