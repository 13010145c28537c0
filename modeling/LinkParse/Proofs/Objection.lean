import LinkParse.Proofs.Check
import LinkParse.Verdict

/-!
# When the analysis objects

`DomainTable.objection?` looks a check up in the tables at one link. It
objects exactly if the check fails at that link (`isSome_objection?_iff`),
one kind of check after the other. The containment check needs most: it
compares a domain only with those before it in the table, which loses no
pair, since of two domains that cross the one that starts first comes
first.
-/

namespace LinkParse

/-! ## The tests that checks are made of -/

theorem Arc.precedes_iff {a b : Arc} :
    a.precedes b = true ↔ toLex (a.left, a.right) < toLex (b.left, b.right) := by
  rw [Prod.Lex.toLex_lt_toLex]
  simp [Arc.precedes]

theorem Pattern.acceptsAny_iff {ps : List Pattern} {label : String} :
    Pattern.acceptsAny ps label = true ↔ ∃ p ∈ ps, p.accepts label = true :=
  List.any_eq_true

theorem Diagram.label_of_getElem? {d : Diagram} {i : Nat} {a : Arc} (h : d.arcs[i]? = some a) :
    d.label i = a.label := by
  unfold Diagram.label
  rw [h]
  rfl

/-- Of two domains the one that starts first may be the outer one. -/
theorem Domain.crosses_iff {outer inner : Domain} (h : outer.start ≤ inner.start) :
    outer.crosses inner = true ↔ outer.CrossedBy inner := by
  unfold Domain.crosses Domain.CrossedBy
  rw [if_pos h]
  simp only [Bool.and_eq_true, decide_eq_true_eq, and_assoc]

theorem DomainTable.unmet_iff {requirement : Requirement} {found : Bool} {p : Prop}
    (h : found = true ↔ p) : unmet requirement found = true ↔ ¬requirement.Met p := by
  cases requirement with
  | require =>
      rw [show unmet .require found = !found from rfl, Bool.not_eq_true', ← Bool.not_eq_true, h]
      rfl
  | forbid =>
      rw [show unmet .forbid found = found from rfl, h]
      exact Iff.symm Classical.not_not

theorem DomainTable.placedRightly_iff {placement : Placement} {a b : Arc} :
    placedRightly placement a b = true ↔ placement.Fits a b := by
  cases placement with
  | before => exact Arc.precedes_iff
  | after => exact Arc.precedes_iff

namespace DomainTable

variable {rules : RuleSet} {d : Diagram} {a : Arc} {i : Nat}

/-! ## Containment -/

theorem acceptsAny_label_starter {starters : List Starter} {x : Domain}
    (hx : d.HasDomain starters x) {allow : List Pattern} :
    Pattern.acceptsAny allow (d.label x.starter) = true ↔ d.OpensAllowed allow x := by
  obtain ⟨opening, hopening, -⟩ := hx.getElem?_starter
  rw [Diagram.label_of_getElem? hopening, Pattern.acceptsAny_iff]
  constructor
  · intro hp
    exact ⟨opening, hopening, hp⟩
  · rintro ⟨b, hb, hp⟩
    obtain rfl := Option.some.inj (hopening.symm.trans hb)
    exact hp

theorem forbidsCrossing_iff {starters : List Starter} {x y : Domain} (hx : d.HasDomain starters x)
    (hy : d.HasDomain starters y) {kind : String} {allow : List Pattern} :
    forbidsCrossing d kind allow x y = true ↔ d.ForbidsCrossing kind allow x y := by
  unfold forbidsCrossing Diagram.ForbidsCrossing
  rw [Bool.or_eq_true, Bool.and_eq_true, Bool.and_eq_true, beq_iff_eq, beq_iff_eq,
    Bool.not_eq_true', Bool.not_eq_true', ← Bool.not_eq_true, ← Bool.not_eq_true,
    acceptsAny_label_starter hx, acceptsAny_label_starter hy]

/-- The domains before a domain in the table are those whose opening links
come first. -/
theorem mem_take_domains_iff {x y : Domain} {k : Nat}
    (hy : (ofDiagram rules d).domains[k]? = some y) :
    x ∈ (ofDiagram rules d).domains.take k
      ↔ d.HasDomain rules.starters x ∧ toLex (x.start, x.starter) < toLex (y.start, y.starter) := by
  rw [mem_take_iff_of_pairwise (fun _ _ h h' => lt_asymm h h') (pairwise_domains rules d) hy,
    mem_domains]

theorem isSome_crossing?_iff {kind : String} {allow : List Pattern} :
    ((ofDiagram rules d).crossing? kind allow i).isSome = true
      ↔ (Check.containment kind allow).FailsAt rules.starters d i := by
  unfold crossing?
  cases hstarted : (ofDiagram rules d).startedBy? i with
  | none =>
      refine ⟨fun h => by simp at h, ?_⟩
      rintro ⟨x, y, -, hy, hyi, -⟩
      obtain ⟨k, hk⟩ := List.mem_iff_getElem?.mp (mem_domains.mpr hy)
      rw [startedBy?_eq_some_iff.mpr ⟨y, hk, hyi⟩] at hstarted
      cases hstarted
  | some k =>
      obtain ⟨inner, hk, hstarter⟩ := startedBy?_eq_some_iff.mp hstarted
      have hinner := mem_domains.mp (List.mem_of_getElem? hk)
      simp only [hk, Option.isSome_map, List.find?_isSome, Bool.and_eq_true]
      constructor
      · rintro ⟨outer, hmem, hcross, hforbids⟩
        obtain ⟨houter, hlt⟩ := (mem_take_domains_iff hk).mp hmem
        have hle : outer.start ≤ inner.start := Prod.Lex.monotone_fst _ _ hlt.le
        exact ⟨outer, inner, houter, hinner, hstarter, (Domain.crosses_iff hle).mp hcross,
          (forbidsCrossing_iff houter hinner).mp hforbids⟩
      · rintro ⟨x, y, hx, hy, hyi, hcross, hforbids⟩
        obtain rfl := hy.eq_of_starter_eq hinner (hyi.trans hstarter.symm)
        have hbefore : toLex (x.start, x.starter) < toLex (y.start, y.starter) :=
          Prod.Lex.toLex_lt_toLex.mpr (Or.inl hcross.1)
        exact ⟨x, (mem_take_domains_iff hk).mpr ⟨hx, hbefore⟩,
          (Domain.crosses_iff hcross.1.le).mpr hcross, (forbidsCrossing_iff hx hy).mpr hforbids⟩

/-! ## Bounds and order -/

theorem isSome_leavesDomain?_iff (ha : d.arcs[i]? = some a) {kind : String} :
    ((ofDiagram rules d).leavesDomain? kind a i).isSome = true
      ↔ (Check.bounded kind).FailsAt rules.starters d i := by
  unfold leavesDomain?
  rw [Option.isSome_map, List.find?_isSome]
  constructor
  · rintro ⟨x, hmem, hleaves⟩
    obtain ⟨hx, hi⟩ := mem_domainsAround.mp hmem
    rw [Bool.and_eq_true, beq_iff_eq, decide_eq_true_eq] at hleaves
    exact ⟨x, a, hx, hleaves.1, hi, ha, hleaves.2⟩
  · rintro ⟨x, b, hx, hk, hi, hb, hlt⟩
    obtain rfl := Option.some.inj (ha.symm.trans hb)
    refine ⟨x, mem_domainsAround.mpr ⟨hx, hi⟩, ?_⟩
    rw [Bool.and_eq_true, beq_iff_eq, decide_eq_true_eq]
    exact ⟨hk, hlt⟩

theorem isSome_misplaced?_iff (ha : d.arcs[i]? = some a) {selector anchor : Pattern}
    {placement : Placement} (hsel : selector.accepts a.label = true) :
    ((ofDiagram rules d).misplaced? anchor placement a i).isSome = true
      ↔ (Check.ordering selector anchor placement).FailsAt rules.starters d i := by
  unfold misplaced?
  simp only [List.findSome?_isSome_iff, Option.isSome_map, List.find?_isSome]
  constructor
  · rintro ⟨x, hmem, j, hj, hwrong⟩
    obtain ⟨hx, hi⟩ := mem_domainsAround.mp hmem
    obtain ⟨b, hb⟩ := hx.getElem?_of_mem hj
    rw [show (ofDiagram rules d).diagram.arcs[j]? = some b from hb] at hwrong
    simp only [Bool.and_eq_true, bne_iff_ne, Bool.not_eq_true', ← Bool.not_eq_true,
      placedRightly_iff] at hwrong
    obtain ⟨⟨hne, hanchor⟩, hnot⟩ := hwrong
    exact ⟨x, j, a, b, hx, hi, hj, hne, ha, hb, hsel, hanchor, hnot⟩
  · rintro ⟨x, j, b, c, hx, hi, hj, hne, hb, hc, -, hanchor, hnot⟩
    obtain rfl := Option.some.inj (ha.symm.trans hb)
    refine ⟨x, mem_domainsAround.mpr ⟨hx, hi⟩, j, hj, ?_⟩
    rw [show (ofDiagram rules d).diagram.arcs[j]? = some c from hc]
    simp only [Bool.and_eq_true, bne_iff_ne, Bool.not_eq_true', ← Bool.not_eq_true,
      placedRightly_iff]
    exact ⟨⟨hne, hanchor⟩, hnot⟩

/-! ## Companions -/

theorem hasCompanion_iff {companions : List Pattern} {among : List Nat} {p : Nat → Prop}
    (hamong : ∀ j b, d.arcs[j]? = some b → (j ∈ among ↔ p j))
    (hlinks : ∀ j ∈ among, ∃ b, d.arcs[j]? = some b) :
    hasCompanion d companions i among = true ↔ d.HasCompanion companions i p := by
  unfold hasCompanion
  simp only [List.any_eq_true, Bool.and_eq_true, bne_iff_ne, Pattern.acceptsAny_iff]
  constructor
  · rintro ⟨j, hj, hne, hcompanion⟩
    obtain ⟨b, hb⟩ := hlinks j hj
    rw [Diagram.label_of_getElem? hb] at hcompanion
    exact ⟨j, b, hb, hne, (hamong j b hb).mp hj, hcompanion⟩
  · rintro ⟨j, b, hb, hne, hj, hcompanion⟩
    refine ⟨j, (hamong j b hb).mpr hj, hne, ?_⟩
    rw [Diagram.label_of_getElem? hb]
    exact hcompanion

theorem hasCompanion_range_iff {companions : List Pattern} :
    hasCompanion d companions i (List.range d.arcs.length) = true
      ↔ d.HasCompanion companions i fun _ => True := by
  refine hasCompanion_iff (fun j b hb => ?_) fun j hj => ?_
  · obtain ⟨hlt, -⟩ := List.getElem?_eq_some_iff.mp hb
    exact iff_of_true (List.mem_range.mpr hlt) trivial
  · exact ⟨_, List.getElem?_eq_getElem (List.mem_range.mp hj)⟩

theorem hasCompanion_members_iff {starters : List Starter} {x : Domain}
    (hx : d.HasDomain starters x) {companions : List Pattern} :
    hasCompanion d companions i x.members = true ↔ d.HasCompanion companions i (· ∈ x.members) :=
  hasCompanion_iff (fun _ _ _ => Iff.rfl) fun _ hj => hx.getElem?_of_mem hj

theorem isSome_companion?_iff (ha : d.arcs[i]? = some a) {selector : Pattern}
    {companions : List Pattern} {scope : Scope} {requirement : Requirement}
    (hsel : selector.accepts a.label = true) :
    ((ofDiagram rules d).companion? companions scope requirement i).isSome = true
      ↔ (Check.companion selector companions scope requirement).FailsAt rules.starters d i := by
  cases scope with
  | linkage =>
      have hunmet :
          unmet requirement (hasCompanion d companions i (List.range d.arcs.length)) = true ↔ _ :=
        unmet_iff hasCompanion_range_iff
      rw [show (ofDiagram rules d).companion? companions .linkage requirement i
        = if unmet requirement (hasCompanion d companions i (List.range d.arcs.length)) then
            some (.companion i requirement none) else none from rfl, Option.isSome_ite, hunmet]
      constructor
      · intro hnot
        exact ⟨a, ha, hsel, hnot⟩
      · rintro ⟨b, -, -, hnot⟩
        exact hnot
  | domain =>
      rw [show (ofDiagram rules d).companion? companions .domain requirement i
        = (((ofDiagram rules d).domainsAround i).find? fun x =>
            unmet requirement (hasCompanion d companions i x.members)).map
              fun x => .companion i requirement (some x) from rfl,
        Option.isSome_map, List.find?_isSome]
      constructor
      · rintro ⟨x, hmem, hunmet⟩
        obtain ⟨hx, hi⟩ := mem_domainsAround.mp hmem
        exact ⟨a, x, ha, hsel, hx, hi, (unmet_iff (hasCompanion_members_iff hx)).mp hunmet⟩
      · rintro ⟨b, x, -, -, hx, hi, hnot⟩
        exact ⟨x, mem_domainsAround.mpr ⟨hx, hi⟩,
          (unmet_iff (hasCompanion_members_iff hx)).mpr hnot⟩

/-! ## Cycles and components -/

theorem onCycle_iff (ha : d.arcs[i]? = some a) : (ofDiagram rules d).onCycle i = true
    ↔ Diagram.Connected (d.arcs.eraseIdx i) a.left a.right := by
  have hleft := Diagram.left_lt_words (List.mem_of_getElem? ha)
  unfold onCycle
  rw [show (ofDiagram rules d).diagram.arcs[i]? = some a from ha]
  exact List.contains_iff_mem.trans
    (Diagram.mem_reached_neighboursBy (d.right_lt_words_eraseIdx i) hleft)

/-- Linked words have one component number exactly if they are connected. -/
theorem componentOf?_eq_iff {u v : Nat} (hu : Diagram.IsLinked d.arcs u) :
    (ofDiagram rules d).componentOf? u = (ofDiagram rules d).componentOf? v
      ↔ Diagram.Connected d.arcs u v := by
  rw [← Diagram.leads_neighboursBy]
  exact Search.findIdx?_groups_eq_iff (Diagram.lt_of_mem_neighboursBy d.right_lt_words)
    (Diagram.mem_neighboursBy_symm d.arcs) (Diagram.neighboursBy_ne_nil_iff.mpr hu)

end DomainTable

/-- The first link in canonical order begins at the leftmost linked word. -/
theorem Diagram.isLeast_of_head?_canonical {d : Diagram} {b : Arc} {j : Nat}
    (h : d.canonical.head? = some (b, j)) : IsLeast {w | IsLinked d.arcs w} b.left := by
  obtain ⟨rest, hrest⟩ := List.head?_eq_some_iff.mp h
  have hmem : (b, j) ∈ d.canonical := by
    rw [hrest]
    exact List.mem_cons_self ..
  refine ⟨⟨b, List.mem_of_getElem? (mem_canonical.mp hmem), Or.inl rfl⟩, ?_⟩
  rintro w ⟨a, ha, hw⟩
  obtain ⟨i, hi⟩ := List.mem_iff_getElem?.mp ha
  have hle : b.left ≤ a.left := by
    have hpair := d.pairwise_canonical
    rw [hrest, List.pairwise_cons] at hpair
    rcases List.mem_cons.mp (hrest ▸ mem_canonical.mpr hi) with heq | htail
    · rw [(Prod.mk.inj heq).1]
    · exact Prod.Lex.monotone_fst _ _ (hpair.1 (a, i) htail).le
  have hlt := a.left_lt_right
  omega

namespace DomainTable

variable {rules : RuleSet} {d : Diagram} {a : Arc} {i : Nat}

theorem componentOf?_ne_firstComponent?_iff (ha : d.arcs[i]? = some a) :
    ((ofDiagram rules d).componentOf? a.left != (ofDiagram rules d).firstComponent?) = true
      ↔ Check.connected.FailsAt rules.starters d i := by
  have hmem := List.mem_of_getElem? ha
  obtain ⟨⟨b, j⟩, hhead⟩ : ∃ x, d.canonical.head? = some x := by
    rw [← Option.isSome_iff_exists, List.isSome_head?]
    exact List.ne_nil_of_mem (Diagram.mem_canonical.mpr ha)
  have hleast := Diagram.isLeast_of_head?_canonical hhead
  have hfirst : (ofDiagram rules d).firstComponent? = (ofDiagram rules d).componentOf? b.left := by
    unfold firstComponent?
    rw [show (ofDiagram rules d).diagram.canonical.head? = some (b, j) from hhead]
    rfl
  rw [bne_iff_ne, hfirst, ne_comm, Ne, componentOf?_eq_iff hleast.1]
  constructor
  · intro hnot
    exact ⟨a, b.left, ha, hleast, hnot,
      fun h => hnot (h.trans (Diagram.connected_of_mem hmem).symm)⟩
  · rintro ⟨c, first, hc, hfirst, hnot, -⟩
    obtain rfl := Option.some.inj (ha.symm.trans hc)
    rwa [hleast.unique hfirst]

/-! ## All checks -/

section Selected

variable {starters : List Starter} {selector : Pattern}

/-- An ordering check fails at selected links only. -/
theorem selected_of_ordering_failsAt {anchor : Pattern} {placement : Placement}
    (ha : d.arcs[i]? = some a)
    (h : (Check.ordering selector anchor placement).FailsAt starters d i) :
    selector.accepts a.label = true := by
  obtain ⟨-, -, b, -, -, -, -, -, hb, -, hsel, -⟩ := h
  obtain rfl := Option.some.inj (ha.symm.trans hb)
  exact hsel

/-- A companion check fails at selected links only. -/
theorem selected_of_companion_failsAt {companions : List Pattern} {requirement : Requirement} :
    ∀ {scope : Scope}, d.arcs[i]? = some a →
      (Check.companion selector companions scope requirement).FailsAt starters d i →
        selector.accepts a.label = true
  | .linkage, ha, ⟨_, hb, hsel, _⟩ => Option.some.inj (ha.symm.trans hb) ▸ hsel
  | .domain, ha, ⟨_, _, hb, hsel, _⟩ => Option.some.inj (ha.symm.trans hb) ▸ hsel

/-- Where a check fails at selected links only, the other links need not be
looked at. -/
theorem isSome_ite_accepts_iff {check : Check} {objection : Option Objection}
    (hselected : selector.accepts a.label = true →
      (objection.isSome = true ↔ check.FailsAt starters d i))
    (honly : check.FailsAt starters d i → selector.accepts a.label = true) :
    (if selector.accepts a.label then objection else none).isSome = true
      ↔ check.FailsAt starters d i := by
  by_cases hsel : selector.accepts a.label = true
  · rw [if_pos hsel]
    exact hselected hsel
  · rw [if_neg hsel]
    refine ⟨fun hnone => ?_, fun hfails => absurd (honly hfails) hsel⟩
    cases hnone

end Selected

/-- The analysis objects to a link exactly if the check fails there. -/
theorem isSome_objection?_iff (ha : d.arcs[i]? = some a) {check : Check} :
    ((ofDiagram rules d).objection? check a i).isSome = true
      ↔ check.FailsAt rules.starters d i := by
  cases check with
  | containment kind allow => exact isSome_crossing?_iff
  | bounded kind => exact isSome_leavesDomain?_iff ha
  | ordering selector anchor placement =>
      exact isSome_ite_accepts_iff (isSome_misplaced?_iff ha) (selected_of_ordering_failsAt ha)
  | companion selector companions scope requirement =>
      exact isSome_ite_accepts_iff (isSome_companion?_iff ha) (selected_of_companion_failsAt ha)
  | cycle selector =>
      simp only [objection?]
      rw [Option.isSome_ite, Bool.and_eq_true, Bool.not_eq_true', ← Bool.not_eq_true,
        onCycle_iff ha]
      constructor
      · rintro ⟨hsel, hnot⟩
        exact ⟨a, ha, hsel, hnot⟩
      · rintro ⟨b, hb, hsel, hnot⟩
        obtain rfl := Option.some.inj (ha.symm.trans hb)
        exact ⟨hsel, hnot⟩
  | connected =>
      simp only [objection?]
      rw [Option.isSome_ite]
      exact componentOf?_ne_firstComponent?_iff ha
  | minimumLinks count => exact ⟨fun h => by simp [objection?] at h, False.elim⟩

end DomainTable

end LinkParse
