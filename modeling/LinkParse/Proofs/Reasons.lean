import LinkParse.Proofs.Objection
import Mathlib.Data.List.Find

/-!
# What is objected, and in which words

An objection is about links of the diagram (`lt_of_mem_links`), and its words
are those of these links (`Objection.detail_congr`).

So a table that begins with another one, and has only foreign links and
domains behind it (`DomainTable.IsHeadOf`), objects the same to the first
links, in the same words: whatever a check looks up about such a link, it
finds in the first part. This goes for checks that look at the surroundings
of a link; a check about the linkage as a whole is no such check
(`Check.isLocal`).
-/

namespace LinkParse

/-- The check looks at domains and cycles only, not at the whole linkage. -/
def Check.isLocal : Check → Bool
  | .connected | .minimumLinks _ => false
  | .companion _ _ scope _ => scope == .domain
  | .containment _ _ | .bounded _ | .ordering _ _ _ | .cycle _ => true

namespace Objection

/-- The links that an objection names. -/
def links : Objection → List Nat
  | tooFewLinks _ _ => []
  | crossing inner outer => [inner.starter, outer.starter]
  | leavesDomain link _ => [link]
  | misplaced link _ anchor => [link, anchor]
  | companion link _ place => link :: (place.map Domain.starter).toList
  | noCycle link => [link]
  | disconnected link => [link]

theorem detail_congr {d e : Diagram} :
    ∀ {o : Objection}, (∀ j ∈ o.links, d.describe j = e.describe j) → o.detail d = o.detail e
  | tooFewLinks _ _, _ => rfl
  | crossing inner outer, h => by
      simp only [detail, domainText]
      rw [h inner.starter (by simp [links]), h outer.starter (by simp [links])]
  | leavesDomain link _, h => by
      simp only [detail]
      rw [h link (by simp [links])]
  | misplaced link _ anchor, h => by
      simp only [detail]
      rw [h link (by simp [links]), h anchor (by simp [links])]
  | companion link _ none, h => by
      simp only [detail]
      rw [h link (by simp [links])]
  | companion link _ (some domain), h => by
      simp only [detail, domainText]
      rw [h link (by simp [links]), h domain.starter (by simp [links])]
  | noCycle link, h => by
      simp only [detail]
      rw [h link (by simp [links])]
  | disconnected link, h => by
      simp only [detail]
      rw [h link (by simp [links])]

end Objection

/-! ## Domains of the first and of further links -/

/-- The domain is one of the links below a number. -/
structure Domain.IsBelow (n : Nat) (x : Domain) : Prop where
  starter_lt : x.starter < n
  members_lt : ∀ j ∈ x.members, j < n

/-- The domain has only links from a number on. -/
structure Domain.IsFrom (n : Nat) (x : Domain) : Prop where
  le_starter : n ≤ x.starter
  le_members : ∀ j ∈ x.members, n ≤ j

theorem Diagram.HasDomain.isBelow {d : Diagram} {starters : List Starter} {x : Domain}
    (h : d.HasDomain starters x) : x.IsBelow d.arcs.length := by
  obtain ⟨a, ha, -⟩ := h.getElem?_starter
  refine ⟨(List.getElem?_eq_some_iff.mp ha).1, fun j hj => ?_⟩
  obtain ⟨b, hb⟩ := h.getElem?_of_mem hj
  exact (List.getElem?_eq_some_iff.mp hb).1

namespace DomainTable

/-- The table `u` begins with the table `t`: its first links are those of `t`
and lie on the same cycles, and its first domains are those of `t`, which no
further link belongs to. -/
structure IsHeadOf (t u : DomainTable) : Prop where
  arcs : t.diagram.arcs <+: u.diagram.arcs
  onCycle_eq : ∀ i < t.diagram.arcs.length, u.onCycle i = t.onCycle i
  own : ∀ x ∈ t.domains, x.IsBelow t.diagram.arcs.length
  domains : ∃ more, u.domains = t.domains ++ more ∧ ∀ x ∈ more, x.IsFrom t.diagram.arcs.length

namespace IsHeadOf

variable {t u : DomainTable} {i j : Nat} {a : Arc}

theorem getElem?_arcs (h : t.IsHeadOf u) (hj : j < t.diagram.arcs.length) :
    u.diagram.arcs[j]? = t.diagram.arcs[j]? := by
  rw [List.prefix_iff_getElem?.mp h.arcs j hj, List.getElem?_eq_getElem hj]

theorem label_eq (h : t.IsHeadOf u) (hj : j < t.diagram.arcs.length) :
    u.diagram.label j = t.diagram.label j := by
  unfold Diagram.label
  rw [h.getElem?_arcs hj]

theorem describe_eq (h : t.IsHeadOf u) (hj : j < t.diagram.arcs.length) :
    u.diagram.describe j = t.diagram.describe j := by
  unfold Diagram.describe
  rw [h.getElem?_arcs hj]

/-! ### The same look-ups -/

theorem domainsAround_eq (h : t.IsHeadOf u) (hi : i < t.diagram.arcs.length) :
    u.domainsAround i = t.domainsAround i := by
  obtain ⟨more, hmore, hfrom⟩ := h.domains
  have hnone : more.filter (·.members.contains i) = [] := by
    rw [List.filter_eq_nil_iff]
    intro x hx hcontains
    have hle := (hfrom x hx).le_members i (List.contains_iff_mem.mp hcontains)
    omega
  unfold domainsAround
  rw [hmore, List.filter_append, hnone, List.append_nil]

theorem startedBy?_eq (h : t.IsHeadOf u) (hi : i < t.diagram.arcs.length) :
    u.startedBy? i = t.startedBy? i := by
  obtain ⟨more, hmore, hfrom⟩ := h.domains
  have hnone : more.findIdx? (·.starter == i) = none := by
    rw [List.findIdx?_eq_none_iff]
    intro x hx
    rw [beq_eq_false_iff_ne]
    have hle := (hfrom x hx).le_starter
    omega
  unfold startedBy?
  rw [hmore, List.findIdx?_append, hnone, Option.map_none, Option.or_none]

/-- A domain that a first link opens has the same place, and the same domains
before it. -/
theorem crossing?_eq (h : t.IsHeadOf u) (hi : i < t.diagram.arcs.length) (kind : String)
    (allow : List Pattern) : u.crossing? kind allow i = t.crossing? kind allow i := by
  obtain ⟨more, hmore, -⟩ := h.domains
  unfold crossing?
  rw [h.startedBy?_eq hi]
  cases hstarted : t.startedBy? i with
  | none => rfl
  | some number =>
      have hlt : number < t.domains.length := by
        obtain ⟨hlt, -⟩ := List.findIdx?_eq_some_iff_getElem.mp hstarted
        exact hlt
      have hinner := List.getElem?_eq_getElem hlt
      dsimp only
      rw [hmore, List.getElem?_append_left hlt, hinner, List.take_append_of_le_length hlt.le]
      dsimp only
      congr 1
      refine List.find?_congr fun outer houter => ?_
      have hout := (h.own outer (List.mem_of_mem_take houter)).starter_lt
      have hin := (h.own _ (List.getElem_mem hlt)).starter_lt
      unfold forbidsCrossing
      rw [h.label_eq hout, h.label_eq hin]

theorem misplaced?_eq (h : t.IsHeadOf u) (hi : i < t.diagram.arcs.length) (anchor : Pattern)
    (placement : Placement) :
    u.misplaced? anchor placement a i = t.misplaced? anchor placement a i := by
  unfold misplaced?
  rw [h.domainsAround_eq hi]
  refine findSome?_congr fun x hx => ?_
  congr 1
  refine List.find?_congr fun member hmember => ?_
  rw [h.getElem?_arcs ((h.own x (List.mem_of_mem_filter hx)).members_lt member hmember)]

theorem companion?_eq (h : t.IsHeadOf u) (hi : i < t.diagram.arcs.length)
    (companions : List Pattern) (requirement : Requirement) :
    u.companion? companions .domain requirement i
      = t.companion? companions .domain requirement i := by
  unfold companion?
  rw [h.domainsAround_eq hi]
  dsimp only
  congr 1
  refine List.find?_congr fun x hx => ?_
  congr 1
  unfold hasCompanion
  rw [Bool.eq_iff_iff, List.any_eq_true, List.any_eq_true]
  refine exists_congr fun member => and_congr_right fun hmember => ?_
  rw [h.label_eq ((h.own x (List.mem_of_mem_filter hx)).members_lt member hmember)]

/-- A local check objects the same to a first link in both tables. -/
theorem objection?_eq (h : t.IsHeadOf u) (hi : i < t.diagram.arcs.length) :
    ∀ {check : Check}, check.isLocal = true → u.objection? check a i = t.objection? check a i
  | .containment kind allow, _ => h.crossing?_eq hi kind allow
  | .bounded _, _ => by
      simp only [objection?, leavesDomain?]
      rw [h.domainsAround_eq hi]
  | .ordering _ anchor placement, _ => by
      simp only [objection?]
      rw [h.misplaced?_eq hi]
  | .companion _ _ scope _, hlocal => by
      obtain rfl : scope = .domain := by simpa [Check.isLocal] using hlocal
      simp only [objection?]
      rw [h.companion?_eq hi]
  | .cycle _, _ => by
      simp only [objection?]
      rw [h.onCycle_eq i hi]

end IsHeadOf

/-! ## The links of an objection -/

variable {t u : DomainTable} {i n : Nat} {a : Arc} {o : Objection}

theorem lt_of_crossing? (own : ∀ x ∈ t.domains, x.IsBelow n) {kind : String} {allow : List Pattern}
    (h : t.crossing? kind allow i = some o) : ∀ j ∈ o.links, j < n := by
  unfold crossing? at h
  split at h
  · cases h
  · split at h
    · cases h
    · next number _ inner hinner =>
      obtain ⟨outer, houter, rfl⟩ := Option.map_eq_some_iff.mp h
      have hin := (own inner (List.mem_of_getElem? hinner)).starter_lt
      have hout := (own outer (List.mem_of_mem_take (List.mem_of_find?_eq_some houter))).starter_lt
      intro j hj
      rcases List.mem_cons.mp hj with rfl | hj
      · exact hin
      · exact List.mem_singleton.mp hj ▸ hout

theorem lt_of_misplaced? (own : ∀ x ∈ t.domains, x.IsBelow n) (hi : i < n) {anchor : Pattern}
    {placement : Placement} (h : t.misplaced? anchor placement a i = some o) :
    ∀ j ∈ o.links, j < n := by
  obtain ⟨x, hx, hfound⟩ := List.exists_of_findSome?_eq_some h
  obtain ⟨member, hmember, rfl⟩ := Option.map_eq_some_iff.mp hfound
  have hlt := (own x (List.mem_of_mem_filter hx)).members_lt member
    (List.mem_of_find?_eq_some hmember)
  intro j hj
  rcases List.mem_cons.mp hj with rfl | hj
  · exact hi
  · exact List.mem_singleton.mp hj ▸ hlt

theorem lt_of_companion? (own : ∀ x ∈ t.domains, x.IsBelow n) (hi : i < n)
    {companions : List Pattern} {scope : Scope} {requirement : Requirement}
    (h : t.companion? companions scope requirement i = some o) : ∀ j ∈ o.links, j < n := by
  unfold companion? at h
  intro j hj
  cases scope with
  | linkage =>
      obtain ⟨-, rfl⟩ := Option.ite_some_none_eq_some.mp h
      exact List.mem_singleton.mp hj ▸ hi
  | domain =>
      obtain ⟨x, hx, rfl⟩ := Option.map_eq_some_iff.mp h
      have hlt := (own x (List.mem_of_mem_filter (List.mem_of_find?_eq_some hx))).starter_lt
      rcases List.mem_cons.mp hj with rfl | hj
      · exact hi
      · exact List.mem_singleton.mp hj ▸ hlt

/-- An objection names links of the diagram only. -/
theorem lt_of_mem_links (own : ∀ x ∈ t.domains, x.IsBelow n) (hi : i < n) :
    ∀ {check : Check}, t.objection? check a i = some o → ∀ j ∈ o.links, j < n
  | .containment _ _, h => lt_of_crossing? own h
  | .bounded _, h => by
      obtain ⟨x, -, rfl⟩ := Option.map_eq_some_iff.mp h
      exact fun j hj => List.mem_singleton.mp hj ▸ hi
  | .ordering _ _ _, h => by
      simp only [objection?] at h
      split at h
      · exact lt_of_misplaced? own hi h
      · cases h
  | .companion _ _ _ _, h => by
      simp only [objection?] at h
      split at h
      · exact lt_of_companion? own hi h
      · cases h
  | .cycle _, h => by
      obtain ⟨-, rfl⟩ := Option.ite_some_none_eq_some.mp h
      exact fun j hj => List.mem_singleton.mp hj ▸ hi
  | .connected, h => by
      obtain ⟨-, rfl⟩ := Option.ite_some_none_eq_some.mp h
      exact fun j hj => List.mem_singleton.mp hj ▸ hi
  | .minimumLinks _, h => nomatch h

/-- The violation of a local rule at a first link is the same in both
tables, down to its reason. -/
theorem IsHeadOf.violationAt?_eq (h : t.IsHeadOf u) (hi : i < t.diagram.arcs.length) {rule : Rule}
    (hlocal : rule.check.isLocal = true) : rule.violationAt? u a i = rule.violationAt? t a i := by
  unfold Rule.violationAt?
  rw [h.objection?_eq hi hlocal]
  cases ho : t.objection? rule.check a i with
  | none => rfl
  | some o =>
      have hdetail : o.detail u.diagram = o.detail t.diagram :=
        Objection.detail_congr fun j hj => h.describe_eq (lt_of_mem_links h.own hi ho j hj)
      rw [Option.map_some, Option.map_some]
      unfold Rule.violation
      rw [hdetail]

end DomainTable

end LinkParse
