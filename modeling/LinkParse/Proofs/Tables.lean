import LinkParse.Proofs.Verdict

/-!
# Domain tables

Every look-up of a domain table answers for itself, some from the domains
and some from the arcs. On a labeled linkage the answers fit together
(`Linkage.domainTable_isConsistent`): a domain is found under the number of
its opening link, a link under every domain that it is a member of, and a
word under every link that touches it.

Members are looked for by halving their list, which finds what is there
because members ascend (`bisect_iff`). `DomainTable.rows` fills the look-ups
of all words and links by a few loops, with the same result
(`linksAt_rows`, `startedBy_rows`, `domainsOf_rows`): a link has two
different words, opens at most one domain and stands once among the members.
-/

namespace LinkParse

namespace Domain

/-! ## Members by halving -/

/-- In an ascending list what is less than the pivot stands before it. -/
theorem mem_take_iff_lt_pivot {members : List Nat} (h : members.Pairwise (· < ·)) {link half : Nat}
    (hhalf : half < members.length) :
    link ∈ members.take half ↔ link ∈ members ∧ link < members.getD half 0 := by
  have hpivot : members[half]? = some (members.getD half 0) := by
    rw [List.getD_eq_getElem?_getD, List.getElem?_eq_getElem hhalf, Option.getD_some]
  exact mem_take_iff_of_pairwise (fun _ _ => Nat.lt_asymm) h hpivot

/-- Halving an ascending list comes down on the link if it is there. -/
theorem bisect_iff {link : Nat} {members : List Nat} (h : members.Pairwise (· < ·)) :
    bisect link members = true ↔ link ∈ members := by
  fun_induction bisect link members with
  | case1 => simp
  | case2 m => rw [beq_iff_eq, List.mem_singleton, eq_comm]
  | case3 a b rest members half hlt ih =>
      have hhalf : half < members.length := Nat.div_lt_self (Nat.succ_pos _) Nat.one_lt_two
      rw [ih (h.sublist (List.take_sublist ..))]
      refine ⟨List.mem_of_mem_take, fun hmem => ?_⟩
      have hbefore := (mem_take_iff_lt_pivot h hhalf).mpr ⟨hmem, hlt⟩
      exact List.take_subset_take_left _ (by omega) hbefore
  | case4 a b rest members half hle ih =>
      have hhalf : half < members.length := Nat.div_lt_self (Nat.succ_pos _) Nat.one_lt_two
      rw [ih (h.sublist (List.drop_sublist ..))]
      refine ⟨List.mem_of_mem_drop, fun hmem => ?_⟩
      have hsplit : link ∈ members.take half ++ members.drop half :=
        (List.take_append_drop half members).symm ▸ hmem
      rcases List.mem_append.mp hsplit with hbefore | hbehind
      · exact absurd ((mem_take_iff_lt_pivot h hhalf).mp hbefore).2 hle
      · exact hbehind

end Domain

/-! ## Look-ups in both directions -/

/-- What the look-ups of a linkage's domain table say about its links, its
domains and each other. -/
structure DomainTable.IsConsistent (rules : RuleSet) (k : Linkage) (t : DomainTable) : Prop where
  /-- Domains stand in the order of their opening links. -/
  ascending : t.domains.Pairwise fun x y => toLex (x.start, x.starter) < toLex (y.start, y.starter)
  startedBy?_eq_some_iff : ∀ i n, t.startedBy? i = some n ↔
    ∃ x, t.domains[n]? = some x ∧ x.starter = i
  /-- A link opens a domain exactly if a starter accepts its label. -/
  isSome_startedBy?_iff : ∀ i l a, k.links[i]? = some l → l.label = some a →
    ((t.startedBy? i).isSome = true ↔ ∃ s, rules.starterFor? a.text = some s)
  /-- The first starter that accepts the label gives the domain its kind. -/
  kind_eq : ∀ x ∈ t.domains, ∃ l a s, k.links[x.starter]? = some l ∧ l.label = some a ∧
    rules.starterFor? a.text = some s ∧ x.kind = s.domain
  domainsOf_ascending : ∀ i, (t.domainsOf i).Pairwise (· < ·)
  mem_domainsOf_iff : ∀ i n, n ∈ t.domainsOf i ↔ ∃ x, t.domains[n]? = some x ∧ i ∈ x.members
  contains_iff : ∀ x ∈ t.domains, ∀ i, x.contains i = true ↔ i ∈ x.members
  members_lt : ∀ x ∈ t.domains, ∀ i ∈ x.members, i < k.size
  starter_mem : ∀ x ∈ t.domains, x.starter ∈ x.members
  /-- A domain spans words of the sentence, from the left word of its opening
  link to the right word or beyond. -/
  span : ∀ x ∈ t.domains, ∃ l, k.links[x.starter]? = some l ∧ x.start = l.left ∧
    l.left < l.right ∧ l.right ≤ x.last ∧ x.last < k.words
  linksAt_ascending : ∀ w, (t.linksAt w).Pairwise (· < ·)
  mem_linksAt_iff : ∀ w i, i ∈ t.linksAt w ↔
    ∃ l, k.links[i]? = some l ∧ (l.left = w ∨ l.right = w)
  /-- The tables that are filled in a few passes hold the same answers. -/
  linksAt_rows : t.rows.linksAt = (List.range k.words).map t.linksAt
  startedBy_rows : t.rows.startedBy = (List.range k.size).map t.startedBy?
  domainsOf_rows : t.rows.domainsOf = (List.range k.size).map t.domainsOf

namespace Diagram

variable {d : Diagram} {starters : List Starter} {x : Domain}

theorem HasDomain.contains_iff (h : d.HasDomain starters x) {i : Nat} :
    x.contains i = true ↔ i ∈ x.members :=
  Domain.bisect_iff h.ascending

theorem HasDomain.starter_mem (h : d.HasDomain starters x) : x.starter ∈ x.members := by
  obtain ⟨i, opening, s, hi, -, hx⟩ := h
  rw [hx.starter_eq, hx.mem_members]
  exact ⟨opening, hi, .inl rfl⟩

theorem HasDomain.last_lt (h : d.HasDomain starters x) : x.last < d.words := by
  obtain ⟨a, ha, hends⟩ := h.isLinked_last
  have hright := d.right_lt_words a ha
  have hlt := a.left_lt_right
  omega

end Diagram

namespace DomainTable

variable {rules : RuleSet} {d : Diagram}

theorem mem_domainsOf_iff {t : DomainTable} {i n : Nat} :
    n ∈ t.domainsOf i ↔ ∃ x, t.domains[n]? = some x ∧ i ∈ x.members := by
  unfold domainsOf
  simp only [mem_positions_iff, List.contains_iff_mem]

/-- A link opens a domain exactly if a starter accepts its label. -/
theorem isSome_startedBy?_iff {i : Nat} {a : Arc} (ha : d.arcs[i]? = some a) :
    ((ofDiagram rules d).startedBy? i).isSome = true ↔ ∃ s, rules.starterFor? a.label = some s := by
  rw [Option.isSome_iff_exists]
  simp only [startedBy?_eq_some_iff]
  constructor
  · rintro ⟨n, x, hx, rfl⟩
    obtain ⟨j, opening, s, hj, hs, hopened⟩ := mem_domains.mp (List.mem_of_getElem? hx)
    rw [hopened.starter_eq, hj] at ha
    exact ⟨s, Option.some.inj ha ▸ hs⟩
  · rintro ⟨s, hs⟩
    have hopened := Domain.isOpenedBy_openedBy ha s
    obtain ⟨n, hn⟩ := List.mem_iff_getElem?.mp (mem_domains.mpr ⟨i, a, s, ha, hs, hopened⟩)
    exact ⟨n, _, hn, hopened.starter_eq⟩

/-! ## All look-ups at once -/

/-- Filled entry by entry, each row ends up with the values of its own
entries. -/
theorem fillRows_eq (count : Nat) (entries : List (Nat × Nat)) : fillRows count entries =
    (List.range count).map fun row => (entries.filter (·.1 == row)).map (·.2) := by
  unfold fillRows
  induction entries using List.reverseRecOn with
  | nil => simp
  | append_singleton entries entry ih =>
      rw [List.foldl_concat, ih]
      refine List.ext_getElem (by simp) fun row _ _ => ?_
      simp only [List.getElem_modify, List.getElem_map, List.getElem_range, List.filter_append,
        List.map_append]
      by_cases h : entry.1 = row <;> simp [h]

/-- Where each element of a list puts its own position into a row at most
once, the rows hold the positions that qualify for them. -/
theorem fillRows_flatMap {α : Type} {xs : List α} {f : α × Nat → List (Nat × Nat)}
    {p : Nat → α × Nat → Bool} (count : Nat)
    (h : ∀ row, ∀ x ∈ xs.zipIdx,
      ((f x).filter (·.1 == row)).map (·.2) = if p row x then [x.2] else []) :
    fillRows count (xs.zipIdx.flatMap f) =
      (List.range count).map fun row => (xs.zipIdx.filter (p row)).map (·.2) := by
  rw [fillRows_eq]
  refine List.map_congr_left fun row _ => ?_
  rw [List.filter_flatMap, List.map_flatMap, flatMap_eq_map_filter (h row)]

/-- Where no two domains have one opening link, the last number noted for a
link is that of the first domain with this opening link. -/
theorem foldl_set_starter {domains : List Domain} (h : (domains.map Domain.starter).Nodup)
    (count : Nat) : domains.zipIdx.foldl (fun row (x, n) => row.set x.starter (some n))
      (List.replicate count none)
    = (List.range count).map fun link => domains.findIdx? (·.starter == link) := by
  induction domains using List.reverseRecOn with
  | nil => simp
  | append_singleton domains x ih =>
      rw [List.map_append, List.nodup_append] at h
      obtain ⟨hnodup, -, hfresh⟩ := h
      rw [List.zipIdx_append, List.zipIdx_singleton, List.foldl_concat, ih hnodup]
      refine List.ext_getElem (by simp) fun link _ _ => ?_
      simp only [List.getElem_set, List.getElem_map, List.getElem_range, List.findIdx?_append]
      by_cases hx : x.starter = link
      · have hnone : domains.findIdx? (·.starter == link) = none := by
          rw [List.findIdx?_eq_none_iff]
          intro y hy
          have hne := hfresh _ (List.mem_map_of_mem hy) _ (List.mem_singleton_self _)
          exact beq_false_of_ne (hx ▸ hne)
        simp [hx, hnone]
      · simp [hx]

/-- No two domains have one opening link. -/
theorem nodup_starters : ((ofDiagram rules d).domains.map Domain.starter).Nodup := by
  have hnodup : (ofDiagram rules d).domains.Nodup :=
    (pairwise_domains rules d).imp fun hlt heq => (heq ▸ hlt).false
  rw [List.nodup_map_iff_inj_on hnodup]
  intro x hx y hy h
  exact (mem_domains.mp hx).eq_of_starter_eq (mem_domains.mp hy) h

theorem startedBy_rows : (ofDiagram rules d).rows.startedBy
    = (List.range d.arcs.length).map (ofDiagram rules d).startedBy? :=
  foldl_set_starter nodup_starters _

theorem domainsOf_rows : (ofDiagram rules d).rows.domainsOf
    = (List.range d.arcs.length).map (ofDiagram rules d).domainsOf := by
  refine fillRows_flatMap _ fun link (x, n) hx => ?_
  have hmem := List.mem_of_getElem? (List.mk_mem_zipIdx_iff_getElem?.mp hx)
  -- No member stands twice among the members, so no number is noted twice.
  have hnodup : x.members.Nodup := (mem_domains.mp hmem).ascending.imp Nat.ne_of_lt
  have hnoted : ((x.members.map (·, n)).filter (·.1 == link)).map (·.2)
      = List.replicate (x.members.count link) n := by
    have hsame : (fun m : Nat × Nat => m.1 == link) ∘ (·, n) = (· == link) := rfl
    rw [List.filter_map, List.map_map, hsame, List.filter_beq, List.map_replicate]
    rfl
  by_cases hlink : link ∈ x.members
  · rw [hnoted, List.count_eq_one_of_mem hnodup hlink, if_pos (List.contains_iff_mem.mpr hlink)]
    rfl
  · rw [hnoted, List.count_eq_zero_of_not_mem hlink,
      if_neg fun h => hlink (List.contains_iff_mem.mp h)]
    rfl

theorem linksAt_rows (t : DomainTable) :
    t.rows.linksAt = (List.range t.diagram.words).map t.linksAt := by
  refine fillRows_flatMap _ fun word (a, i) _ => ?_
  have hne : a.left ≠ a.right := a.left_lt_right.ne
  unfold Arc.touches
  by_cases hleft : a.left = word <;> by_cases hright : a.right = word <;> simp_all

end DomainTable

namespace Linkage

variable {k : Linkage}

/-- The arc of a link with a label is that of the label's text. -/
theorem label_arc {l : Link} {a : Label} (h : l.label = some a) : l.arc.label = a.text := by
  unfold Link.arc
  rw [h]
  rfl

theorem exists_label (h : k.isLabeled = true) {i : Nat} {l : Link} (hl : k.links[i]? = some l) :
    ∃ a, l.label = some a :=
  Option.isSome_iff_exists.mp (List.all_eq_true.mp h l (List.mem_of_getElem? hl))

theorem isConsistent_ofDiagram (h : k.isLabeled = true) (rules : RuleSet) :
    (DomainTable.ofDiagram rules k.diagram).IsConsistent rules k where
  ascending := DomainTable.pairwise_domains rules k.diagram
  startedBy?_eq_some_iff _ _ := DomainTable.startedBy?_eq_some_iff
  isSome_startedBy?_iff i l a hl ha := by
    rw [DomainTable.isSome_startedBy?_iff (getElem?_arcs_diagram.mpr ⟨l, hl, rfl⟩), label_arc ha]
  kind_eq x hx := by
    obtain ⟨i, opening, s, hi, hs, hopened⟩ := DomainTable.mem_domains.mp hx
    obtain ⟨l, hl, rfl⟩ := getElem?_arcs_diagram.mp hi
    obtain ⟨a, ha⟩ := exists_label h hl
    rw [label_arc ha] at hs
    exact ⟨l, a, s, hopened.starter_eq ▸ hl, ha, hs, hopened.kind_eq⟩
  domainsOf_ascending _ := pairwise_positions _ _
  mem_domainsOf_iff _ _ := DomainTable.mem_domainsOf_iff
  contains_iff x hx i := (DomainTable.mem_domains.mp hx).contains_iff
  members_lt x hx i hi := by
    obtain ⟨a, ha⟩ := (DomainTable.mem_domains.mp hx).getElem?_of_mem hi
    rw [← length_arcs_diagram]
    exact (List.getElem?_eq_some_iff.mp ha).1
  starter_mem x hx := (DomainTable.mem_domains.mp hx).starter_mem
  span x hx := by
    have hlast := (DomainTable.mem_domains.mp hx).last_lt
    obtain ⟨i, opening, s, hi, -, hopened⟩ := DomainTable.mem_domains.mp hx
    obtain ⟨l, hl, rfl⟩ := getElem?_arcs_diagram.mp hi
    exact ⟨l, hopened.starter_eq ▸ hl, hopened.start_eq, l.left_lt_right,
      hopened.last_greatest.2 Domain.reaches_right, hlast⟩
  linksAt_ascending _ := pairwise_positions _ _
  mem_linksAt_iff w i := by
    unfold DomainTable.linksAt
    rw [Diagram.mem_arcsAt]
    constructor
    · rintro ⟨a, ha, htouches⟩
      obtain ⟨l, hl, rfl⟩ := getElem?_arcs_diagram.mp ha
      exact ⟨l, hl, htouches⟩
    · rintro ⟨l, hl, htouches⟩
      exact ⟨l.arc, getElem?_arcs_diagram.mpr ⟨l, hl, rfl⟩, htouches⟩
  linksAt_rows := DomainTable.linksAt_rows _
  startedBy_rows := by rw [DomainTable.startedBy_rows, length_arcs_diagram]
  domainsOf_rows := by rw [DomainTable.domainsOf_rows, length_arcs_diagram]

/-- A labeled linkage has a domain table, whose look-ups fit together. -/
theorem domainTable_isConsistent (h : k.isLabeled = true) (rules : RuleSet) :
    ∃ t, k.domainTable rules = .ok t ∧ t.IsConsistent rules k :=
  ⟨_, domainTable_of_isLabeled h rules, isConsistent_ofDiagram h rules⟩

/-- The second of two crossing clauses is found under the link that opens
it. -/
theorem domainTable_isConsistent_crossing : Sample.crossing.isLabeled = true ∧
    ∃ t x, Sample.crossing.domainTable Sample.clauseChecks = .ok t ∧ t.domains[1]? = some x ∧
      x.starter = 1 ∧ t.startedBy? 1 = some 1 ∧ 1 ∈ t.domainsOf 1 ∧ x.contains 1 = true := by
  refine ⟨Sample.isLabeled_crossing, ?_⟩
  obtain ⟨t, ht, hconsistent⟩ :=
    domainTable_isConsistent Sample.isLabeled_crossing Sample.clauseChecks
  have hsecond : (Sample.crossing.domainTable Sample.clauseChecks).map
      (fun t => t.domains[1]?.map Domain.starter) = .ok (some 1) := by decide +kernel
  rw [ht] at hsecond
  obtain ⟨x, hx, hstarter⟩ := Option.map_eq_some_iff.mp (Except.ok.inj hsecond)
  have hmem : 1 ∈ x.members := hstarter ▸ hconsistent.starter_mem x (List.mem_of_getElem? hx)
  exact ⟨t, x, ht, hx, hstarter, (hconsistent.startedBy?_eq_some_iff 1 1).mpr ⟨x, hx, hstarter⟩,
    (hconsistent.mem_domainsOf_iff 1 1).mpr ⟨x, hx, hmem⟩,
    (hconsistent.contains_iff x (List.mem_of_getElem? hx) 1).mpr hmem⟩

end Linkage

end LinkParse
