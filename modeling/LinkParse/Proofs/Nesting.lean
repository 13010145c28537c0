import LinkParse.Proofs.Construction
import LinkParse.Proofs.Reached

/-!
# How domains lie

A link with full reach reaches, with a word, every word behind its left word
that a link joins with it (`Linkage.mem_reach_of_isJoined`). Two things follow.

A domain whose opening link is a member of another one, and which starts no
earlier, lies inside it: it has no other members and the two do not cross
(`domainTable_nested`). Where domains cross in spite of a containment check,
the inner one was opened from outside.

No member of a domain ends behind it. If none begins before it either, as a
bounded check demands, then the words between which its members lie are the
start and the words reached, and all that joins them with other words passes
the start (`domainTable_bounded`).
-/

namespace LinkParse

/-! ## A sentence to try -/

namespace Sample

/-- The clause of the last link is opened within that of the second one, which
hangs on the first link. -/
def embedded : Linkage :=
  Sentence.labeled? ⟨5, [(0, 1, "Wd"), (1, 4, "Ca"), (2, 4, "Ss"), (2, 3, "Cb")], 0⟩
    |>.get (by decide +kernel)

def outerClause : Domain := ⟨"clause", 1, 1, 4, [1, 2, 3]⟩

def innerClause : Domain := ⟨"clause", 3, 2, 3, [3]⟩

theorem isLabeled_embedded : embedded.isLabeled = true := by decide +kernel

theorem domains_embedded {t : DomainTable} (ht : embedded.domainTable clauseChecks = .ok t) :
    t.domains = [outerClause, innerClause] := by
  have hdomains : (embedded.domainTable clauseChecks).map DomainTable.domains
      = .ok [outerClause, innerClause] := by decide +kernel
  exact Linkage.eq_of_map_domainTable ht hdomains

theorem exists_opensBy_embedded :
    ∃ l s, embedded.OpensBy clauseChecks outerClause.starter l s ∧ s.reach = .full := by
  obtain ⟨l, hopens⟩ := Linkage.exists_opensBy embedded clauseChecks outerClause.starter
    { pattern := clausePattern, domain := "clause" } (by decide +kernel)
  exact ⟨l, _, hopens, rfl⟩

end Sample

/-! ## Crossing -/

namespace Domain

variable {x y : Domain}

theorem crosses_comm : x.crosses y = y.crosses x := by
  rcases Nat.lt_trichotomy x.start y.start with hlt | heq | hlt
  · unfold crosses
    rw [if_pos hlt.le, if_neg hlt.not_ge]
  · have hx := mt (crosses_iff heq.le).mp fun h => h.1.ne heq
    have hy := mt (crosses_iff heq.ge).mp fun h => h.1.ne heq.symm
    rw [Bool.eq_false_of_not_eq_true hx, Bool.eq_false_of_not_eq_true hy]
  · unfold crosses
    rw [if_neg hlt.not_ge, if_pos hlt.le]

/-- The domain has no members but those of another one, which it does not
cross and behind which it does not end. -/
structure IsInside (y x : Domain) : Prop where
  mem_members : ∀ i ∈ y.members, i ∈ x.members
  last_le : y.last ≤ x.last
  not_crossed : x.crosses y = false
  not_crosses : y.crosses x = false

/-- A domain that starts and ends within another does not cross it. -/
theorem crosses_eq_false (hstart : x.start ≤ y.start) (hlast : y.last ≤ x.last) :
    x.crosses y = false :=
  Bool.eq_false_of_not_eq_true fun h => ((crosses_iff hstart).mp h).2.2.not_ge hlast

end Domain

/-- A containment check objects to two domains of the table that cross, the
outer one before the inner one. -/
theorem DomainTable.crossing?_eq_some {t : DomainTable} {kind : String} {allow : List Pattern}
    {i : Nat} {inner outer : Domain} (h : t.crossing? kind allow i = some (.crossing inner outer)) :
    ∃ n, t.domains[n]? = some inner ∧ outer ∈ t.domains.take n ∧ outer.crosses inner = true := by
  unfold crossing? at h
  split at h
  · cases h
  · next n _ =>
    split at h
    · cases h
    · next found hn =>
      obtain ⟨x, hx, heq⟩ := Option.map_eq_some_iff.mp h
      injection heq with hinner houter
      subst hinner houter
      have htest := List.find?_some hx
      rw [Bool.and_eq_true] at htest
      exact ⟨n, hn, List.mem_of_find?_eq_some hx, htest.1⟩

namespace Linkage

variable {k : Linkage} {rules : RuleSet} {i j : Nat} {l m : Link} {s s' : Starter} {x y : Domain}
  {u v w : Nat}

/-! ## What a link reaches -/

theorem right_mem_reach {r : Reach} : l.right ∈ k.reach l r :=
  mem_reach_iff.mpr Domain.reaches_right

/-- Full reach goes on to every word right of the root. -/
theorem mem_reach_of_isJoined (hu : u ∈ k.reach l .full) (hjoined : k.IsJoined u v)
    (hv : l.left < v) : v ∈ k.reach l .full := by
  rw [mem_reach_iff] at *
  exact Relation.ReflTransGen.tail hu ⟨hv, adjacent_diagram_iff.mpr hjoined⟩

/-- A link that starts no earlier, and whose right word is reached, reaches
nothing else: its paths stay right of its own left word. -/
theorem reach_subset (hle : l.left ≤ m.left) (hm : m.right ∈ k.reach l .full) {r : Reach} :
    k.reach m r ⊆ k.reach l .full := by
  intro w hw
  rw [mem_reach_iff] at hw
  cases r with
  | rightWordOnly =>
      obtain rfl : w = m.right := hw
      exact hm
  | full =>
      -- on the path from the right word of `m`, which stays right of both left words
      induction hw with
      | refl => exact hm
      | tail _ hstep ih =>
          exact mem_reach_of_isJoined ih (adjacent_diagram_iff.mp hstep.2)
            (Nat.lt_of_le_of_lt hle hstep.1)

/-- Of a link with a word that is reached, the right word is reached. -/
theorem right_mem_reach_of_mem (hm : m ∈ k.links)
    (h : m.left ∈ k.reach l .full ∨ m.right ∈ k.reach l .full) : m.right ∈ k.reach l .full := by
  rcases h with hleft | hright
  · exact mem_reach_of_isJoined hleft ⟨m, hm, .inl ⟨rfl, rfl⟩⟩
      ((lt_of_mem_reach hleft).trans m.left_lt_right)
  · exact hright

/-! ## Members of a domain -/

namespace IsDomainOf

theorem right_mem_reach (hx : k.IsDomainOf i l s x) (hfull : s.reach = .full)
    (hl : k.links[i]? = some l) (hj : j ∈ x.members) (hm : k.links[j]? = some m) :
    m.right ∈ k.reach l .full := by
  rcases (hx.mem_members_iff j).mp hj with rfl | ⟨n, hn, hends⟩
  · obtain rfl := Option.some.inj (hl.symm.trans hm)
    exact Linkage.right_mem_reach
  · obtain rfl := Option.some.inj (hm.symm.trans hn)
    exact right_mem_reach_of_mem (List.mem_of_getElem? hm) (hfull ▸ hends)

/-- A domain that starts no earlier than one of full reach, and is opened by
a member of it, lies inside it. -/
theorem isInside (hx : k.IsDomainOf i l s x) (hfull : s.reach = .full)
    (hl : k.links[i]? = some l) (hy : k.IsDomainOf j m s' y) (hm : k.links[j]? = some m)
    (hle : x.start ≤ y.start) (hmem : j ∈ x.members) : y.IsInside x := by
  have hsubset : k.reach m s'.reach ⊆ k.reach l s.reach := by
    rw [hfull]
    exact reach_subset (hx.start_eq ▸ hy.start_eq ▸ hle) (hx.right_mem_reach hfull hl hmem hm)
  have hlast : y.last ≤ x.last := hx.last_greatest.2 (hsubset hy.last_greatest.1)
  have hcross := Domain.crosses_eq_false hle hlast
  refine ⟨fun n hn => ?_, hlast, hcross, Domain.crosses_comm.trans hcross⟩
  rcases (hy.mem_members_iff n).mp hn with rfl | ⟨o, ho, hends⟩
  · exact hmem
  · exact (hx.mem_members_iff n).mpr (.inr ⟨o, ho, hends.imp (hsubset ·) (hsubset ·)⟩)

end IsDomainOf

/-! ## Domains within domains -/

/-- The opening link of a domain has a starter with full reach. -/
def OpensInFull (k : Linkage) (rules : RuleSet) (x : Domain) : Prop :=
  ∃ l s, k.OpensBy rules x.starter l s ∧ s.reach = .full

/-- Every domain of a diagram has an opening link with a starter. -/
theorem exists_isDomainOf (h : k.isLabeled = true) (hx : k.diagram.HasDomain rules.starters x) :
    ∃ l s, k.OpensBy rules x.starter l s ∧ k.IsDomainOf x.starter l s x := by
  obtain ⟨i, opening, s, hi, hs, hopened⟩ := id hx
  obtain ⟨l, hl, rfl⟩ := getElem?_arcs_diagram.mp hi
  obtain ⟨a, ha⟩ := exists_label h hl
  rw [label_arc ha] at hs
  have hopens : k.OpensBy rules x.starter l s := ⟨hopened.starter_eq ▸ hl, a, ha, hs⟩
  exact ⟨l, s, hopens, hopens.isDomainOf hx⟩

theorem isInside_of_starter_mem (h : k.isLabeled = true)
    (hx : k.diagram.HasDomain rules.starters x) (hy : k.diagram.HasDomain rules.starters y)
    (hfull : k.OpensInFull rules x) (hle : x.start ≤ y.start) (hmem : y.starter ∈ x.members) :
    y.IsInside x := by
  obtain ⟨l, s, hopens, hfull⟩ := hfull
  obtain ⟨m, s', hopens', hdomain'⟩ := exists_isDomainOf h hy
  exact (hopens.isDomainOf hx).isInside hfull hopens.1 hdomain' hopens'.1 hle hmem

/-- In the domain table of a labeled linkage a domain that starts no earlier
than one of full reach, and is opened by a member of it, lies inside it. Where
a containment check objects to a domain of full reach and a later one, the
later one is opened by no member of it. -/
theorem domainTable_nested (h : k.isLabeled = true) (rules : RuleSet) :
    ∃ t, k.domainTable rules = .ok t ∧
      (∀ x ∈ t.domains, ∀ y ∈ t.domains, k.OpensInFull rules x → x.start ≤ y.start →
        y.starter ∈ x.members → y.IsInside x) ∧
      ∀ kind allow a i inner outer,
        t.objection? (.containment kind allow) a i = some (.crossing inner outer) →
          k.OpensInFull rules outer → inner.starter ∉ outer.members := by
  refine ⟨_, domainTable_of_isLabeled h rules, fun x hx y hy =>
    isInside_of_starter_mem h (DomainTable.mem_domains.mp hx) (DomainTable.mem_domains.mp hy), ?_⟩
  intro kind allow a i inner outer hobjection hfull hmem
  obtain ⟨n, hinner, houter, hcross⟩ := DomainTable.crossing?_eq_some hobjection
  -- the table is ordered by start, and the check compares with what comes before
  obtain ⟨houter, hlt⟩ := (DomainTable.mem_take_domains_iff hinner).mp houter
  have hle : outer.start ≤ inner.start := Prod.Lex.monotone_fst _ _ hlt.le
  have hinner := DomainTable.mem_domains.mp (List.mem_of_getElem? hinner)
  have hinside := isInside_of_starter_mem h houter hinner hfull hle hmem
  rw [hinside.not_crossed] at hcross
  cases hcross

/-- The embedded clause lies inside the other one. -/
theorem domainTable_nested_embedded : Sample.embedded.isLabeled = true ∧
    ∃ t, Sample.embedded.domainTable Sample.clauseChecks = .ok t ∧
      t.domains = [Sample.outerClause, Sample.innerClause] ∧
      Sample.embedded.OpensInFull Sample.clauseChecks Sample.outerClause ∧
      Sample.outerClause.start ≤ Sample.innerClause.start ∧
      Sample.innerClause.starter ∈ Sample.outerClause.members ∧
      Sample.innerClause.IsInside Sample.outerClause := by
  obtain ⟨t, ht, hnested, -⟩ := domainTable_nested Sample.isLabeled_embedded Sample.clauseChecks
  have hdomains := Sample.domains_embedded ht
  have hstart : Sample.outerClause.start ≤ Sample.innerClause.start := by decide
  have hmem : Sample.innerClause.starter ∈ Sample.outerClause.members := by decide
  refine ⟨Sample.isLabeled_embedded, t, ht, hdomains, Sample.exists_opensBy_embedded, hstart,
    hmem, ?_⟩
  exact hnested _ (by simp [hdomains]) _ (by simp [hdomains]) Sample.exists_opensBy_embedded
    hstart hmem

/-! ## Domains with nothing left of them -/

/-- Whatever hangs together with the domain but is no part of it hangs on the
word at its start. The words `reached` are those that its opening link
reaches. -/
structure IsAttachedAtStart (k : Linkage) (reached : Set Nat) (x : Domain) : Prop where
  /-- Members join the start and the words reached with each other. -/
  ends : ∀ i ∈ x.members, ∀ m, k.links[i]? = some m →
    (m.left = x.start ∨ m.left ∈ reached) ∧ (m.right = x.start ∨ m.right ∈ reached)
  span : ∀ i ∈ x.members, ∀ m, k.links[i]? = some m → x.start ≤ m.left ∧ m.right ≤ x.last
  /-- The start is the only word that a member has in common with a link that
  is none. -/
  shared : ∀ i ∈ x.members, ∀ j ∉ x.members, ∀ m n, k.links[i]? = some m → k.links[j]? = some n →
    ∀ w, m.touches w = true → n.touches w = true → w = x.start
  /-- A path that does not pass the start does not leave the words reached. -/
  paths : ∀ ws, k.IsPath ws → x.start ∉ ws → ∀ u ∈ ws, u ∈ reached → ∀ w ∈ ws, w ∈ reached

theorem IsJoined.symm (h : k.IsJoined u v) : k.IsJoined v u := by
  obtain ⟨l, hl, hjoins⟩ := h
  exact ⟨l, hl, hjoins.symm⟩

/-- A path that does not leave a set of words by one of its links has all its
words in the set or none. -/
theorem IsPath.mem_of_mem {ws : List Nat} {p : Nat → Prop} (h : k.IsPath ws)
    (hkeep : ∀ u ∈ ws, ∀ v ∈ ws, k.IsJoined u v → p u → p v) (hu : u ∈ ws) (hp : p u) :
    ∀ w ∈ ws, p w := by
  have hsteps : ws.IsChain fun u v => p u ↔ p v := h.imp_of_mem_imp fun u v hu hv hjoined =>
    ⟨hkeep u hu v hv hjoined, hkeep v hv u hu hjoined.symm⟩
  have htrans : Trans (fun u v => p u ↔ p v) (fun u v => p u ↔ p v) (fun u v => p u ↔ p v) :=
    ⟨Iff.trans⟩
  have hsymm : Std.Symm fun u v => p u ↔ p v := ⟨fun _ _ => Iff.symm⟩
  have hsame := (List.isChain_iff_pairwise.mp hsteps).forall_of_forall (R := fun u v => p u ↔ p v)
    fun _ _ => Iff.rfl
  exact fun w hw => (hsame hu hw).mp hp

namespace IsDomainOf

theorem mem_members_of_touches (hx : k.IsDomainOf i l s x) (hm : k.links[j]? = some m)
    (htouches : m.touches w = true) (hw : w ∈ k.reach l s.reach) : j ∈ x.members := by
  refine (hx.mem_members_iff j).mpr (.inr ⟨m, hm, ?_⟩)
  rcases Link.touches_iff.mp htouches with rfl | rfl
  · exact .inl hw
  · exact .inr hw

/-- What a member joins with a word reached is reached, or the start: nothing
left of it, if no member begins there. -/
theorem mem_reach_or_eq_start (hx : k.IsDomainOf i l s x) (hfull : s.reach = .full)
    (hl : k.links[i]? = some l)
    (hbound : ∀ j ∈ x.members, ∀ m, k.links[j]? = some m → x.start ≤ m.left)
    (hj : j ∈ x.members) (hm : k.links[j]? = some m) (htouches : m.touches w = true) :
    w = x.start ∨ w ∈ k.reach l .full := by
  have hright := hx.right_mem_reach hfull hl hj hm
  rcases Link.touches_iff.mp htouches with rfl | rfl
  · rcases (hbound j hj m hm).eq_or_lt with heq | hlt
    · exact .inl heq.symm
    · exact .inr (mem_reach_of_isJoined hright ⟨m, List.mem_of_getElem? hm, .inr ⟨rfl, rfl⟩⟩
        (hx.start_eq ▸ hlt))
  · exact .inr hright

theorem isAttachedAtStart (hx : k.IsDomainOf i l s x) (hfull : s.reach = .full)
    (hl : k.links[i]? = some l)
    (hbound : ∀ j ∈ x.members, ∀ m, k.links[j]? = some m → x.start ≤ m.left) :
    k.IsAttachedAtStart (k.reach l .full) x where
  ends j hj m hm :=
    ⟨hx.mem_reach_or_eq_start hfull hl hbound hj hm (Link.touches_iff.mpr (.inl rfl)),
      .inr (hx.right_mem_reach hfull hl hj hm)⟩
  span j hj m hm :=
    ⟨hbound j hj m hm, hx.last_greatest.2 (hfull ▸ hx.right_mem_reach hfull hl hj hm)⟩
  shared j hj j' hj' m n hm hn w hmw hnw := by
    rcases hx.mem_reach_or_eq_start hfull hl hbound hj hm hmw with hstart | hw
    · exact hstart
    · exact absurd (hx.mem_members_of_touches hn hnw (hfull ▸ hw)) hj'
  paths ws hpath hstart u hu hreached := by
    refine hpath.mem_of_mem (fun v _ w hw hjoined hv => ?_) hu hreached
    -- a link from a word reached is a member, whose other word is reached or the start
    obtain ⟨m, hm, hjoins⟩ := hjoined
    obtain ⟨j, hj⟩ := List.mem_iff_getElem?.mp hm
    have hends : m.touches v = true ∧ m.touches w = true := by
      rw [Link.touches_iff, Link.touches_iff]
      omega
    have hmember := hx.mem_members_of_touches hj hends.1 (hfull ▸ hv)
    have hne : w ≠ x.start := fun heq => hstart (heq ▸ hw)
    exact (hx.mem_reach_or_eq_start hfull hl hbound hmember hj hends.2).resolve_left hne

end IsDomainOf

/-- In the domain table of a labeled linkage no member of a domain of full
reach ends behind it. If the bounded check of the domain's kind objects to no
link, the domain is attached at its start. -/
theorem domainTable_bounded (h : k.isLabeled = true) (rules : RuleSet) :
    ∃ t, k.domainTable rules = .ok t ∧
      ∀ x ∈ t.domains, ∀ l s, k.OpensBy rules x.starter l s → s.reach = .full →
        (∀ i ∈ x.members, ∀ m, k.links[i]? = some m → m.right ≤ x.last) ∧
        ((∀ i m, k.links[i]? = some m → t.objection? (.bounded x.kind) m.arc i = none) →
          k.IsAttachedAtStart (k.reach l .full) x) := by
  refine ⟨_, domainTable_of_isLabeled h rules, fun x hx l s hopens hfull => ?_⟩
  have hdomain := hopens.isDomainOf (DomainTable.mem_domains.mp hx)
  refine ⟨fun i hi m hm => ?_, fun hnone => ?_⟩
  · exact hdomain.last_greatest.2 (hfull ▸ hdomain.right_mem_reach hfull hopens.1 hi hm)
  · refine hdomain.isAttachedAtStart hfull hopens.1 fun i hi m hm => ?_
    by_contra hlt
    have harc : k.diagram.arcs[i]? = some m.arc := getElem?_arcs_diagram.mpr ⟨m, hm, rfl⟩
    have hfails : (Check.bounded x.kind).FailsAt rules.starters k.diagram i :=
      ⟨x, m.arc, DomainTable.mem_domains.mp hx, rfl, hi, harc, Nat.not_le.mp hlt⟩
    have hsome := (DomainTable.isSome_objection?_iff harc).mpr hfails
    rw [hnone i m hm] at hsome
    cases hsome

/-- The outer clause is attached at its start, where the first link ends. -/
theorem domainTable_bounded_embedded : Sample.embedded.isLabeled = true ∧
    ∃ t l s, Sample.embedded.domainTable Sample.clauseChecks = .ok t ∧
      Sample.outerClause ∈ t.domains ∧
      Sample.embedded.OpensBy Sample.clauseChecks Sample.outerClause.starter l s ∧
      s.reach = .full ∧
      (∀ i m, Sample.embedded.links[i]? = some m →
        t.objection? (.bounded Sample.outerClause.kind) m.arc i = none) ∧
      Sample.embedded.IsAttachedAtStart (Sample.embedded.reach l .full) Sample.outerClause := by
  obtain ⟨t, ht, hbounded⟩ := domainTable_bounded Sample.isLabeled_embedded Sample.clauseChecks
  obtain ⟨l, s, hopens, hfull⟩ := Sample.exists_opensBy_embedded
  have hdomains := Sample.domains_embedded ht
  have hmem : Sample.outerClause ∈ t.domains := by simp [hdomains]
  have hnone : (Sample.embedded.domainTable Sample.clauseChecks).map (fun t =>
      Sample.embedded.links.zipIdx.all fun p =>
        (t.objection? (.bounded Sample.outerClause.kind) p.1.arc p.2).isNone) = .ok true := by
    decide +kernel
  rw [ht] at hnone
  have hnone : ∀ i m, Sample.embedded.links[i]? = some m →
      t.objection? (.bounded Sample.outerClause.kind) m.arc i = none := fun i m hm =>
    Option.isNone_iff_eq_none.mp (List.all_eq_true.mp (Except.ok.inj hnone) (m, i)
      (List.mk_mem_zipIdx_iff_getElem?.mpr hm))
  obtain ⟨-, hattached⟩ := hbounded _ hmem l s hopens hfull
  exact ⟨Sample.isLabeled_embedded, t, l, s, ht, hmem, hopens, hfull, hnone, hattached hnone⟩

end Linkage

end LinkParse
