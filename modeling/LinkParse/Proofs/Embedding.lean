import LinkParse.Proofs.Check

/-!
# One diagram inside another

`Diagram.Embeds word link d e` says that `d` is a part of `e` that nothing
else touches: its links are found in `e` under the numbers `link`, between
the words `word`, which keep their order, and no further link of `e` ends at
one of these words. Numbers of links may change their order.

Paths, and with them domains, cycles and what a check has against a link,
do not leave such a part. So a check about a single domain fails at a link
of `d` exactly if it fails at that link in `e`; for a check about the whole
linkage `e` must have no further links (`failsAt_iff`).
-/

namespace LinkParse

/-- Where each step from an image is the image of a step, the same holds of
paths. -/
theorem reflTransGen_image_iff {r s : Nat → Nat → Prop} {f : Nat → Nat} {p : Nat → Prop}
    (hstep : ∀ u, p u → ∀ w, s (f u) w ↔ ∃ v, r u v ∧ f v = w) (hp : ∀ u v, r u v → p v) {u w : Nat}
    (hu : p u) : Relation.ReflTransGen s (f u) w ↔ ∃ v, Relation.ReflTransGen r u v ∧ f v = w := by
  constructor
  · intro hpath
    induction hpath with
    | refl => exact ⟨u, .refl, rfl⟩
    | tail _ hlast ih =>
        obtain ⟨v, hv, rfl⟩ := ih
        have hpv : p v := by
          cases hv with
          | refl => exact hu
          | tail _ hstep => exact hp _ _ hstep
        obtain ⟨x, hx, rfl⟩ := (hstep v hpv _).mp hlast
        exact ⟨x, hv.tail hx, rfl⟩
  · rintro ⟨v, hpath, rfl⟩
    have himage : p v ∧ Relation.ReflTransGen s (f u) (f v) := by
      induction hpath with
      | refl => exact ⟨hu, .refl⟩
      | tail _ hlast ih => exact ⟨hp _ _ hlast, ih.2.tail ((hstep _ ih.1 _).mpr ⟨_, hlast, rfl⟩)⟩
    exact himage.2

/-- The arc has the words of another under a map, and its label. -/
structure Arc.IsImage (word : Nat → Nat) (a b : Arc) : Prop where
  left_eq : b.left = word a.left
  right_eq : b.right = word a.right
  label_eq : b.label = a.label

/-- The domain is another one under maps of words and links. -/
structure Domain.IsImage (word link : Nat → Nat) (x y : Domain) : Prop where
  kind_eq : y.kind = x.kind
  starter_eq : y.starter = link x.starter
  start_eq : y.start = word x.start
  last_eq : y.last = word x.last
  mem_members : ∀ j, j ∈ y.members ↔ ∃ i ∈ x.members, link i = j

namespace Diagram

/-- The diagram is a part of another one that no further link touches. -/
structure Embeds (word link : Nat → Nat) (d e : Diagram) : Prop where
  word_lt : ∀ u v, IsLinked d.arcs u → IsLinked d.arcs v → u < v → word u < word v
  link_inj : ∀ i j, i < d.arcs.length → j < d.arcs.length → link i = link j → i = j
  exists_image : ∀ i a, d.arcs[i]? = some a → ∃ b, e.arcs[link i]? = some b ∧ a.IsImage word b
  closed : ∀ j b u, e.arcs[j]? = some b → IsLinked d.arcs u → b.left = word u ∨ b.right = word u →
    ∃ i a, d.arcs[i]? = some a ∧ link i = j

/-- Every link of the other diagram is one of the part. -/
def Covers (link : Nat → Nat) (d e : Diagram) : Prop :=
  ∀ j b, e.arcs[j]? = some b → ∃ i a, d.arcs[i]? = some a ∧ link i = j

variable {word link : Nat → Nat} {d e : Diagram}

namespace Embeds

theorem word_inj (h : Embeds word link d e) {u v : Nat} (hu : IsLinked d.arcs u)
    (hv : IsLinked d.arcs v) (heq : word u = word v) : u = v := by
  rcases Nat.lt_trichotomy u v with hlt | rfl | hlt
  · exact absurd (h.word_lt u v hu hv hlt) (by omega)
  · rfl
  · exact absurd (h.word_lt v u hv hu hlt) (by omega)

theorem word_lt_iff (h : Embeds word link d e) {u v : Nat} (hu : IsLinked d.arcs u)
    (hv : IsLinked d.arcs v) : word u < word v ↔ u < v := by
  constructor
  · intro hlt
    rcases Nat.lt_trichotomy u v with huv | rfl | hvu
    · exact huv
    · omega
    · exact absurd (h.word_lt v u hv hu hvu) (by omega)
  · exact h.word_lt u v hu hv

theorem link_eq_iff (h : Embeds word link d e) {i j : Nat} {a b : Arc} (ha : d.arcs[i]? = some a)
    (hb : d.arcs[j]? = some b) : link i = link j ↔ i = j := by
  obtain ⟨hi, -⟩ := List.getElem?_eq_some_iff.mp ha
  obtain ⟨hj, -⟩ := List.getElem?_eq_some_iff.mp hb
  exact ⟨h.link_inj i j hi hj, congrArg link⟩

/-- What stands under the number of a link is its image. -/
theorem isImage (h : Embeds word link d e) {i : Nat} {a b : Arc} (ha : d.arcs[i]? = some a)
    (hb : e.arcs[link i]? = some b) : a.IsImage word b := by
  obtain ⟨c, hc, hac⟩ := h.exists_image i a ha
  obtain rfl := Option.some.inj (hb.symm.trans hc)
  exact hac

/-- A link that ends at a word of the part is the image of one that ends at
that word. -/
theorem exists_preimage (h : Embeds word link d e) {j u : Nat} {b : Arc} (hb : e.arcs[j]? = some b)
    (hu : IsLinked d.arcs u) (htouch : b.left = word u ∨ b.right = word u) :
    ∃ i a, d.arcs[i]? = some a ∧ link i = j ∧ a.IsImage word b ∧
      (b.left = word u → a.left = u) ∧ (b.right = word u → a.right = u) := by
  obtain ⟨i, a, ha, rfl⟩ := h.closed j b u hb hu htouch
  have himage := h.isImage ha hb
  have hmem := List.mem_of_getElem? ha
  refine ⟨i, a, ha, rfl, himage, fun hleft => ?_, fun hright => ?_⟩
  · exact h.word_inj ⟨a, hmem, Or.inl rfl⟩ hu (himage.left_eq ▸ hleft)
  · exact h.word_inj ⟨a, hmem, Or.inr rfl⟩ hu (himage.right_eq ▸ hright)

end Embeds

/-! ## Paths -/

/-- A link with an allowed number joins the two words. -/
def Joined (d : Diagram) (p : Nat → Prop) (u v : Nat) : Prop :=
  ∃ i a, d.arcs[i]? = some a ∧ p i ∧ a.Joins u v

theorem adjacent_eq_joined (d : Diagram) : Adjacent d.arcs = d.Joined fun _ => True := by
  funext u v
  apply propext
  constructor
  · rintro ⟨a, ha, hj⟩
    obtain ⟨i, hi⟩ := List.mem_iff_getElem?.mp ha
    exact ⟨i, a, hi, trivial, hj⟩
  · rintro ⟨i, a, hi, -, hj⟩
    exact ⟨a, List.mem_of_getElem? hi, hj⟩

theorem adjacent_eraseIdx_eq_joined (d : Diagram) (i : Nat) :
    Adjacent (d.arcs.eraseIdx i) = d.Joined (· ≠ i) := by
  funext u v
  apply propext
  constructor
  · rintro ⟨a, ha, hj⟩
    obtain ⟨k, hne, hk⟩ := List.mem_eraseIdx_iff_getElem?.mp ha
    exact ⟨k, a, hk, hne, hj⟩
  · rintro ⟨k, a, hk, hne, hj⟩
    exact ⟨a, List.mem_eraseIdx_iff_getElem?.mpr ⟨k, hne, hk⟩, hj⟩

theorem Joined.isLinked_right {p : Nat → Prop} {u v : Nat} (h : d.Joined p u v) :
    IsLinked d.arcs v := by
  obtain ⟨i, a, ha, -, ⟨-, hr⟩ | ⟨hl, -⟩⟩ := h
  · exact ⟨a, List.mem_of_getElem? ha, Or.inr hr⟩
  · exact ⟨a, List.mem_of_getElem? ha, Or.inl hl⟩

namespace Embeds

/-- A step from a word of the part is a step within the part. -/
theorem joined_image_iff (h : Embeds word link d e) {p q : Nat → Prop}
    (hpq : ∀ i a, d.arcs[i]? = some a → (q (link i) ↔ p i)) {u w : Nat} (hu : IsLinked d.arcs u) :
    e.Joined q (word u) w ↔ ∃ v, d.Joined p u v ∧ word v = w := by
  constructor
  · rintro ⟨j, b, hb, hq, hjoins⟩
    have htouch : b.left = word u ∨ b.right = word u := hjoins.imp And.left And.right
    obtain ⟨i, a, ha, rfl, himage, hleft, hright⟩ := h.exists_preimage hb hu htouch
    have hp := (hpq i a ha).mp hq
    rcases hjoins with ⟨hl, hr⟩ | ⟨hl, hr⟩
    · exact ⟨a.right, ⟨i, a, ha, hp, Or.inl ⟨hleft hl, rfl⟩⟩, himage.right_eq ▸ hr⟩
    · exact ⟨a.left, ⟨i, a, ha, hp, Or.inr ⟨rfl, hright hr⟩⟩, himage.left_eq ▸ hl⟩
  · rintro ⟨v, ⟨i, a, ha, hp, hjoins⟩, rfl⟩
    obtain ⟨b, hb, himage⟩ := h.exists_image i a ha
    refine ⟨link i, b, hb, (hpq i a ha).mpr hp, ?_⟩
    unfold Arc.Joins
    rw [himage.left_eq, himage.right_eq]
    rcases hjoins with ⟨rfl, rfl⟩ | ⟨rfl, rfl⟩
    · exact Or.inl ⟨rfl, rfl⟩
    · exact Or.inr ⟨rfl, rfl⟩

theorem adjacent_image_iff (h : Embeds word link d e) {u w : Nat} (hu : IsLinked d.arcs u) :
    Adjacent e.arcs (word u) w ↔ ∃ v, Adjacent d.arcs u v ∧ word v = w := by
  rw [adjacent_eq_joined, adjacent_eq_joined]
  exact h.joined_image_iff (fun _ _ _ => Iff.rfl) hu

/-- Words of the part are joined by a path in the whole exactly if they are
within the part. -/
theorem path_image_iff (h : Embeds word link d e) {p q : Nat → Prop}
    (hpq : ∀ i a, d.arcs[i]? = some a → (q (link i) ↔ p i)) {u v : Nat} (hu : IsLinked d.arcs u)
    (hv : IsLinked d.arcs v) : Relation.ReflTransGen (e.Joined q) (word u) (word v)
      ↔ Relation.ReflTransGen (d.Joined p) u v := by
  rw [reflTransGen_image_iff (fun _ hx _ => h.joined_image_iff hpq hx)
    (fun _ _ hstep => hstep.isLinked_right) hu]
  constructor
  · rintro ⟨x, hpath, heq⟩
    have hx : IsLinked d.arcs x := by
      cases hpath with
      | refl => exact hu
      | tail _ hlast => exact hlast.isLinked_right
    exact h.word_inj hx hv heq ▸ hpath
  · intro hpath
    exact ⟨v, hpath, rfl⟩

theorem connected_image_iff (h : Embeds word link d e) {u v : Nat} (hu : IsLinked d.arcs u)
    (hv : IsLinked d.arcs v) : Connected e.arcs (word u) (word v) ↔ Connected d.arcs u v := by
  unfold Connected
  rw [adjacent_eq_joined, adjacent_eq_joined]
  exact h.path_image_iff (fun _ _ _ => Iff.rfl) hu hv

theorem connected_eraseIdx_image_iff (h : Embeds word link d e) {i : Nat} {a : Arc}
    (ha : d.arcs[i]? = some a) {u v : Nat} (hu : IsLinked d.arcs u) (hv : IsLinked d.arcs v) :
    Connected (e.arcs.eraseIdx (link i)) (word u) (word v)
      ↔ Connected (d.arcs.eraseIdx i) u v := by
  unfold Connected
  rw [adjacent_eraseIdx_eq_joined, adjacent_eraseIdx_eq_joined]
  exact h.path_image_iff (fun _ _ hb => not_congr (h.link_eq_iff hb ha)) hu hv

/-! ## Domains -/

variable {starters : List Starter} {x y : Domain}

/-- An opening link of the part reaches words of the part only, and the same
ones. -/
theorem reaches_image_iff (h : Embeds word link d e) {a b : Arc} (ha : a ∈ d.arcs)
    (hab : a.IsImage word b) {w : Nat} : ∀ {reach : Reach},
      Domain.Reaches e.arcs reach b w ↔ ∃ v, Domain.Reaches d.arcs reach a v ∧ word v = w
  | .rightWordOnly => by
      show w = b.right ↔ ∃ v, v = a.right ∧ word v = w
      rw [hab.right_eq, exists_eq_left, eq_comm]
  | .full => by
      show Relation.ReflTransGen _ b.right w ↔ ∃ v, Relation.ReflTransGen _ a.right v ∧ word v = w
      rw [hab.right_eq, hab.left_eq]
      refine reflTransGen_image_iff (fun u hu w => ?_) (fun _ _ hstep => hstep.2.isLinked_right)
        ⟨a, ha, Or.inr rfl⟩
      rw [h.adjacent_image_iff hu]
      constructor
      · rintro ⟨hlt, v, hv, rfl⟩
        exact ⟨v, ⟨(h.word_lt_iff ⟨a, ha, Or.inl rfl⟩ hv.isLinked_right).mp hlt, hv⟩, rfl⟩
      · rintro ⟨v, ⟨hlt, hv⟩, rfl⟩
        exact ⟨h.word_lt _ _ ⟨a, ha, Or.inl rfl⟩ hv.isLinked_right hlt, v, hv, rfl⟩

theorem isImage_of_isOpenedBy (h : Embeds word link d e) {i : Nat} {a b : Arc} {s : Starter}
    (ha : d.arcs[i]? = some a) (hb : e.arcs[link i]? = some b) (hx : x.IsOpenedBy d s a i)
    (hy : y.IsOpenedBy e s b (link i)) : x.IsImage word link y := by
  have hmem := List.mem_of_getElem? ha
  have hab := h.isImage ha hb
  have hreaches : ∀ w, Domain.Reaches e.arcs s.reach b w
      ↔ ∃ v, Domain.Reaches d.arcs s.reach a v ∧ word v = w :=
    fun w => h.reaches_image_iff hmem hab
  refine ⟨by rw [hy.kind_eq, hx.kind_eq], by rw [hy.starter_eq, hx.starter_eq],
    by rw [hy.start_eq, hx.start_eq, hab.left_eq], ?_, fun j => ?_⟩
  · refine hy.last_greatest.unique ⟨(hreaches _).mpr ⟨_, hx.last_greatest.1, rfl⟩, fun w hw => ?_⟩
    obtain ⟨v, hv, rfl⟩ := (hreaches w).mp hw
    rcases Nat.lt_or_eq_of_le (hx.last_greatest.2 hv) with hlt | heq
    · exact (h.word_lt _ _ (hv.isLinked hmem) (hx.last_greatest.1.isLinked hmem) hlt).le
    · rw [heq]
  · rw [hy.mem_members]
    constructor
    · rintro ⟨c, hc, hmember⟩
      rcases hmember with rfl | hleft | hright
      · exact ⟨i, (hx.mem_members i).mpr ⟨a, ha, Or.inl rfl⟩, rfl⟩
      · obtain ⟨v, hv, heq⟩ := (hreaches _).mp hleft
        obtain ⟨k, f, hf, rfl, -, hfv, -⟩ :=
          h.exists_preimage hc (hv.isLinked hmem) (Or.inl heq.symm)
        exact ⟨k, (hx.mem_members k).mpr ⟨f, hf, Or.inr (Or.inl (hfv heq.symm ▸ hv))⟩, rfl⟩
      · obtain ⟨v, hv, heq⟩ := (hreaches _).mp hright
        obtain ⟨k, f, hf, rfl, -, -, hfv⟩ :=
          h.exists_preimage hc (hv.isLinked hmem) (Or.inr heq.symm)
        exact ⟨k, (hx.mem_members k).mpr ⟨f, hf, Or.inr (Or.inr (hfv heq.symm ▸ hv))⟩, rfl⟩
    · rintro ⟨k, hk, rfl⟩
      obtain ⟨f, hf, hmember⟩ := (hx.mem_members k).mp hk
      obtain ⟨c, hc, himage⟩ := h.exists_image k f hf
      refine ⟨c, hc, ?_⟩
      rcases hmember with rfl | hleft | hright
      · exact Or.inl rfl
      · exact Or.inr (Or.inl ((hreaches _).mpr ⟨_, hleft, himage.left_eq.symm⟩))
      · exact Or.inr (Or.inr ((hreaches _).mpr ⟨_, hright, himage.right_eq.symm⟩))

theorem hasDomain_image (h : Embeds word link d e) (hx : d.HasDomain starters x) :
    ∃ y, e.HasDomain starters y ∧ x.IsImage word link y := by
  obtain ⟨i, a, s, ha, hs, hx⟩ := hx
  obtain ⟨b, hb, hab⟩ := h.exists_image i a ha
  have hopened := Domain.isOpenedBy_openedBy hb s
  refine ⟨_, ⟨link i, b, s, hb, ?_, hopened⟩, h.isImage_of_isOpenedBy ha hb hx hopened⟩
  rw [hab.label_eq]
  exact hs

/-- A domain that a link of the part opens is the image of a domain. -/
theorem hasDomain_preimage (h : Embeds word link d e) (hy : e.HasDomain starters y) {i : Nat}
    {a : Arc} (ha : d.arcs[i]? = some a) (hi : y.starter = link i) :
    ∃ x, d.HasDomain starters x ∧ x.IsImage word link y ∧ x.starter = i := by
  obtain ⟨j, b, s, hb, hs, hy⟩ := hy
  obtain rfl : j = link i := by rw [← hy.starter_eq, hi]
  have hab := h.isImage ha hb
  have hopened := Domain.isOpenedBy_openedBy ha s
  refine ⟨_, ⟨i, a, s, ha, ?_, hopened⟩, h.isImage_of_isOpenedBy ha hb hopened hy, rfl⟩
  rw [← hab.label_eq]
  exact hs

/-- What reaches a word of the part began in the part. -/
theorem exists_of_reaches (h : Embeds word link d e) {j u : Nat} {b : Arc}
    (hb : e.arcs[j]? = some b) (hu : IsLinked d.arcs u) : ∀ {reach : Reach},
      Domain.Reaches e.arcs reach b (word u) → ∃ i a, d.arcs[i]? = some a ∧ link i = j
  | .rightWordOnly, hreach => h.closed j b u hb hu (Or.inr hreach.symm)
  | .full, hreach => by
      have hback : ∀ r, Relation.ReflTransGen (fun v w => b.left < w ∧ Adjacent e.arcs v w) r
          (word u) → ∃ v, IsLinked d.arcs v ∧ r = word v := by
        intro r hpath
        induction hpath using Relation.ReflTransGen.head_induction_on with
        | refl => exact ⟨u, hu, rfl⟩
        | head hfirst _ ih =>
            obtain ⟨v, hv, rfl⟩ := ih
            obtain ⟨x, hx, rfl⟩ := (h.adjacent_image_iff hv).mp hfirst.2.symm
            exact ⟨x, hx.isLinked_right, rfl⟩
      obtain ⟨v, hv, heq⟩ := hback b.right hreach
      exact h.closed j b v hb hv (Or.inr heq)

/-- A domain with a member from the part is the image of a domain. -/
theorem hasDomain_preimage_of_mem (h : Embeds word link d e) (hy : e.HasDomain starters y) {i : Nat}
    {a : Arc} (ha : d.arcs[i]? = some a) (hi : link i ∈ y.members) :
    ∃ x, d.HasDomain starters x ∧ x.IsImage word link y ∧ i ∈ x.members := by
  have hmem := List.mem_of_getElem? ha
  have hopener : ∃ k c, d.arcs[k]? = some c ∧ y.starter = link k := by
    obtain ⟨j, b, s, hb, -, hy⟩ := hy
    obtain ⟨c, hc, hmember⟩ := (hy.mem_members _).mp hi
    have hac := h.isImage ha hc
    rw [hac.left_eq, hac.right_eq] at hmember
    rw [hy.starter_eq]
    rcases hmember with hij | hleft | hright
    · exact ⟨i, a, ha, hij.symm⟩
    · obtain ⟨k, f, hf, hk⟩ := h.exists_of_reaches hb ⟨a, hmem, Or.inl rfl⟩ hleft
      exact ⟨k, f, hf, hk.symm⟩
    · obtain ⟨k, f, hf, hk⟩ := h.exists_of_reaches hb ⟨a, hmem, Or.inr rfl⟩ hright
      exact ⟨k, f, hf, hk.symm⟩
  obtain ⟨k, c, hc, hk⟩ := hopener
  obtain ⟨x, hx, himage, -⟩ := h.hasDomain_preimage hy hc hk
  obtain ⟨m, hm, hlink⟩ := (himage.mem_members _).mp hi
  obtain ⟨f, hf⟩ := hx.getElem?_of_mem hm
  obtain rfl := (h.link_eq_iff hf ha).mp hlink
  exact ⟨x, hx, himage, hm⟩

/-! ## Tests that checks are made of -/

/-- Membership of a link of the part in an image. -/
theorem mem_members_iff (h : Embeds word link d e) (hx : d.HasDomain starters x)
    (hxy : x.IsImage word link y) {i : Nat} {a : Arc} (ha : d.arcs[i]? = some a) :
    link i ∈ y.members ↔ i ∈ x.members := by
  rw [hxy.mem_members]
  constructor
  · rintro ⟨k, hk, hlink⟩
    obtain ⟨c, hc⟩ := hx.getElem?_of_mem hk
    exact (h.link_eq_iff hc ha).mp hlink ▸ hk
  · intro hi
    exact ⟨i, hi, rfl⟩

theorem crossedBy_image_iff (h : Embeds word link d e) {x' y' : Domain}
    (hx : d.HasDomain starters x) (hy : d.HasDomain starters y) (hxx : x.IsImage word link x')
    (hyy : y.IsImage word link y') : x'.CrossedBy y' ↔ x.CrossedBy y := by
  unfold Domain.CrossedBy
  rw [hxx.start_eq, hyy.start_eq, hxx.last_eq, hyy.last_eq,
    h.word_lt_iff hx.isLinked_start hy.isLinked_start,
    h.word_lt_iff hy.isLinked_start hx.isLinked_last,
    h.word_lt_iff hx.isLinked_last hy.isLinked_last]

theorem opensAllowed_image_iff (h : Embeds word link d e) (hx : d.HasDomain starters x)
    (hxy : x.IsImage word link y) {allow : List Pattern} :
    e.OpensAllowed allow y ↔ d.OpensAllowed allow x := by
  obtain ⟨a, ha, -⟩ := hx.getElem?_starter
  obtain ⟨b, hb, hab⟩ := h.exists_image _ a ha
  unfold OpensAllowed
  simp only [hxy.starter_eq, hb, ha, Option.some.injEq, exists_eq_left', hab.label_eq]

theorem forbidsCrossing_image_iff (h : Embeds word link d e) {x' y' : Domain}
    (hx : d.HasDomain starters x) (hy : d.HasDomain starters y) (hxx : x.IsImage word link x')
    (hyy : y.IsImage word link y') {kind : String} {allow : List Pattern} :
    e.ForbidsCrossing kind allow x' y' ↔ d.ForbidsCrossing kind allow x y := by
  unfold ForbidsCrossing
  rw [h.opensAllowed_image_iff hx hxx, h.opensAllowed_image_iff hy hyy, hxx.kind_eq, hyy.kind_eq]

theorem fits_image_iff (h : Embeds word link d e) {a b a' b' : Arc} (ha : a ∈ d.arcs)
    (hb : b ∈ d.arcs) (haa : a.IsImage word a') (hbb : b.IsImage word b') :
    ∀ {placement : Placement}, placement.Fits a' b' ↔ placement.Fits a b := by
  have hlex : ∀ {f g f' g' : Arc}, f ∈ d.arcs → g ∈ d.arcs → f.IsImage word f' →
      g.IsImage word g' → (toLex (f'.left, f'.right) < toLex (g'.left, g'.right)
        ↔ toLex (f.left, f.right) < toLex (g.left, g.right)) := by
    intro f g f' g' hf hg hff hgg
    have hleft : word f.left = word g.left ↔ f.left = g.left :=
      ⟨h.word_inj ⟨f, hf, Or.inl rfl⟩ ⟨g, hg, Or.inl rfl⟩, congrArg word⟩
    rw [Prod.Lex.toLex_lt_toLex, Prod.Lex.toLex_lt_toLex, hff.left_eq, hff.right_eq, hgg.left_eq,
      hgg.right_eq, hleft, h.word_lt_iff ⟨f, hf, Or.inl rfl⟩ ⟨g, hg, Or.inl rfl⟩,
      h.word_lt_iff ⟨f, hf, Or.inr rfl⟩ ⟨g, hg, Or.inr rfl⟩]
  intro placement
  cases placement with
  | before => exact hlex ha hb haa hbb
  | after => exact hlex hb ha hbb haa

theorem hasCompanion_image_iff (h : Embeds word link d e) {companions : List Pattern} {i : Nat}
    {a : Arc} (ha : d.arcs[i]? = some a) {p q : Nat → Prop}
    (hpq : ∀ k c, d.arcs[k]? = some c → (q (link k) ↔ p k))
    (hq : ∀ j b, e.arcs[j]? = some b → q j → ∃ k c, d.arcs[k]? = some c ∧ link k = j) :
    e.HasCompanion companions (link i) q ↔ d.HasCompanion companions i p := by
  constructor
  · rintro ⟨j, b, hb, hne, hj, hcompanion⟩
    obtain ⟨k, c, hc, rfl⟩ := hq j b hb hj
    rw [(h.isImage hc hb).label_eq] at hcompanion
    exact ⟨k, c, hc, fun heq => hne (congrArg link heq), (hpq k c hc).mp hj, hcompanion⟩
  · rintro ⟨k, c, hc, hne, hk, hcompanion⟩
    obtain ⟨b, hb, hcb⟩ := h.exists_image k c hc
    rw [← hcb.label_eq] at hcompanion
    exact ⟨link k, b, hb, fun heq => hne ((h.link_eq_iff hc ha).mp heq), (hpq k c hc).mpr hk,
      hcompanion⟩

/-! ## Failing at a link of the part -/

variable {i : Nat} {a : Arc}

/-- A foreign domain could cross one of the part, so the outer domain has to
be known to belong to the part. -/
theorem containment_failsAt_iff (h : Embeds word link d e) (ha : d.arcs[i]? = some a)
    {kind : String} {allow : List Pattern}
    (houter : ∀ x y, e.HasDomain starters x → e.HasDomain starters y → y.starter = link i →
      x.CrossedBy y → ∃ k c, d.arcs[k]? = some c ∧ x.starter = link k) :
    (Check.containment kind allow).FailsAt starters e (link i)
      ↔ (Check.containment kind allow).FailsAt starters d i := by
  constructor
  · rintro ⟨x', y', hx', hy', hi, hcross, hforbids⟩
    obtain ⟨k, c, hc, hk⟩ := houter x' y' hx' hy' hi hcross
    obtain ⟨x, hx, hxx, -⟩ := h.hasDomain_preimage hx' hc hk
    obtain ⟨y, hy, hyy, hyi⟩ := h.hasDomain_preimage hy' ha hi
    exact ⟨x, y, hx, hy, hyi, (h.crossedBy_image_iff hx hy hxx hyy).mp hcross,
      (h.forbidsCrossing_image_iff hx hy hxx hyy).mp hforbids⟩
  · rintro ⟨x, y, hx, hy, hi, hcross, hforbids⟩
    obtain ⟨x', hx', hxx⟩ := h.hasDomain_image hx
    obtain ⟨y', hy', hyy⟩ := h.hasDomain_image hy
    exact ⟨x', y', hx', hy', hyy.starter_eq.trans (congrArg link hi),
      (h.crossedBy_image_iff hx hy hxx hyy).mpr hcross,
      (h.forbidsCrossing_image_iff hx hy hxx hyy).mpr hforbids⟩

theorem bounded_failsAt_iff (h : Embeds word link d e) (ha : d.arcs[i]? = some a) {kind : String} :
    (Check.bounded kind).FailsAt starters e (link i)
      ↔ (Check.bounded kind).FailsAt starters d i := by
  have hlinked : IsLinked d.arcs a.left := ⟨a, List.mem_of_getElem? ha, Or.inl rfl⟩
  constructor
  · rintro ⟨x', b, hx', hk, hi, hb, hlt⟩
    obtain ⟨x, hx, hxx, hmem⟩ := h.hasDomain_preimage_of_mem hx' ha hi
    rw [hxx.start_eq, (h.isImage ha hb).left_eq, h.word_lt_iff hlinked hx.isLinked_start] at hlt
    exact ⟨x, a, hx, hxx.kind_eq ▸ hk, hmem, ha, hlt⟩
  · rintro ⟨x, b, hx, hk, hi, hb, hlt⟩
    obtain rfl := Option.some.inj (ha.symm.trans hb)
    obtain ⟨x', hx', hxx⟩ := h.hasDomain_image hx
    obtain ⟨b, hb, hab⟩ := h.exists_image i a ha
    refine ⟨x', b, hx', hxx.kind_eq ▸ hk, (h.mem_members_iff hx hxx ha).mpr hi, hb, ?_⟩
    rw [hxx.start_eq, hab.left_eq]
    exact h.word_lt _ _ hlinked hx.isLinked_start hlt

theorem ordering_failsAt_iff (h : Embeds word link d e) (ha : d.arcs[i]? = some a)
    {selector anchor : Pattern} {placement : Placement} :
    (Check.ordering selector anchor placement).FailsAt starters e (link i)
      ↔ (Check.ordering selector anchor placement).FailsAt starters d i := by
  have hmem := List.mem_of_getElem? ha
  constructor
  · rintro ⟨x', j, a', b', hx', hi, hj, hne, ha', hb', hsel, hanchor, hnot⟩
    obtain ⟨x, hx, hxx, hix⟩ := h.hasDomain_preimage_of_mem hx' ha hi
    obtain ⟨k, hk, rfl⟩ := (hxx.mem_members j).mp hj
    obtain ⟨b, hb⟩ := hx.getElem?_of_mem hk
    have haa := h.isImage ha ha'
    have hbb := h.isImage hb hb'
    rw [haa.label_eq] at hsel
    rw [hbb.label_eq] at hanchor
    rw [h.fits_image_iff hmem (List.mem_of_getElem? hb) haa hbb] at hnot
    exact ⟨x, k, a, b, hx, hix, hk, fun heq => hne (congrArg link heq), ha, hb, hsel, hanchor, hnot⟩
  · rintro ⟨x, k, f, b, hx, hi, hk, hne, hf, hb, hsel, hanchor, hnot⟩
    obtain rfl := Option.some.inj (ha.symm.trans hf)
    obtain ⟨x', hx', hxx⟩ := h.hasDomain_image hx
    obtain ⟨a', ha', haa⟩ := h.exists_image i a ha
    obtain ⟨b', hb', hbb⟩ := h.exists_image k b hb
    rw [← haa.label_eq] at hsel
    rw [← hbb.label_eq] at hanchor
    rw [← h.fits_image_iff hmem (List.mem_of_getElem? hb) haa hbb] at hnot
    exact ⟨x', link k, a', b', hx', (h.mem_members_iff hx hxx ha).mpr hi,
      (h.mem_members_iff hx hxx hb).mpr hk, fun heq => hne ((h.link_eq_iff hb ha).mp heq), ha', hb',
      hsel, hanchor, hnot⟩

theorem companion_domain_failsAt_iff (h : Embeds word link d e) (ha : d.arcs[i]? = some a)
    {selector : Pattern} {companions : List Pattern} {requirement : Requirement} :
    (Check.companion selector companions .domain requirement).FailsAt starters e (link i)
      ↔ (Check.companion selector companions .domain requirement).FailsAt starters d i := by
  have hsame : ∀ {x x' : Domain}, d.HasDomain starters x → x.IsImage word link x' →
      (e.HasCompanion companions (link i) (· ∈ x'.members)
        ↔ d.HasCompanion companions i (· ∈ x.members)) := by
    intro x x' hx hxx
    refine h.hasCompanion_image_iff ha (fun k c hc => h.mem_members_iff hx hxx hc) ?_
    intro j b _ hj
    obtain ⟨k, hk, hlink⟩ := (hxx.mem_members j).mp hj
    obtain ⟨c, hc⟩ := hx.getElem?_of_mem hk
    exact ⟨k, c, hc, hlink⟩
  constructor
  · rintro ⟨a', x', ha', hsel, hx', hi, hnot⟩
    obtain ⟨x, hx, hxx, hix⟩ := h.hasDomain_preimage_of_mem hx' ha hi
    rw [(h.isImage ha ha').label_eq] at hsel
    rw [hsame hx hxx] at hnot
    exact ⟨a, x, ha, hsel, hx, hix, hnot⟩
  · rintro ⟨b, x, hb, hsel, hx, hi, hnot⟩
    obtain rfl := Option.some.inj (ha.symm.trans hb)
    obtain ⟨x', hx', hxx⟩ := h.hasDomain_image hx
    obtain ⟨a', ha', haa⟩ := h.exists_image i a ha
    rw [← haa.label_eq] at hsel
    rw [← hsame hx hxx] at hnot
    exact ⟨a', x', ha', hsel, hx', (h.mem_members_iff hx hxx ha).mpr hi, hnot⟩

theorem companion_linkage_failsAt_iff (h : Embeds word link d e) (hcovers : Covers link d e)
    (ha : d.arcs[i]? = some a) {selector : Pattern} {companions : List Pattern}
    {requirement : Requirement} :
    (Check.companion selector companions .linkage requirement).FailsAt starters e (link i)
      ↔ (Check.companion selector companions .linkage requirement).FailsAt starters d i := by
  have hsame : e.HasCompanion companions (link i) (fun _ => True)
      ↔ d.HasCompanion companions i fun _ => True :=
    h.hasCompanion_image_iff ha (fun _ _ _ => Iff.rfl) fun j b hb _ => hcovers j b hb
  constructor
  · rintro ⟨a', ha', hsel, hnot⟩
    rw [(h.isImage ha ha').label_eq] at hsel
    rw [hsame] at hnot
    exact ⟨a, ha, hsel, hnot⟩
  · rintro ⟨b, hb, hsel, hnot⟩
    obtain rfl := Option.some.inj (ha.symm.trans hb)
    obtain ⟨a', ha', haa⟩ := h.exists_image i a ha
    rw [← haa.label_eq] at hsel
    rw [← hsame] at hnot
    exact ⟨a', ha', hsel, hnot⟩

theorem cycle_failsAt_iff (h : Embeds word link d e) (ha : d.arcs[i]? = some a)
    {selector : Pattern} : (Check.cycle selector).FailsAt starters e (link i)
      ↔ (Check.cycle selector).FailsAt starters d i := by
  have hmem := List.mem_of_getElem? ha
  have hsame := h.connected_eraseIdx_image_iff ha ⟨a, hmem, Or.inl rfl⟩ ⟨a, hmem, Or.inr rfl⟩
  constructor
  · rintro ⟨a', ha', hsel, hnot⟩
    have haa := h.isImage ha ha'
    rw [haa.label_eq] at hsel
    rw [haa.left_eq, haa.right_eq, hsame] at hnot
    exact ⟨a, ha, hsel, hnot⟩
  · rintro ⟨b, hb, hsel, hnot⟩
    obtain rfl := Option.some.inj (ha.symm.trans hb)
    obtain ⟨a', ha', haa⟩ := h.exists_image i a ha
    rw [← haa.label_eq] at hsel
    rw [← hsame, ← haa.left_eq, ← haa.right_eq] at hnot
    exact ⟨a', ha', hsel, hnot⟩

/-- The leftmost linked word stays the leftmost. -/
theorem isLeast_isLinked_image (h : Embeds word link d e) (hcovers : Covers link d e) {first : Nat}
    (hfirst : IsLeast {w | IsLinked d.arcs w} first) :
    IsLeast {w | IsLinked e.arcs w} (word first) := by
  obtain ⟨⟨a, ha, hends⟩, hleast⟩ := hfirst
  constructor
  · obtain ⟨i, hi⟩ := List.mem_iff_getElem?.mp ha
    obtain ⟨b, hb, hab⟩ := h.exists_image i a hi
    refine ⟨b, List.mem_of_getElem? hb, ?_⟩
    rw [hab.left_eq, hab.right_eq]
    exact hends.imp (congrArg word) (congrArg word)
  · rintro _ ⟨b, hb, hends'⟩
    obtain ⟨j, hj⟩ := List.mem_iff_getElem?.mp hb
    obtain ⟨i, c, hc, rfl⟩ := hcovers j b hj
    have hcb := h.isImage hc hj
    have hle : ∀ v, IsLinked d.arcs v → word first ≤ word v := by
      intro v hv
      rcases Nat.lt_or_eq_of_le (hleast hv) with hlt | rfl
      · exact (h.word_lt first v ⟨a, ha, hends⟩ hv hlt).le
      · exact Nat.le_refl _
    rcases hends' with rfl | rfl
    · rw [hcb.left_eq]
      exact hle _ ⟨c, List.mem_of_getElem? hc, Or.inl rfl⟩
    · rw [hcb.right_eq]
      exact hle _ ⟨c, List.mem_of_getElem? hc, Or.inr rfl⟩

theorem connected_failsAt_iff (h : Embeds word link d e) (hcovers : Covers link d e)
    (ha : d.arcs[i]? = some a) : Check.connected.FailsAt starters e (link i)
      ↔ Check.connected.FailsAt starters d i := by
  have hmem := List.mem_of_getElem? ha
  have hleft : IsLinked d.arcs a.left := ⟨a, hmem, Or.inl rfl⟩
  have hright : IsLinked d.arcs a.right := ⟨a, hmem, Or.inr rfl⟩
  obtain ⟨first, hfirst⟩ := exists_isLeast_isLinked hleft
  have hfirst' := h.isLeast_isLinked_image hcovers hfirst
  obtain ⟨a', ha', haa⟩ := h.exists_image i a ha
  have hsame : ∀ {v}, IsLinked d.arcs v →
      (Connected e.arcs (word first) (word v) ↔ Connected d.arcs first v) :=
    fun hv => h.connected_image_iff hfirst.1 hv
  constructor
  · rintro ⟨b, w, hb, hw, hnotl, hnotr⟩
    obtain rfl := Option.some.inj (ha'.symm.trans hb)
    obtain rfl := hfirst'.unique hw
    rw [haa.left_eq, hsame hleft] at hnotl
    rw [haa.right_eq, hsame hright] at hnotr
    exact ⟨a, first, ha, hfirst, hnotl, hnotr⟩
  · rintro ⟨b, w, hb, hw, hnotl, hnotr⟩
    obtain rfl := Option.some.inj (ha.symm.trans hb)
    obtain rfl := hfirst.unique hw
    rw [← hsame hleft, ← haa.left_eq] at hnotl
    rw [← hsame hright, ← haa.right_eq] at hnotr
    exact ⟨a', word first, ha', hfirst', hnotl, hnotr⟩

/-- Where the part is the whole, every check fails at the same links. -/
theorem failsAt_iff (h : Embeds word link d e) (hcovers : Covers link d e)
    (ha : d.arcs[i]? = some a) {check : Check} :
    check.FailsAt starters e (link i) ↔ check.FailsAt starters d i := by
  cases check with
  | containment kind allow =>
      refine h.containment_failsAt_iff ha fun x _ hx _ _ _ => ?_
      obtain ⟨b, hb, -⟩ := hx.getElem?_starter
      obtain ⟨k, c, hc, hk⟩ := hcovers _ b hb
      exact ⟨k, c, hc, hk.symm⟩
  | bounded kind => exact h.bounded_failsAt_iff ha
  | ordering selector anchor placement => exact h.ordering_failsAt_iff ha
  | companion selector companions scope requirement =>
      cases scope with
      | domain => exact h.companion_domain_failsAt_iff ha
      | linkage => exact h.companion_linkage_failsAt_iff hcovers ha
  | cycle selector => exact h.cycle_failsAt_iff ha
  | connected => exact h.connected_failsAt_iff hcovers ha
  | minimumLinks count => exact Iff.rfl

end Embeds

end Diagram

end LinkParse
