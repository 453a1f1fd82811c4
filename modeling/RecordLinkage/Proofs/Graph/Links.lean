import RecordLinkage.Proofs.Graph.Contraction
import RecordLinkage.Proofs.Sorted.Domain

namespace RecordLinkage

namespace Link

variable {v : VertexId} {others : List VertexId} {l : Link}

def fan (v : VertexId) (others : List VertexId) : Finset Link :=
  (others.filterMap (between? v)).toFinset

theorem mem_fan : l ∈ fan v others ↔ ∃ u ∈ others, between? v u = some l := by
  rw [fan, List.mem_toFinset, List.mem_filterMap]

theorem card_fan_le (v : VertexId) (others : List VertexId) :
    (fan v others).card ≤ others.length :=
  (List.toFinset_card_le _).trans (List.length_filterMap_le _ _)

theorem fan_cons (v u : VertexId) (others : List VertexId) :
    fan v (u :: others) = fan v [u] ∪ fan v others := by
  ext l
  simp [mem_fan]

theorem card_fan (hothers : others.Nodup) (hv : v ∉ others) :
    (fan v others).card = others.length := by
  induction others with
  | nil => rfl
  | cons u rest ih =>
    obtain ⟨hu, hrest⟩ := List.nodup_cons.mp hothers
    rw [List.mem_cons, not_or] at hv
    obtain ⟨l, hl⟩ := exists_between? hv.1
    have hone : fan v [u] = {l} := by
      ext l'
      simp [mem_fan, hl, eq_comm]
    have hnew : l ∉ fan v rest := by
      intro hmem
      obtain ⟨u', hu', hl'⟩ := mem_fan.mp hmem
      rcases (between?_eq_iff hl).mp hl' with ⟨-, rfl⟩ | ⟨hvu, -⟩
      · exact hu hu'
      · exact hv.1 hvu
    rw [fan_cons, hone, Finset.singleton_union, Finset.card_insert_of_notMem hnew, ih hrest hv.2,
      List.length_cons]

end Link

variable {ω : Type} [Weight ω]

namespace EdgeIndex

variable {x : EdgeIndex ω} {l : Link}

def links (x : EdgeIndex ω) : Finset Link := SortedMap.domain x.weights

theorem mem_links : l ∈ x.links ↔ (x.weight? l).isSome = true := SortedMap.mem_domain

theorem card_links (x : EdgeIndex ω) : x.links.card = x.size := SortedMap.card_domain x.weights

theorem links_put (x : EdgeIndex ω) (l : Link) (w : ω) : (x.put l w).links = insert l x.links :=
  SortedMap.domain_put x.weights l w

theorem links_erase (x : EdgeIndex ω) (l : Link) : (x.erase l).links = x.links.erase l := by
  ext l'
  rw [mem_links, weight?_erase, Finset.mem_erase, mem_links]
  by_cases h : l = l'
  · simp [h]
  · simp [h, Ne.symm h]

end EdgeIndex

namespace Graph

variable {G : Graph ω} {l : Link} {w : ω} {x y : Cluster ω} {k : VertexId}

theorem links_link (G : Graph ω) (v u : VertexId) (w : ω) :
    (G.link v u w).edges.links = G.edges.links ∪ Link.fan v [u] := by
  rw [link]
  split
  · rename_i l hl
    rw [putLink, EdgeIndex.links_put]
    ext l'
    simp [Link.mem_fan, hl, or_comm, eq_comm]
  · rename_i hl
    simp [Link.fan, hl]

theorem links_unlink (G : Graph ω) (v u : VertexId) :
    (G.unlink v u).edges.links = G.edges.links \ Link.fan v [u] := by
  rw [unlink]
  split
  · rename_i l hl
    rw [eraseLink, EdgeIndex.links_erase]
    ext l'
    simp [Link.mem_fan, hl, and_comm, eq_comm]
  · rename_i hl
    simp [Link.fan, hl]

theorem links_linkAll (G : Graph ω) (v : VertexId) (links : List (VertexId × ω)) :
    (G.linkAll v links).edges.links = G.edges.links ∪ Link.fan v (links.map Prod.fst) := by
  induction links generalizing G with
  | nil => simp [linkAll, Link.fan]
  | cons p links ih =>
    refine (ih (G.link v p.1 p.2)).trans ?_
    rw [links_link, List.map_cons, Link.fan_cons v p.1 (links.map Prod.fst), Finset.union_assoc]

theorem links_unlinkAll (G : Graph ω) (v : VertexId) (others : List VertexId) :
    (G.unlinkAll v others).edges.links = G.edges.links \ Link.fan v others := by
  induction others generalizing G with
  | nil => simp [unlinkAll, Link.fan]
  | cons u others ih =>
    refine (ih (G.unlink v u)).trans ?_
    rw [links_unlink, Link.fan_cons v u others, sdiff_sdiff_left, Finset.sup_eq_union]

/-- Whatever form the links have, the neighbours of a vertex are the vertices to which a link in
normal form leads. -/
theorem mem_neighbors (h : G.edges.Coherent) (v u : VertexId) :
    u ∈ SortedMap.keys (G.neighbors v) ↔ (G.distance? v u).isSome = true := by
  classical
  have hnearer (a b : Option ω) :
      (nearer a b).isSome = true ↔ a.isSome = true ∨ b.isSome = true := by
    cases a <;> cases b <;> simp [nearer]
  rw [SortedMap.mem_keys, neighbors, get?_joinSides, EdgeIndex.destinations, EdgeIndex.sources,
    get?_adjacent, get?_adjacent]
  by_cases hvu : v = u
  · simp [hvu]
  · rw [if_neg hvu, hnearer]
    constructor
    · rintro (hside | hside)
      · split at hside
        · exact hside
        · cases hside
      · split at hside
        · exact hside
        · cases hside
    · intro hlinked
      obtain ⟨l, hl⟩ := Link.exists_between? hvu
      have hweight := hlinked
      rw [distance?_of_between? hl] at hweight
      -- The link in normal form is listed under its source and under its destination.
      rcases (Link.between?_spec hl).2 with ⟨rfl, rfl⟩ | ⟨rfl, rfl⟩
      · left
        rw [if_pos ((h.outgoing l.src l.dst).mpr hweight)]
        exact hlinked
      · right
        rw [if_pos ((h.incoming l.src l.dst).mpr hweight)]
        exact hlinked

/-- The neighbours that an end of a link brings into a contraction. -/
def bystanders (G : Graph ω) (v other : VertexId) : List VertexId :=
  SortedMap.keys ((G.neighbors v).erase other)

theorem mem_bystanders (h : G.edges.Coherent) {v other u : VertexId} :
    u ∈ G.bystanders v other ↔ u ≠ other ∧ (G.distance? v u).isSome = true := by
  rw [bystanders, SortedMap.mem_keys, SortedMap.get?_erase, ← mem_neighbors h, SortedMap.mem_keys]
  by_cases hu : other = u
  · simp [hu]
  · simp [hu, Ne.symm hu]

def replaced (G : Graph ω) (l : Link) : Finset Link :=
  insert l (Link.fan l.src (G.bystanders l.src l.dst) ∪ Link.fan l.dst (G.bystanders l.dst l.src))

theorem links_contract (G : Graph ω) (l : Link) (w : ω) (x y : Cluster ω) (k : VertexId) :
    (G.contract l w x y k).edges.links =
      (G.edges.links ∪ Link.fan k (SortedMap.keys (G.relinks l w))) \ G.replaced l := by
  have herased (made a b : Finset Link) : ((made \ a) \ b).erase l = made \ insert l (a ∪ b) := by
    ext l'
    simp only [Finset.mem_erase, Finset.mem_sdiff, Finset.mem_insert, Finset.mem_union, not_or,
      and_assoc]
    exact and_left_comm
  rw [contract, edges_retire, edges_retire, edges_eraseLink, EdgeIndex.links_erase,
    links_unlinkAll, links_unlinkAll, links_linkAll, edges_adjoin, herased]
  rfl

theorem fan_bystanders_subset (h : G.edges.Coherent) (v other : VertexId) :
    Link.fan v (G.bystanders v other) ⊆ G.edges.links := by
  intro l hl
  obtain ⟨u, hu, hbetween⟩ := Link.mem_fan.mp hl
  have hlinked := ((mem_bystanders h).mp hu).2
  rw [distance?_of_between? hbetween] at hlinked
  exact EdgeIndex.mem_links.mpr hlinked

theorem card_fan_bystanders (h : G.edges.Coherent) (v other : VertexId) :
    (Link.fan v (G.bystanders v other)).card = (G.bystanders v other).length := by
  have hself : v ∉ G.bystanders v other := by
    rw [mem_bystanders h, distance?_self]
    simp
  exact Link.card_fan (SortedMap.keys_nodup _) hself

theorem replaced_subset (h : G.edges.Coherent) (hl : (G.edges.weight? l).isSome = true) :
    G.replaced l ⊆ G.edges.links :=
  Finset.insert_subset (EdgeIndex.mem_links.mpr hl)
    (Finset.union_subset (fan_bystanders_subset h _ _) (fan_bystanders_subset h _ _))

/-- No link of one part is a link of the other, and only the contracted one joins the parts. -/
theorem card_replaced (h : G.edges.Coherent) (hne : l.src ≠ l.dst) :
    (G.replaced l).card =
      (G.bystanders l.src l.dst).length + (G.bystanders l.dst l.src).length + 1 := by
  have hapart : Disjoint (Link.fan l.src (G.bystanders l.src l.dst))
      (Link.fan l.dst (G.bystanders l.dst l.src)) := by
    rw [Finset.disjoint_left]
    intro l' ha hb
    obtain ⟨u, hu, hau⟩ := Link.mem_fan.mp ha
    obtain ⟨v, hv, hbv⟩ := Link.mem_fan.mp hb
    rcases (Link.between?_eq_iff hau).mp hbv with ⟨hsame, -⟩ | ⟨-, hvsrc⟩
    · exact hne hsame.symm
    · exact ((mem_bystanders h).mp hv).1 hvsrc
  have hnew : l ∉ Link.fan l.src (G.bystanders l.src l.dst) ∪
      Link.fan l.dst (G.bystanders l.dst l.src) := by
    rw [Finset.mem_union, Link.mem_fan, Link.mem_fan]
    rintro (⟨u, hu, hbetween⟩ | ⟨u, hu, hbetween⟩) <;>
      have hu := ((mem_bystanders h).mp hu).1 <;>
      rcases (Link.between?_spec hbetween).2 with ⟨hs, hd⟩ | ⟨hs, hd⟩
    · exact hu hd.symm
    · exact hne hd.symm
    · exact hne hs
    · exact hu hs.symm
  rw [replaced, Finset.card_insert_of_notMem hnew, Finset.card_union_of_disjoint hapart,
    card_fan_bystanders h, card_fan_bystanders h]

/-- The union is linked to no more vertices than its parts were. -/
theorem card_relinks_le (G : Graph ω) (l : Link) (w : ω) :
    (SortedMap.keys (G.relinks l w)).length ≤
      (G.bystanders l.src l.dst).length + (G.bystanders l.dst l.src).length := by
  have hlength (m : SortedMap VertexId ω) :
      (SortedMap.keys m).length = (SortedMap.domain m).card := by
    rw [SortedMap.card_domain, SortedMap.keys, List.length_map, SortedBy.size]
  have hsub : SortedMap.domain (G.relinks l w) ⊆
      SortedMap.domain ((G.neighbors l.src).erase l.dst) ∪
        SortedMap.domain ((G.neighbors l.dst).erase l.src) := by
    intro v hv
    rw [SortedMap.mem_domain, relinks, get?_relinked] at hv
    rw [Finset.mem_union, SortedMap.mem_domain, SortedMap.mem_domain]
    by_contra! hno
    rw [Option.not_isSome_iff_eq_none.mp hno.1, Option.not_isSome_iff_eq_none.mp hno.2] at hv
    cases hv
  rw [hlength, bystanders, bystanders, hlength, hlength]
  exact (Finset.card_le_card hsub).trans (Finset.card_union_le _ _)

/-- A contraction removes more links than it makes: one for each neighbour of each part and the
contracted one, against one for each neighbour of the union. -/
theorem size_contract_lt (h : G.edges.Coherent) (hl : (G.edges.weight? l).isSome = true)
    (hne : l.src ≠ l.dst) : (G.contract l w x y k).edges.size < G.edges.size := by
  have hreplaced := G.card_replaced (l := l) h hne
  have hkept := Finset.card_sdiff_of_subset (replaced_subset h hl)
  have hthere := Finset.card_le_card (replaced_subset h hl)
  rw [← EdgeIndex.card_links, ← EdgeIndex.card_links, links_contract, Finset.union_sdiff_distrib]
  generalize hfan : Link.fan k (SortedMap.keys (G.relinks l w)) = made
  have hmade : made.card ≤ _ := hfan ▸ (Link.card_fan_le k _).trans (G.card_relinks_le l w)
  have hfresh : (made \ G.replaced l).card ≤ made.card := Finset.card_le_card Finset.sdiff_subset
  have hunion := Finset.card_union_le (G.edges.links \ G.replaced l) (made \ G.replaced l)
  omega

theorem clusters_contract (hsrc : G.cluster? l.src = some x) (hdst : G.cluster? l.dst = some y)
    (hne : l.src ≠ l.dst) (hfree : G.taken k = false) :
    (G.contract l w x y k).clusters.size + 1 = G.clusters.size := by
  have hmem (H : Graph ω) (v : VertexId) :
      v ∈ SortedMap.domain H.clusters ↔ (H.cluster? v).isSome = true := SortedMap.mem_domain
  have hdomain : SortedMap.domain (G.contract l w x y k).clusters =
      ((insert k (SortedMap.domain G.clusters)).erase l.src).erase l.dst := by
    ext v
    rw [hmem, cluster?_contract, Finset.mem_erase, Finset.mem_erase, Finset.mem_insert, hmem]
    by_cases hd : l.dst = v
    · simp [hd]
    · by_cases hs : l.src = v
      · simp [hs]
      · by_cases hk : k = v
        · simp [hd, hs, hk, Ne.symm hd, Ne.symm hs]
        · simp [hd, hs, hk, Ne.symm hd, Ne.symm hs, Ne.symm hk]
  have hk : k ∉ SortedMap.domain G.clusters := by
    rw [hmem, cluster?_of_not_taken hfree]
    simp
  have hs : l.src ∈ insert k (SortedMap.domain G.clusters) :=
    Finset.mem_insert_of_mem ((hmem G _).mpr (by rw [hsrc]; rfl))
  have hd : l.dst ∈ (insert k (SortedMap.domain G.clusters)).erase l.src :=
    Finset.mem_erase.mpr ⟨hne.symm, Finset.mem_insert_of_mem ((hmem G _).mpr (by rw [hdst]; rfl))⟩
  have hinsert := Finset.card_insert_of_notMem hk
  have herase := Finset.card_erase_add_one hs
  have herase' := Finset.card_erase_add_one hd
  rw [← SortedMap.card_domain, ← SortedMap.card_domain, hdomain]
  omega

theorem size_eraseLink (hl : (G.edges.weight? l).isSome = true) :
    (G.eraseLink l).edges.size + 1 = G.edges.size := by
  rw [← EdgeIndex.card_links, ← EdgeIndex.card_links, eraseLink, EdgeIndex.links_erase]
  exact Finset.card_erase_add_one (EdgeIndex.mem_links.mpr hl)

end Graph

end RecordLinkage
