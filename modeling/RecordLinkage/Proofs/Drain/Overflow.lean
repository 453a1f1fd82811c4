import RecordLinkage.Proofs.Drain.Reach
import RecordLinkage.Proofs.Drain.Total

namespace RecordLinkage

namespace Graph

/-- A vertex is linked to just one end of a link, at the weight `a`. -/
def TouchesOne {ω : Type} [Weight ω] (G : Graph ω) (l : Link) (v : VertexId) (a : ω) : Prop :=
  v ≠ l.src ∧ v ≠ l.dst ∧
    (G.distance? l.src v = some a ∧ G.distance? l.dst v = none ∨
      G.distance? l.src v = none ∧ G.distance? l.dst v = some a)

/-- The lightest link is to be merged, and from a vertex that touches just one of its ends the way
over the link is too long to be finite. -/
def Overflows (G : Graph Binary64) (t : Binary64) : Prop :=
  ∃ w l v a, G.edges.lightest? = some (w, l) ∧ Weight.lt w t = true ∧ G.TouchesOne l v a ∧
    (a.add w).isInfinite = true

variable {G : Graph Binary64} {l : Link} {v : VertexId} {a w x : Binary64}

theorem TouchesOne.storable (ha : G.TouchesOne l v a) (h : G.edges.Sound) :
    Weight.storable a = true := by
  rcases ha.2.2 with ⟨ha, -⟩ | ⟨-, ha⟩ <;> exact storable_distance? h ha

/-- A new weight that is not accepted is an infinite sum, to a vertex that touches one part. -/
theorem storable_or_infinite (hG : G.Canonical) (h : G.edges.Sound)
    (hw : Weight.storable w = true) (hx : SortedMap.get? (G.relinks l w) v = some x) :
    Weight.storable x = true ∨
      x.isInfinite = true ∧ ∃ a, G.TouchesOne l v a ∧ (a.add w).isInfinite = true := by
  by_cases hends : v = l.src ∨ v = l.dst
  · rw [hG.get?_relinks_end hends] at hx
    cases hx
  obtain ⟨hs, hd⟩ := not_or.mp hends
  rw [hG.get?_relinks, if_neg (Ne.symm hs), if_neg (Ne.symm hd)] at hx
  -- A neighbour of one end is relinked at a sum, which is the only way to leave the finite numbers.
  have htouch (a : Binary64) (ha : G.distance? l.src v = some a ∧ G.distance? l.dst v = none ∨
      G.distance? l.src v = none ∧ G.distance? l.dst v = some a) : Weight.storable x = true ∨
      x.isInfinite = true ∧ ∃ a, G.TouchesOne l v a ∧ (a.add w).isInfinite = true := by
    have hone : G.TouchesOne l v a := ⟨hs, hd, ha⟩
    rcases linkage_one (hone.storable h) hw ha hx with ⟨hstored, -⟩ | ⟨rfl, hinfinite⟩
    · exact .inl hstored
    · exact .inr ⟨hinfinite, a, hone, hinfinite⟩
  cases ha : G.distance? l.src v with
  | none =>
    cases hb : G.distance? l.dst v with
    | none =>
      rw [ha, hb] at hx
      cases hx
    | some b => exact htouch b (.inr ⟨ha, hb⟩)
  | some a =>
    cases hb : G.distance? l.dst v with
    | none => exact htouch a (.inl ⟨ha, hb⟩)
    | some b =>
      obtain ⟨x', hx', hstored⟩ :=
        storable_linkage_both (storable_distance? h ha) (storable_distance? h hb) hw
      rw [ha, hb, hx', Option.some.injEq] at hx
      exact .inl (hx ▸ hstored)

theorem TouchesOne.refused (ha : G.TouchesOne l v a) (hG : G.Canonical) (h : G.edges.Sound)
    (hw : Weight.storable w = true) (hinfinite : (a.add w).isInfinite = true) :
    ∃ x, SortedMap.get? (G.relinks l w) v = some x ∧ Weight.storable x = false := by
  obtain ⟨hs, hd, hone⟩ := ha
  have hlinked : (linkage (G.distance? l.src v) (G.distance? l.dst v) w).isSome = true := by
    rcases hone with ⟨hsrc, hdst⟩ | ⟨hsrc, hdst⟩ <;> rw [hsrc, hdst] <;> rfl
  obtain ⟨x, hx⟩ := Option.isSome_iff_exists.mp hlinked
  refine ⟨x, ?_, ?_⟩
  · rw [hG.get?_relinks, if_neg hs.symm, if_neg hd.symm, hx]
  · have hstored := TouchesOne.storable ⟨hs, hd, hone⟩ h
    rcases linkage_one hstored hw hone hx with ⟨-, hfinite⟩ | ⟨rfl, -⟩
    · rw [hinfinite] at hfinite
      cases hfinite
    · apply eq_false_of_ne_true
      rw [Binary64.storable_add_iff hstored hw, hinfinite]
      decide

end Graph

namespace Drain

open Program

variable {m : Memory Binary64} {g : GraphId} {t : Binary64}

/-- Nothing but an overflow makes a step fail. -/
theorem run_step_of_not_overflows (sound : (m.store.graph g).edges.Sound)
    (anchored : (m.store.graph g).Anchored) (ht : Weight.bounding t = true)
    (supplied : m.supplied g = true) (h : ¬ (m.store.graph g).Overflows t) :
    ∃ s m', (step g t).run m = (.ok s, m') := by
  by_cases hstops : ∀ e w, m.store.lightest? g = some (e, w) → Weight.lt w t = false
  · obtain ⟨stop, hstop⟩ := run_step_stops ht hstops
    exact ⟨_, m, hstop⟩
  · simp only [not_forall, Bool.not_eq_false] at hstops
    obtain ⟨e, w, hlightest, hlt⟩ := hstops
    obtain rfl := lightest?_graph hlightest
    have hfirst := lightest?_edges hlightest
    have hl := (anchored.coherent.lightest hfirst).1
    have hw := sound.storable _ _ hl
    obtain ⟨hsrc, hdst⟩ := anchored.live _ _ hl
    rw [run_step_of_lightest ht hlightest hlt hsrc hdst]
    apply run_merge_storable anchored hl hw supplied
    intro p hp
    have hget := SortedMap.mem_toList.mp hp
    rcases Graph.storable_or_infinite anchored.toCanonical sound hw hget with
      hstored | ⟨-, a, hone, hinfinite⟩
    · exact hstored
    · exact absurd ⟨w, e.link, p.1, a, hfirst, hlt, hone, hinfinite⟩ h

/-- An overflow abandons a merge half way: the new cluster is there, and so are its parts. -/
theorem run_step_of_overflows (sound : (m.store.graph g).edges.Sound)
    (anchored : (m.store.graph g).Anchored) (ht : Weight.bounding t = true)
    (supplied : m.supplied g = true) (h : (m.store.graph g).Overflows t) :
    ∃ w l x m' k, (m.store.graph g).edges.lightest? = some (w, l) ∧
      (step g t).run m = (.error (.store (.invalidWeight x)), m') ∧ x.isInfinite = true ∧
      (m.store.graph g).live k = false ∧ (m'.store.graph g).live k = true ∧
      (m'.store.graph g).live l.src = true ∧ (m'.store.graph g).live l.dst = true := by
  obtain ⟨w, l, v, a, hfirst, hlt, hone, hinfinite⟩ := h
  have hl := (anchored.coherent.lightest hfirst).1
  have hw := sound.storable _ _ hl
  obtain ⟨hsrc, hdst⟩ := anchored.live _ _ hl
  have hlightest := lightest?_of_edges hfirst
  obtain ⟨x, hx, hrefused⟩ := hone.refused anchored.toCanonical sound hw hinfinite
  obtain ⟨p, hp, hrefused, m', k, hrun, hlive⟩ := run_merge_refused (e := ⟨g, l⟩) anchored hl hw
    supplied ⟨(v, x), SortedMap.mem_toList.mpr hx, hrefused⟩
  refine ⟨w, l, p.2, m', k, hfirst, ?_, ?_, hlive⟩
  · exact (run_step_of_lightest (e := ⟨g, l⟩) ht hlightest hlt hsrc hdst).trans hrun
  · have hget := SortedMap.mem_toList.mp hp
    rcases Graph.storable_or_infinite anchored.toCanonical sound hw hget with hstored | ⟨hp, -⟩
    · rw [hstored] at hrefused
      cases hrefused
    · exact hp

theorem succeeds_iff (sound : m.Sound) (anchored : (m.store.graph g).Anchored)
    (ht : Weight.bounding t = true) (supplied : m.supplied g = true) :
    Succeeds g t m ↔ ¬ (m.store.graph g).Overflows t := by
  constructor
  · intro hs hoverflows
    obtain ⟨-, -, x, m', -, -, hrun, -⟩ :=
      run_step_of_overflows (sound g) anchored ht supplied hoverflows
    exact not_succeeds hrun (fun s h => by cases h) hs
  · intro hfits
    obtain ⟨s, m', hrun⟩ := run_step_of_not_overflows (sound g) anchored ht supplied hfits
    exact ⟨s, by rw [hrun]⟩

/-- A bound on the links that a merge keeps finite rules an overflow out. -/
theorem not_overflows {G : Graph Binary64} {b : Binary64} (hG : G.edges.Sound)
    (ht : Weight.storable t = true) (hwithin : G.edges.Within b) (hb : Weight.storable b = true)
    (hadd : Weight.storable (b.add t) = true) : ¬ G.Overflows t := by
  rintro ⟨w, l, v, a, hfirst, hlt, hone, hinfinite⟩
  have hw := hG.storable _ _ (hG.lightest hfirst).1
  have ha := hone.storable hG
  have hle : Weight.le a b := by
    rcases hone.2.2 with ⟨ha, -⟩ | ⟨-, ha⟩ <;> exact Graph.distance?_le hwithin ha
  have hsum : Weight.storable (a.add w) = true :=
    Binary64.storable_of_le hadd (Binary64.numericKey_add_nonneg ha hw)
      (Binary64.add_le_add ha hw hb ht hle (Weight.le_of_lt hlt))
  rw [Binary64.storable_add_iff ha hw, hinfinite] at hsum
  cases hsum

/-- A drain does not overflow if a bound on the links stays finite for as many merges as there can
be. -/
theorem throughout_not_overflows {b : Binary64} (sound : m.Sound)
    (anchored : (m.store.graph g).Anchored) (ht : Weight.storable t = true)
    (hb : (m.store.graph g).edges.Within b)
    (hreach : ∀ n < (m.store.clusters g).length, Weight.storable (reach t n b) = true) :
    Throughout g t m fun m' => ¬ (m'.store.graph g).Overflows t := by
  intro n history m' hsteps hoverflows
  have hreached := run_steps_ok hsteps
  have hsound := hreached.sound sound g
  have hmerges := (hreached.progress sound).2
  have htwo : 2 ≤ (m'.store.clusters g).length := by
    obtain ⟨w, l, -, -, hfirst, -⟩ := hoverflows
    rw [Store.length_clusters]
    exact (hreached.anchored anchored).two_le_size (hsound.lightest hfirst).1
  have hwithin := hreached.within sound anchored ht hb fun n hn => hreach n (by omega)
  have hnext : Weight.storable ((reach t (history.countP Step.isMerge) b).add t) = true := by
    rw [← reach_succ]
    exact hreach _ (by omega)
  exact not_overflows hsound ht hwithin (hreach _ (by omega)) hnext hoverflows

end Drain

open Drain

/-- A step of a drain of a graph in order, with identifiers for its unions, fails just where a sum
overflows, and leaves the new cluster live beside its parts. The drain succeeds if no sum overflows
on its way, and that is so if a bound on the links stays finite when the threshold is added as often
as there can be merges. -/
theorem drain_fails_by_overflow_only {m : Memory Binary64} {g : GraphId} {t : Binary64}
    (sound : m.Sound) (anchored : (m.store.graph g).Anchored) (ht : Weight.bounding t = true)
    (supplied : Throughout g t m fun m' => m'.supplied g = true) :
    (Throughout g t m fun m' => Succeeds g t m' ↔ ¬ (m'.store.graph g).Overflows t) ∧
    (Throughout g t m fun m' => (m'.store.graph g).Overflows t → ∃ w l x m'' k,
      (m'.store.graph g).edges.lightest? = some (w, l) ∧
      (step g t).run m' = (.error (.store (.invalidWeight x)), m'') ∧ x.isInfinite = true ∧
      (m'.store.graph g).live k = false ∧ (m''.store.graph g).live k = true ∧
      (m''.store.graph g).live l.src = true ∧ (m''.store.graph g).live l.dst = true) ∧
    ((∃ report, (m.cluster g t).1 = .ok report) ↔
      Throughout g t m fun m' => ¬ (m'.store.graph g).Overflows t) ∧
    ∀ b, (m.store.graph g).edges.Within b →
      (∀ n < (m.store.clusters g).length, Weight.storable (reach t n b) = true) →
      ∃ report, (m.cluster g t).1 = .ok report := by
  -- What a drain has reached is as sound as what it started from, so one step settles each point.
  have hpoint : Throughout g t m fun m' => Succeeds g t m' ↔ ¬ (m'.store.graph g).Overflows t := by
    intro n history m' hsteps
    have hreached := run_steps_ok hsteps
    exact succeeds_iff (hreached.sound sound) (hreached.anchored anchored) ht
      (supplied n history m' hsteps)
  have hcluster : (∃ report, (m.cluster g t).1 = .ok report) ↔
      Throughout g t m fun m' => ¬ (m'.store.graph g).Overflows t := by
    rw [run_cluster_ok_iff sound ht]
    constructor
    · intro hall n history m' hsteps
      exact (hpoint n history m' hsteps).mp (hall n history m' hsteps)
    · intro hall n history m' hsteps
      exact (hpoint n history m' hsteps).mpr (hall n history m' hsteps)
  refine ⟨hpoint, ?_, hcluster, ?_⟩
  · intro n history m' hsteps
    have hreached := run_steps_ok hsteps
    exact run_step_of_overflows (hreached.sound sound g) (hreached.anchored anchored) ht
      (supplied n history m' hsteps)
  · intro b hb hreach
    have hstorable := Weight.storable_of_bounding ht
    exact hcluster.mpr (throughout_not_overflows sound anchored hstorable hb hreach)

/-- Three entities: the second and the third are at some distances from the first. -/
def pathOfThree (near far : Binary64) : Graph Binary64 :=
  let v (n : BitVec 128) : VertexId := ⟨⟨n⟩⟩
  let e (n : BitVec 128) : EntityKey := ⟨⟨⟨7⟩⟩, ⟨⟨n⟩⟩⟩
  let G : Graph Binary64 := ((Graph.empty.ensure (v 1) (e 1)).ensure (v 2) (e 2)).ensure (v 3) (e 3)
  (G.putLink ⟨v 1, v 2⟩ near).putLink ⟨v 1, v 3⟩ far

theorem pathOfThree_intact {near far : Binary64} (hnear : Weight.storable near = true)
    (hfar : Weight.storable far = true) : (pathOfThree near far).Intact := by
  have hvertices : (((Graph.empty (ω := Binary64)).ensure ⟨⟨1⟩⟩ ⟨⟨⟨7⟩⟩, ⟨⟨1⟩⟩⟩).ensure ⟨⟨2⟩⟩
      ⟨⟨⟨7⟩⟩, ⟨⟨2⟩⟩⟩).ensure ⟨⟨3⟩⟩ ⟨⟨⟨7⟩⟩, ⟨⟨3⟩⟩⟩ |>.Intact :=
    ((Graph.Intact.empty.ensure _ _).ensure _ _).ensure _ _
  have hnearer := hvertices.putLink (l := ⟨⟨⟨1⟩⟩, ⟨⟨2⟩⟩⟩) (by decide) hnear (by decide +kernel)
    (by decide +kernel)
  exact hnearer.putLink (by decide) hfar
    (show Graph.live (Graph.ensure _ _ _) _ = true by decide +kernel)
    (show Graph.live (Graph.ensure _ _ _) _ = true by decide +kernel)

def nearPath : Graph Binary64 := pathOfThree (.ofDecimal false ⟨5, -2⟩) (.ofDecimal false ⟨8, -2⟩)

theorem nearPath_intact : nearPath.Intact :=
  pathOfThree_intact (by decide +kernel) (by decide +kernel)

theorem nearPath_supplied : Throughout ⟨⟨1⟩⟩ defaultThreshold (.ofGraph ⟨⟨1⟩⟩ nearPath)
    fun m' => m'.supplied ⟨⟨1⟩⟩ = true := by
  let m : Memory Binary64 := .ofGraph ⟨⟨1⟩⟩ nearPath
  have hfirst : ((step ⟨⟨1⟩⟩ defaultThreshold).run m).1.meets Step.isMerge = true := by
    decide +kernel
  have hnext : let m₁ := ((step ⟨⟨1⟩⟩ defaultThreshold).run m).2
      ((step ⟨⟨1⟩⟩ defaultThreshold).run m₁).1.meets (fun s => decide (s.state = .done)) = true ∧
      m.supplied ⟨⟨1⟩⟩ = true ∧ m₁.supplied ⟨⟨1⟩⟩ = true := by decide +kernel
  rcases hmerge : (step ⟨⟨1⟩⟩ defaultThreshold).run m with ⟨r, m₁⟩
  rw [hmerge] at hfirst hnext
  obtain ⟨s, rfl, -⟩ := Outcome.meets_iff.mp hfirst
  obtain ⟨hdone, hids⟩ := hnext
  rcases hstop : (step ⟨⟨1⟩⟩ defaultThreshold).run m₁ with ⟨r, m₂⟩
  rw [hstop] at hdone
  obtain ⟨s', rfl, hs'⟩ := Outcome.meets_iff.mp hdone
  rw [throughout_next hmerge, throughout_stop hstop (of_decide_eq_true hs')]
  exact hids

/-- The third entity is relinked at the sum of both distances, which ends the drain. -/
theorem nearPath_drained : (Memory.ofGraph ⟨⟨1⟩⟩ nearPath).Sound ∧ nearPath.Anchored ∧
    Weight.bounding defaultThreshold = true ∧
    (∃ report, ((Memory.ofGraph ⟨⟨1⟩⟩ nearPath).cluster ⟨⟨1⟩⟩ defaultThreshold).1 =
      .ok report) ∧
    (((Memory.ofGraph ⟨⟨1⟩⟩ nearPath).cluster ⟨⟨1⟩⟩ defaultThreshold).2.store.edges ⟨⟨1⟩⟩).map
      Prod.snd = [.add (.ofDecimal false ⟨8, -2⟩) (.ofDecimal false ⟨5, -2⟩)] := by
  have ht : Weight.bounding defaultThreshold = true := by decide +kernel
  have hsound := Memory.sound_ofGraph (g := ⟨⟨1⟩⟩) nearPath_intact
  have hanchored := nearPath_intact.toAnchored
  have hb : nearPath.edges.Within (.ofDecimal false ⟨8, -2⟩) :=
    (EdgeIndex.Within.empty.put _ (show Weight.lt _ _ = false by decide +kernel)).put _
      (Weight.le_refl _)
  have hreach : ∀ n < ((Memory.ofGraph ⟨⟨1⟩⟩ nearPath).store.clusters ⟨⟨1⟩⟩).length,
      Weight.storable (reach defaultThreshold n (.ofDecimal false ⟨8, -2⟩)) = true := by
    decide +kernel
  rw [← Memory.graph_ofGraph ⟨⟨1⟩⟩ nearPath] at hanchored hb
  obtain ⟨-, -, -, hbounded⟩ :=
    drain_fails_by_overflow_only hsound hanchored ht nearPath_supplied
  exact ⟨hsound, nearPath_intact.toAnchored, ht, hbounded _ hb hreach, by decide +kernel⟩

def greatestThreshold : Binary64 := ⟨0x7fefffffffffffff⟩

/-- The second entity is at `1e308`, the third at `1.7e308`. -/
def distantPath : Graph Binary64 := pathOfThree ⟨0x7fe1ccf385ebc8a0⟩ ⟨0x7fee42d130773b76⟩

theorem distantPath_intact : distantPath.Intact :=
  pathOfThree_intact (by decide +kernel) (by decide +kernel)

/-- The first merge of a graph in order fails when its new cluster is made: four clusters are left
of three, and the drain fails with it. -/
theorem distantPath_abandoned : let m : Memory Binary64 := .ofGraph ⟨⟨1⟩⟩ distantPath
    m.Sound ∧ (m.store.graph ⟨⟨1⟩⟩).Anchored ∧ Weight.bounding greatestThreshold = true ∧
    (Throughout ⟨⟨1⟩⟩ greatestThreshold m fun m' => m'.supplied ⟨⟨1⟩⟩ = true) ∧
    (∃ m', (step ⟨⟨1⟩⟩ greatestThreshold).run m =
        (.error (.store (.invalidWeight .infinity)), m') ∧
      (m.store.clusters ⟨⟨1⟩⟩).length = 3 ∧ (m'.store.clusters ⟨⟨1⟩⟩).length = 4 ∧
      (m'.store.graph ⟨⟨1⟩⟩).live ⟨⟨1⟩⟩ = true ∧ (m'.store.graph ⟨⟨1⟩⟩).live ⟨⟨2⟩⟩ = true) ∧
    ¬ ∃ report, (m.cluster ⟨⟨1⟩⟩ greatestThreshold).1 = .ok report := by
  intro m
  have hrefused : ((step ⟨⟨1⟩⟩ greatestThreshold).run m).1 =
      .error (.store (.invalidWeight .infinity)) := by decide +kernel
  have hleft : let m' := ((step ⟨⟨1⟩⟩ greatestThreshold).run m).2
      (m.store.clusters ⟨⟨1⟩⟩).length = 3 ∧ (m'.store.clusters ⟨⟨1⟩⟩).length = 4 ∧
      (m'.store.graph ⟨⟨1⟩⟩).live ⟨⟨1⟩⟩ = true ∧ (m'.store.graph ⟨⟨1⟩⟩).live ⟨⟨2⟩⟩ = true := by
    decide +kernel
  have hfails : ¬ Succeeds ⟨⟨1⟩⟩ greatestThreshold m :=
    not_succeeds (Prod.ext hrefused rfl) fun s h => by cases h
  have hsound : m.Sound := Memory.sound_ofGraph distantPath_intact
  have ht : Weight.bounding greatestThreshold = true := by decide +kernel
  refine ⟨hsound, ?_, ht, ?_, ⟨_, Prod.ext hrefused rfl, hleft⟩, ?_⟩
  · rw [Memory.graph_ofGraph]
    exact distantPath_intact.toAnchored
  · rw [throughout_failure hfails]
    decide +kernel
  · rw [run_cluster_ok_iff hsound ht]
    exact fun h => hfails h.first

end RecordLinkage
