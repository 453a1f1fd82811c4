import RecordLinkage.Proofs.Crew.Licences
import RecordLinkage.Proofs.Pipeline.Partition
import Mathlib.Data.Set.Basic

namespace RecordLinkage

/-- The vertices that ever lived, with their members and the order in which they came to life. -/
structure Ledger where
  born : VertexKey → Prop
  members : VertexKey → SortedSet EntityKey
  birthday : VertexKey → Nat
  today : Nat

namespace Ledger

/-- A vertex was outlived by a later one with all of its members. -/
def Outlived (L : Ledger) (k : VertexKey) : Prop :=
  ∃ k', L.born k' ∧ k'.graph = k.graph ∧ L.birthday k < L.birthday k' ∧
    ∀ e, e ∈ L.members k → e ∈ L.members k'

def enter (L : Ledger) (k : VertexKey) (members : SortedSet EntityKey) : Ledger where
  born j := L.born j ∨ j = k
  members j := if j = k then members else L.members j
  birthday j := if j = k then L.today else L.birthday j
  today := L.today + 1

theorem members_enter (L : Ledger) (k : VertexKey) (members : SortedSet EntityKey) :
    (L.enter k members).members k = members := if_pos rfl

theorem birthday_enter (L : Ledger) (k : VertexKey) (members : SortedSet EntityKey) :
    (L.enter k members).birthday k = L.today := if_pos rfl

/-- Later entries leave earlier ones alone. -/
structure Grows (L L' : Ledger) : Prop where
  born : ∀ k, L.born k → L'.born k
  members : ∀ k, L.born k → L'.members k = L.members k
  birthday : ∀ k, L.born k → L'.birthday k = L.birthday k

variable {ω : Type} [Weight ω]

/-- A ledger fits a memory: it has the live vertices, and every vertex in it is live or outlived. -/
structure Fits (L : Ledger) (m : Memory ω) : Prop where
  live : ∀ k c, m.store.cluster? k = some c → L.born k ∧ L.members k = c.members
  taken : ∀ k, L.born k → (m.store.graph k.graph).taken k.vertex = true
  early : ∀ k, L.born k → L.birthday k < L.today
  outlived : ∀ k, L.born k → m.store.live k = true ∨ L.Outlived k

theorem Grows.refl (L : Ledger) : L.Grows L := ⟨fun _ h => h, fun _ _ => rfl, fun _ _ => rfl⟩

theorem Grows.trans {L L' L'' : Ledger} (h : L.Grows L') (h' : L'.Grows L'') : L.Grows L'' where
  born k hk := h'.born k (h.born k hk)
  members k hk := (h'.members k (h.born k hk)).trans (h.members k hk)
  birthday k hk := (h'.birthday k (h.born k hk)).trans (h.birthday k hk)

theorem Outlived.grows {L L' : Ledger} {k : VertexKey} (h : L.Outlived k) (hk : L.born k)
    (hL : L.Grows L') : L'.Outlived k := by
  obtain ⟨k', hk', hgraph, hlater, hmembers⟩ := h
  refine ⟨k', hL.born k' hk', hgraph, ?_, ?_⟩
  · rw [hL.birthday k hk, hL.birthday k' hk']
    exact hlater
  · rw [hL.members k hk, hL.members k' hk']
    exact hmembers

theorem grows_enter {L : Ledger} {k : VertexKey} (hk : ¬ L.born k) (members : SortedSet EntityKey) :
    L.Grows (L.enter k members) := by
  have hne (j : VertexKey) (hj : L.born j) : j ≠ k := fun h => hk (h ▸ hj)
  exact ⟨fun j hj => .inl hj, fun j hj => if_neg (hne j hj), fun j hj => if_neg (hne j hj)⟩

variable {L : Ledger} {m m' : Memory ω}

/-- A chain of vertices that outlive each other ends in a live one. -/
theorem Fits.covered (h : L.Fits m) {k : VertexKey} (hk : L.born k) {e : EntityKey}
    (he : e ∈ L.members k) :
    ∃ v c, (m.store.graph k.graph).cluster? v = some c ∧ e ∈ c.members := by
  -- Birthdays grow along the chain and stay below today.
  induction hn : L.today - L.birthday k using Nat.strongRecOn generalizing k with
  | ind n ih =>
    rcases h.outlived k hk with hlive | ⟨k', hk', hgraph, hlater, hmembers⟩
    · obtain ⟨c, hc⟩ := Graph.live_iff.mp hlive
      refine ⟨k.vertex, c, hc, ?_⟩
      rw [← (h.live k c hc).2]
      exact he
    · have htoday := h.early k' hk'
      rw [← hgraph]
      exact ih (L.today - L.birthday k') (by omega) hk' (hmembers e he) rfl

theorem Fits.unborn (h : L.Fits m) {g : GraphId} {v : VertexId}
    (hfree : (m.store.graph g).taken v = false) : ¬ L.born ⟨g, v⟩ := by
  intro hborn
  have htaken := h.taken ⟨g, v⟩ hborn
  rw [hfree] at htaken
  cases htaken

theorem Fits.enter (h : L.Fits m) {g : GraphId} {G : Graph ω} {v : VertexId} {c : Cluster ω}
    (hfree : (m.store.graph g).taken v = false) (hbecomes : m.Becomes g G m')
    (hcluster : ∀ u, G.cluster? u = if v = u then some c else (m.store.graph g).cluster? u)
    (hretired : G.retired = (m.store.graph g).retired) :
    L.Grows (L.enter ⟨g, v⟩ c.members) ∧ (L.enter ⟨g, v⟩ c.members).Fits m' := by
  have hunborn := h.unborn hfree
  have hgrows := grows_enter hunborn c.members
  have hnew : m'.store.cluster? ⟨g, v⟩ = some c := by
    rw [Store.cluster?, hbecomes.graph, hcluster, if_pos rfl]
  -- Nothing changes but the vertex `v` of `g`.
  have hold (k : VertexKey) (hk : k ≠ ⟨g, v⟩) : m'.store.cluster? k = m.store.cluster? k := by
    rw [Store.cluster?, Store.cluster?]
    by_cases hg : g = k.graph
    · rw [← hg, hbecomes.graph, hcluster, if_neg]
      intro hv
      exact hk (VertexKey.eq_of_parts hg.symm hv.symm)
    · rw [hbecomes.other hg]
  have hne (k : VertexKey) (hk : L.born k) : k ≠ ⟨g, v⟩ := fun h => hunborn (h ▸ hk)
  refine ⟨hgrows, ?_, ?_, ?_, ?_⟩
  · intro k c' hk
    by_cases hkv : k = ⟨g, v⟩
    · subst hkv
      rw [hnew] at hk
      cases hk
      exact ⟨.inr rfl, members_enter L _ c.members⟩
    · rw [hold k hkv] at hk
      obtain ⟨hborn, hmembers⟩ := h.live k c' hk
      exact ⟨.inl hborn, (hgrows.members k hborn).trans hmembers⟩
  · intro k hk
    rcases hk with hk | rfl
    · rw [Graph.taken_iff, Graph.live_eq_isSome]
      have htaken := h.taken k hk
      rw [Graph.taken_iff, Graph.live_eq_isSome] at htaken
      have hsame := hold k (hne k hk)
      rw [Store.cluster?, Store.cluster?] at hsame
      rw [hsame]
      by_cases hg : g = k.graph
      · rw [← hg] at htaken ⊢
        rw [hbecomes.graph, hretired]
        exact htaken
      · rw [hbecomes.other hg]
        exact htaken
    · exact Graph.taken_iff.mpr (.inl (Graph.live_iff.mpr ⟨c, hnew⟩))
  · intro k hk
    rcases hk with hk | rfl
    · rw [hgrows.birthday k hk]
      exact Nat.lt_succ_of_lt (h.early k hk)
    · rw [birthday_enter]
      exact Nat.lt_succ_self _
  · intro k hk
    rcases hk with hk | rfl
    · rcases h.outlived k hk with hlive | houtlived
      · left
        obtain ⟨c', hc'⟩ := Graph.live_iff.mp hlive
        exact Graph.live_iff.mpr ⟨c', (hold k (hne k hk)).trans hc'⟩
      · exact .inr (houtlived.grows hk hgrows)
    · exact .inl (Graph.live_iff.mpr ⟨c, hnew⟩)

/-- Calls that leave vertices alone. -/
theorem Fits.congr (h : L.Fits m)
    (hsame : ∀ g, (m'.store.graph g).clusters = (m.store.graph g).clusters ∧
      (m'.store.graph g).retired = (m.store.graph g).retired) : L.Fits m' := by
  have hcluster (k : VertexKey) : m'.store.cluster? k = m.store.cluster? k := by
    rw [Store.cluster?, Graph.cluster?, (hsame k.graph).1]
    rfl
  have hlive (k : VertexKey) : m'.store.live k = m.store.live k := by
    rw [Store.live, Graph.live, (hsame k.graph).1]
    rfl
  refine ⟨fun k c hk => h.live k c (hcluster k ▸ hk), ?_, h.early, ?_⟩
  · intro k hk
    rw [Graph.taken, Graph.live, (hsame k.graph).1, (hsame k.graph).2]
    exact h.taken k hk
  · intro k hk
    rw [hlive]
    exact h.outlived k hk

theorem Fits.remove (h : L.Fits m) {k : VertexKey} (hk : L.Outlived k)
    (hbecomes : m.Becomes k.graph ((m.store.graph k.graph).retire k.vertex) m') : L.Fits m' := by
  have hcluster (j : VertexKey) : m'.store.cluster? j =
      if j = k then none else m.store.cluster? j := by
    rw [Store.cluster?, Store.cluster?]
    by_cases hg : k.graph = j.graph
    · rw [← hg, hbecomes.graph, Graph.cluster?_retire]
      by_cases hv : k.vertex = j.vertex
      · rw [if_pos hv, if_pos (VertexKey.eq_of_parts hg.symm hv.symm)]
      · rw [if_neg hv, if_neg (fun hjk => hv (by rw [hjk]))]
    · rw [hbecomes.other hg, if_neg (fun hjk => hg (by rw [hjk]))]
  refine ⟨?_, ?_, h.early, ?_⟩
  · intro j c hj
    rw [hcluster] at hj
    split at hj
    · cases hj
    · exact h.live j c hj
  · intro j hj
    -- The vertex that is removed stays taken, as a retired one.
    have htaken := h.taken j hj
    rw [Graph.taken_iff, Graph.live_eq_isSome] at htaken ⊢
    have hsame := hcluster j
    rw [Store.cluster?, Store.cluster?] at hsame
    rw [hsame]
    by_cases hg : k.graph = j.graph
    · rw [← hg] at htaken ⊢
      rw [hbecomes.graph, Graph.mem_retired_retire]
      by_cases hjk : j = k
      · exact .inr (.inl (by rw [hjk]))
      · rw [if_neg hjk]
        rcases htaken with hlive | hretired
        · exact .inl hlive
        · exact .inr (.inr hretired)
    · rw [hbecomes.other hg, if_neg (fun hjk => hg (by rw [hjk]))]
      exact htaken
  · intro j hj
    by_cases hjk : j = k
    · exact .inr (hjk ▸ hk)
    · rcases h.outlived j hj with hlive | houtlived
      · left
        obtain ⟨c, hc⟩ := Graph.live_iff.mp hlive
        exact Graph.live_iff.mpr ⟨c, (hcluster j).trans ((if_neg hjk).trans hc)⟩
      · exact .inr houtlived

def Within (L : Ledger) (known : GraphId → EntityKey → Prop) : Prop :=
  ∀ k, L.born k → ∀ e, e ∈ L.members k → known k.graph e

theorem Within.mono {known known' : GraphId → EntityKey → Prop} (h : L.Within known)
    (hknown : ∀ g e, known g e → known' g e) : L.Within known' :=
  fun k hk e he => hknown _ e (h k hk e he)

theorem Within.enter {known : GraphId → EntityKey → Prop} (h : L.Within known) {k : VertexKey}
    {members : SortedSet EntityKey} (hunborn : ¬ L.born k)
    (hmembers : ∀ e, e ∈ members → known k.graph e) : (L.enter k members).Within known := by
  intro j hj e he
  rcases hj with hj | rfl
  · rw [(grows_enter hunborn members).members j hj] at he
    exact h j hj e he
  · rw [members_enter] at he
    exact hmembers e he

/-- What a call leads to: the ledger grows and fits again, new members were known or are asked for,
and the parts of a union are outlived by it. -/
structure Follows (L : Ledger) (m : Memory ω) (c : Call ω) (L' : Ledger) : Prop where
  grows : L.Grows L'
  fits : L'.Fits (c.perform m).2
  within : ∀ known : GraphId → EntityKey → Prop, L.Within known →
    (∀ g e, c = .singleton g e → known g e) → L'.Within known
  merged : ∀ a b w, c = .merge a b w → (∃ k, (c.perform m).1 = .ok k) →
    (L'.born a ∧ L'.Outlived a) ∧ (L'.born b ∧ L'.Outlived b)

theorem Fits.singleton (h : L.Fits m) (g : GraphId) (e : EntityKey) :
    ∃ L', L.Follows m (.singleton g e) L' := by
  have hbecomes : m.Becomes g ((m.store.graph g).ensure (e.singletonId g) e)
      ((Call.singleton g e).perform m).2 := Store.graph_singleton m.store g e
  -- A vertex that is taken is handed out as it is; otherwise it comes to life.
  cases htaken : (m.store.graph g).taken (e.singletonId g) with
  | true =>
    have hsame : (m.store.graph g).ensure (e.singletonId g) e = m.store.graph g := by
      rw [Graph.ensure, if_pos htaken]
    rw [hsame] at hbecomes
    refine ⟨L, .refl L, h.congr fun g' => ?_, fun _ hL _ => hL, ?_⟩
    · by_cases hg : g = g'
      · subst hg
        rw [hbecomes.graph]
        exact ⟨rfl, rfl⟩
      · rw [hbecomes.other hg]
        exact ⟨rfl, rfl⟩
    · intro a b w hc
      cases hc
  | false =>
    have hcluster (u : VertexId) : ((m.store.graph g).ensure (e.singletonId g) e).cluster? u =
        if e.singletonId g = u then some (.singleton e) else (m.store.graph g).cluster? u := by
      rw [Graph.cluster?_ensure, htaken]
      simp
    obtain ⟨hgrows, hfits⟩ := h.enter htaken hbecomes hcluster (Graph.retired_ensure ..)
    refine ⟨_, hgrows, hfits, ?_, ?_⟩
    · intro known hL hknown
      apply hL.enter (h.unborn htaken)
      intro e' he'
      rw [Cluster.mem_singleton] at he'
      exact hknown g e' (he' ▸ rfl)
    · intro a b w hc
      cases hc

theorem Fits.merge (h : L.Fits m) (a b : VertexKey) (w : ω) :
    ∃ L', L.Follows m (.merge a b w) L' := by
  have hperform : (Call.merge a b w).perform m = m.merge a b w := rfl
  rcases hmerge : m.merge a b w with ⟨cause | ⟨g, v⟩, m'⟩
  · have hsame := Memory.merge_error hmerge
    rw [hmerge, hsame] at hperform
    refine ⟨L, .refl L, ?_, fun _ hL _ => hL, ?_⟩
    · rw [hperform]
      exact h
    · intro a' b' w' hc hk
      cases hc
      rw [hperform] at hk
      obtain ⟨k, hk⟩ := hk
      cases hk
  · rw [hmerge] at hperform
    obtain ⟨x, y, hjoins, hstore⟩ := Memory.merge_ok hmerge
    obtain rfl : g = a.graph := hjoins.graph
    have hbecomes : m.Becomes a.graph ((m.store.graph a.graph).adjoin v x y w) m' := by
      intro g'
      rw [hstore]
      exact Store.graph_setGraph _ _ _ g'
    obtain ⟨hgrows, hfits⟩ := h.enter hjoins.free hbecomes (Graph.cluster?_adjoin _ _ _ _ _) rfl
    have hx := h.live a x hjoins.left
    have hy := h.live b y (by rw [Store.cluster?, hjoins.sameGraph]; exact hjoins.right)
    -- The union is born today, which is after the birthdays of its parts.
    have houtlived (j : VertexKey) (hj : L.born j) (hg : j.graph = a.graph)
        (hmembers : ∀ e, e ∈ L.members j → e ∈ (Cluster.merged x y w).members) :
        (L.enter ⟨a.graph, v⟩ (Cluster.merged x y w).members).Outlived j := by
      refine ⟨⟨a.graph, v⟩, .inr rfl, hg.symm, ?_, ?_⟩
      · rw [birthday_enter, hgrows.birthday j hj]
        exact h.early j hj
      · rw [members_enter, hgrows.members j hj]
        exact hmembers
    refine ⟨_, hgrows, ?_, ?_, ?_⟩
    · rw [hperform]
      exact hfits
    · intro known hL _
      apply hL.enter (h.unborn hjoins.free)
      intro e he
      rcases Cluster.mem_merged.mp he with he | he
      · exact hL a hx.1 e (hx.2 ▸ he)
      · rw [← hjoins.sameGraph]
        exact hL b hy.1 e (hy.2 ▸ he)
    · intro a' b' w' hc _
      cases hc
      refine ⟨⟨.inl hx.1, houtlived a hx.1 rfl ?_⟩, .inl hy.1, houtlived b hy.1 hjoins.sameGraph ?_⟩
      · intro e he
        exact Cluster.mem_merged.mpr (.inl (hx.2 ▸ he))
      · intro e he
        exact Cluster.mem_merged.mpr (.inr (hy.2 ▸ he))

theorem Fits.removeVertex (h : L.Fits m) {k : VertexKey} (hk : L.Outlived k) :
    ∃ L', L.Follows m (.removeVertex k) L' := by
  refine ⟨L, .refl L, ?_, fun _ hL _ => hL, nofun⟩
  have hgraph := Store.graph_removeVertex m.store k
  cases hhas : m.store.hasGraph k.graph with
  | true =>
    simp only [hhas, and_true] at hgraph
    exact h.remove hk hgraph
  | false =>
    have hsame : ((Call.removeVertex k).perform m).2.store = m.store := by
      show (m.store.removeVertex k).2 = m.store
      rw [Store.removeVertex, hhas]
      rfl
    apply h.congr
    intro g
    rw [hsame]
    exact ⟨rfl, rfl⟩

/-- Every call that is allowed to who holds licences of outlived vertices only. -/
theorem Fits.call (h : L.Fits m) {held : List VertexKey} (hheld : ∀ k ∈ held, L.Outlived k)
    {c : Call ω} (hc : (licences ω).allows held c) : ∃ L', L.Follows m c L' := by
  cases c with
  | singleton g e => exact h.singleton g e
  | merge a b w => exact h.merge a b w
  | removeVertex k => exact h.removeVertex (hheld k hc)
  | _ =>
    exact ⟨L, .refl L, h.congr (Call.perform_quiet (by exact trivial) m), fun _ hL _ => hL, nofun⟩

end Ledger

end RecordLinkage
