import RecordLinkage.Proofs.Amid.Facts
import RecordLinkage.Proofs.Amid.Rules
import RecordLinkage.Proofs.Drain.Contraction

namespace RecordLinkage

variable {ω : Type} [Weight ω]

namespace Drain

open Program Memory

variable {m : Memory ω} {g : GraphId} {H h h' h₁ : List (Turn ω)} {e : Edge} {t w p : ω}
  {k : VertexKey} {v : VertexId}

/-- How a step ends that others may have interfered with. It has merged an edge that it took for the
lightest, whose ends were live when they were joined and are gone now; or it has removed such an edge
and nothing else, after it has missed one of its ends. -/
inductive Ended (m : Memory ω) (g : GraphId) (h : List (Turn ω)) : Step ω → Prop where
  | done (reason : StopReason ω) : Ended m g h (.done reason)
  | merged {e : Edge} {w : ω} {union : VertexKey} {m' : Memory ω} (relinked : Nat)
    (fetched : m.Fetched g h e w) (made : m.Made h m' (.merge e.src e.dst w))
    (srcLive : m'.store.live e.src = true) (dstLive : m'.store.live e.dst = true)
    (answer : (m'.merge e.src e.dst w).1 = .ok union)
    (srcGone : m.Gone h e.src) (dstGone : m.Gone h e.dst) :
    Ended m g h (.merged ⟨e.src, e.dst, union, w, relinked⟩)
  | stale {e : Edge} {w : ω} {h' : List (Turn ω)} (fetched : m.Fetched g h e w)
    (missed : m.Missed h e w) (spares : ∀ m' c, m.Made h m' c → m'.Spares e (c.perform m').2)
    (last : h = h' ++ [.own (.removeEdge e)]) (absent : (m.afterTurns h).store.weight? e = none) :
    Ended m g h (.stale e)

/-- What a step knows of the edge that it took, as long as it has changed nothing else. -/
structure Holding (m : Memory ω) (h : List (Turn ω)) (e : Edge) (w : ω) : Prop where
  fetched : m.Fetched e.graph h e w
  normal : compare e.link.src e.link.dst = .lt
  lived : m.Lived h e.src ∧ m.Lived h e.dst
  storable : Weight.storable w = true
  spares : ∀ m' c, m.Made h m' c → m'.Spares e (c.perform m').2

theorem Holding.call {c : Call ω} (hold : Holding m h e w) (hcall : m.Calls e.graph H h c h₁)
    (hspares : (m.afterTurns h₁).Spares e (c.perform (m.afterTurns h₁)).2) :
    Holding m (h₁ ++ [.own c]) e w where
  fetched := hold.fetched.mono hcall.after
  normal := hold.normal
  lived := hold.lived.imp (·.mono hcall.after) (·.mono hcall.after)
  storable := hold.storable
  spares m' c' hmade := by
    rcases hcall.made_iff.mp hmade with hbefore | ⟨rfl, rfl⟩
    · exact hold.spares m' c' hbefore
    · exact hspares

theorem stale_withstands (hold : Holding m h e w) (hmissed : m.Missed h e w) :
    (do discard (removeEdge e); return .stale e : Program ω (Step ω)).Withstands m e.graph H
      (Ended m e.graph) h := by
  refine (withstands_discard (c := .removeEdge e) trivial).bind fun h' _ hgrown hlast =>
    withstands_pure ?_
  obtain ⟨h₁, hcall, rfl⟩ := hlast
  have hend := hold.call hcall (spares_removeEdge e _)
  obtain ⟨m', k, hk, hdead, hmade⟩ := hmissed
  refine .stale hend.fetched ⟨m', k, hk, hdead, hmade.imp (·.mono hgrown) (·.mono hgrown)⟩
    hend.spares rfl ?_
  rw [afterTurns_own]
  exact (Store.weight?_removeEdge _ e e).trans (if_pos rfl)

/-- Looking an end up is either a sight of it or a miss. -/
theorem live_withstands (hold : Holding m h e w) (hk : k = e.src ∨ k = e.dst) :
    (live k : Program ω Bool).Withstands m e.graph H
      (fun h' b => Holding m h' e w ∧ (b = false → m.Missed h' e w)) h := by
  refine (withstands_sure (c := .cluster k) trivial).bind fun h' (x : Option (Cluster ω)) _ hanswer =>
    withstands_pure ?_
  obtain ⟨h₁, hcall, rfl, ha⟩ := hanswer
  refine ⟨hold.call hcall (.refl e _), fun hnone => ?_⟩
  refine ⟨m.afterTurns h₁, k, hk, ?_, .inl (hcall.made_iff.mpr (.inr ⟨rfl, rfl⟩))⟩
  cases ha
  rw [Store.live_eq_isSome]
  exact hnone

/-- Of two readings of the sides of a vertex, one gave the weight that is taken. -/
theorem eq_or_of_nearer [LawfulWeight ω] {a b : Option ω}
    (ha : ∀ x, a = some x → Weight.storable x = true)
    (hb : ∀ x, b = some x → Weight.storable x = true) (hp : nearer a b = some p) :
    a = some p ∨ b = some p := by
  cases a with
  | none => exact .inr hp
  | some x =>
    cases b with
    | none => exact .inl hp
    | some y =>
      cases hp
      rcases Weight.min_eq_or (Weight.number_of_storable (ha x rfl))
          (Weight.number_of_storable (hb y rfl)) with hmin | hmin <;> rw [hmin]
      · exact .inl rfl
      · exact .inr rfl

/-- What a step may rely on when it links the union of `e` to a vertex that it was told of. -/
structure Near (m : Memory ω) (h : List (Turn ω)) (e : Edge) (w : ω) (v : VertexId) (p : ω) :
    Prop where
  lived : m.Lived h ⟨e.graph, v⟩
  storable : Weight.storable p = true
  sum : v ≠ e.link.src → v ≠ e.link.dst → Weight.finite (Weight.add p w) = true

theorem Near.mono (hnear : Near m h e w v p) (hgrown : h <+: h') : Near m h' e w v p :=
  ⟨hnear.lived.mono hgrown, hnear.storable, hnear.sum⟩

theorem near_of_tells {c : Call ω} (hm : m.Sound) (hcall : m.Calls e.graph H h c h₁)
    (hhome : c.home = e.graph)
    (hsums : ∀ v p, m.Told H v p → v ≠ e.link.src → v ≠ e.link.dst →
      Weight.finite (Weight.add p w) = true)
    (hp : (v, p) ∈ c.tells (m.afterTurns h₁)) : Near m (h₁ ++ [.own c]) e w v p := by
  have huse := hcall.inUse
  rw [← hhome] at huse
  obtain ⟨hlived, hstorable⟩ := lived_of_tells hm huse hp
  rw [hhome] at hlived
  exact ⟨hlived.mono (List.prefix_append h₁ _), hstorable, hsums v p ⟨_, c, hcall.made, hp⟩⟩

/-- The two sides of an end are read at different times. -/
theorem neighbors_withstands [LawfulWeight ω] (hm : m.Sound)
    (hsums : ∀ v p, m.Told H v p → v ≠ e.link.src → v ≠ e.link.dst →
      Weight.finite (Weight.add p w) = true) (hold : Holding m h e w) (hk : k.graph = e.graph) :
    (neighbors k : Program ω _).Withstands m e.graph H (fun h' N => Holding m h' e w ∧
      ∀ v p, SortedMap.get? N v = some p → v ≠ k.vertex ∧ Near m h' e w v p) h := by
  refine (withstands_sure (c := .destinations k) trivial).bind
    fun h' (D : SortedMap VertexId ω) _ hanswer => ?_
  obtain ⟨h₁, hcall, rfl, hD⟩ := hanswer
  have hnearD (v : VertexId) (p : ω) (hp : SortedMap.get? D v = some p) :
      Near m (h₁ ++ [.own (.destinations k)]) e w v p := by
    cases hD
    exact near_of_tells hm hcall hk hsums (SortedMap.mem_toList.mpr hp)
  have hold₁ := hold.call hcall (.refl e _)
  refine (withstands_sure (c := .sources k) trivial).bind
    fun h'' (S : SortedMap VertexId ω) hgrown hanswer => withstands_pure ?_
  -- Others may act between the two readings, so each side is near by what its own call told.
  obtain ⟨h₂, hcall₂, rfl, hS⟩ := hanswer
  have hnearS (v : VertexId) (p : ω) (hp : SortedMap.get? S v = some p) :
      Near m (h₂ ++ [.own (.sources k)]) e w v p := by
    cases hS
    exact near_of_tells hm hcall₂ hk hsums (SortedMap.mem_toList.mpr hp)
  refine ⟨hold₁.call hcall₂ (.refl e _), fun v p hp => ?_⟩
  rw [get?_joinSides] at hp
  split at hp
  · cases hp
  · rename_i hne
    refine ⟨Ne.symm hne, ?_⟩
    rcases eq_or_of_nearer (fun x hx => (hnearD v x hx).storable)
        (fun x hx => (hnearS v x hx).storable) hp with hside | hside
    · exact (hnearD v p hside).mono hgrown
    · exact hnearS v p hside

/-- Linking the union to vertices that were live. -/
theorem putLinks_withstands {k : VertexId} {links : List (VertexId × ω)} (hk : m.Lived h ⟨g, k⟩)
    (hlinks : ∀ p ∈ links, k ≠ p.1 ∧ m.Lived h ⟨g, p.1⟩ ∧ Weight.storable p.2 = true) :
    (links.forM fun p => do putEdge (← edgeWithin g k p.1) p.2 : Program ω Unit).Withstands m g H
      (fun _ _ => True) h := by
  refine withstands_forM fun p hp h' hgrown => ?_
  obtain ⟨hne, hlived, hstorable⟩ := hlinks p hp
  obtain ⟨l, hl⟩ := Link.exists_between? hne
  obtain ⟨hnormal, hends⟩ := Link.between?_spec hl
  rw [edgeWithin_eq hl, pure_bind]
  refine withstands_call fun h₁ hcall => ⟨hcall.inUse.own fun l' w' hput => ?_, ?_⟩
  · cases hput
    have hthen := hgrown.trans hcall.before
    refine ⟨hnormal, ?_⟩
    rcases hends with ⟨hsrc, hdst⟩ | ⟨hsrc, hdst⟩ <;> rw [hsrc, hdst]
    · exact ⟨hk.mono hthen, hlived.mono hthen⟩
    · exact ⟨hlived.mono hthen, hk.mono hthen⟩
  · rw [Call.perform, (Store.putEdge_eq_ok (e := ⟨g, l⟩)).mpr ⟨hstorable, rfl⟩]
    exact ⟨(), rfl, trivial⟩

theorem unlink_withstands {others : List VertexId} (hothers : ∀ u ∈ others, v ≠ u) :
    (unlink g v others : Program ω Unit).Withstands m g H (fun _ _ => True) h := by
  refine withstands_forM fun u hu h' _ => ?_
  obtain ⟨l, hl⟩ := Link.exists_between? (hothers u hu)
  rw [edgeWithin_eq hl, pure_bind]
  exact (withstands_discard (c := .removeEdge ⟨g, l⟩) trivial).bind fun _ _ _ _ =>
    withstands_pure trivial

/-- Whatever the others do to them, the parts of a union are gone in the end. -/
theorem replaceParts_withstands {k : VertexId} {links fromA fromB : SortedMap VertexId ω}
    (hsrc : m.Lived h e.src) (hdst : m.Lived h e.dst) (hk : m.Lived h ⟨e.graph, k⟩)
    (hlinks : ∀ p ∈ links.toList,
      k ≠ p.1 ∧ m.Lived h ⟨e.graph, p.1⟩ ∧ Weight.storable p.2 = true)
    (hA : ∀ u ∈ SortedMap.keys fromA, e.link.src ≠ u)
    (hB : ∀ u ∈ SortedMap.keys fromB, e.link.dst ≠ u) :
    (replaceParts e k links fromA fromB).Withstands m e.graph H
      (fun h' _ => m.Gone h' e.src ∧ m.Gone h' e.dst) h := by
  refine (putLinks_withstands hk hlinks).bind fun h₁ _ hone _ => ?_
  refine (unlink_withstands hA).bind fun h₂ _ htwo _ => ?_
  refine (unlink_withstands hB).bind fun h₃ _ hthree _ => ?_
  refine (withstands_discard (c := .removeEdge e) trivial).bind fun h₄ _ hfour _ => ?_
  have hthen : h <+: h₄ := ((hone.trans htwo).trans hthree).trans hfour
  refine (withstands_discard (c := .removeVertex e.src) trivial).bind fun h₅ _ hfive hfirst => ?_
  obtain ⟨h₆, hcall, rfl⟩ := hfirst
  have hgone := Gone.removed (hsrc.mono (hthen.trans hcall.before)) hcall.inUse.uncleared
  refine (withstands_discard (c := .removeVertex e.dst) trivial).bind fun h₇ _ hseven hlast =>
    withstands_pure ?_
  obtain ⟨h₈, hcall', rfl⟩ := hlast
  have hkeep := Turn.uncleared_own hcall'.inUse.uncleared (.removeVertex e.dst)
  refine ⟨hgone.mono hseven hkeep, ?_⟩
  have hall := ((hthen.trans hfive).trans hcall'.before)
  exact Gone.removed (hdst.mono hall) hcall'.inUse.uncleared

def Bystanders (m : Memory ω) (h : List (Turn ω)) (e : Edge) (w : ω) (N : SortedMap VertexId ω) :
    Prop :=
  ∀ v p, SortedMap.get? N v = some p → v ≠ e.link.src ∧ v ≠ e.link.dst ∧ Near m h e w v p

/-- The links of a union lead to bystanders, at weights that are stored. -/
theorem relinked_bystanders [LawfulWeight ω] {A B : SortedMap VertexId ω}
    (hw : Weight.storable w = true) (hA : Bystanders m h e w A) (hB : Bystanders m h e w B) :
    ∀ p ∈ (relinked A B w).toList, m.Lived h ⟨e.graph, p.1⟩ ∧ Weight.storable p.2 = true := by
  intro p hp
  have hlink := SortedMap.mem_toList.mp hp
  rw [get?_relinked] at hlink
  have hside {N : SortedMap VertexId ω} (hN : Bystanders m h e w N) (q : ω)
      (hq : SortedMap.get? N p.1 = some q) :
      Weight.storable q = true ∧ Weight.finite (Weight.add q w) = true := by
    obtain ⟨hsrc, hdst, hnear⟩ := hN _ _ hq
    exact ⟨hnear.storable, hnear.sum hsrc hdst⟩
  refine ⟨?_, Weight.storable_linkage hw (hside hA) (hside hB) hlink⟩
  have hsome := (isSome_linkage _ _ w).mp (Option.isSome_of_mem hlink)
  rcases hsome with hsome | hsome <;> obtain ⟨q, hq⟩ := Option.isSome_iff_exists.mp hsome
  · exact (hA _ _ hq).2.2.lived
  · exact (hB _ _ hq).2.2.lived

theorem Bystanders.mono {N : SortedMap VertexId ω} (hN : Bystanders m h e w N)
    (hgrown : h <+: h') : Bystanders m h' e w N := by
  intro v p hp
  obtain ⟨hsrc, hdst, hnear⟩ := hN v p hp
  exact ⟨hsrc, hdst, hnear.mono hgrown⟩

theorem bystanders_erase {N : SortedMap VertexId ω} {u : VertexId}
    (hends : v = e.link.src ∧ u = e.link.dst ∨ v = e.link.dst ∧ u = e.link.src)
    (hN : ∀ v' p, SortedMap.get? N v' = some p → v' ≠ v ∧ Near m h e w v' p) :
    Bystanders m h e w (N.erase u) := by
  intro v' p hp
  rw [SortedMap.get?_erase] at hp
  split at hp
  · cases hp
  · rename_i hne
    obtain ⟨hv, hnear⟩ := hN v' p hp
    rcases hends with ⟨rfl, rfl⟩ | ⟨rfl, rfl⟩
    · exact ⟨hv, Ne.symm hne, hnear⟩
    · exact ⟨Ne.symm hne, hv, hnear⟩

/-- Once the union is made, it is linked and its parts go, whatever others do. -/
theorem joined_withstands [LawfulWeight ω] {A B : SortedMap VertexId ω} {union : VertexKey}
    {m₁ : Memory ω} (hold : Holding m h e w) (hcall : m.Calls e.graph H h (.merge e.src e.dst w) h₁)
    (hA : Bystanders m h₁ e w A) (hB : Bystanders m h₁ e w B)
    (hmerge : (m.afterTurns h₁).merge e.src e.dst w = (.ok union, m₁)) :
    (do
      replaceParts e union.vertex (relinked A B w) A B
      return .merged ⟨e.src, e.dst, union, w, (relinked A B w).size⟩ :
        Program ω (Step ω)).Withstands m e.graph H (Ended m e.graph)
      (h₁ ++ [.own (.merge e.src e.dst w)]) := by
  obtain ⟨x, y, hjoins, hstore⟩ := merge_ok hmerge
  have hgrown : h₁ <+: h₁ ++ [.own (.merge e.src e.dst w)] := List.prefix_append h₁ _
  have hborn : m.Lived (h₁ ++ [.own (.merge e.src e.dst w)]) ⟨e.graph, union.vertex⟩ := by
    have hperform : Call.perform (.merge e.src e.dst w) (m.afterTurns h₁) = (.ok union, m₁) := hmerge
    have hgraph : m₁.store.graph e.graph = _ :=
      (congrArg (Store.graph · e.graph) hstore).trans (Store.graph_setGraph ..)
    refine .now ?_
    rw [afterTurns_own, hperform, Store.live, hgraph, if_pos (show e.src.graph = e.graph from rfl)]
    exact (Graph.live_adjoin ..).mpr (.inl rfl)
  refine (replaceParts_withstands (hold.lived.1.mono hcall.after) (hold.lived.2.mono hcall.after)
    hborn ?_ ?_ ?_).bind fun h₂ _ htwo hgone => withstands_pure ?_
  · intro p hp
    obtain ⟨hlived, hstorable⟩ := relinked_bystanders hold.storable hA hB p hp
    refine ⟨?_, hlived.mono hgrown, hstorable⟩
    -- What was live at some time is taken, and the union has got a key that was not.
    intro hsame
    rw [← hsame] at hlived
    cases hjoins.free.symm.trans (hlived.taken hcall.inUse.uncleared)
  · intro u hu
    obtain ⟨q, hq⟩ := Option.isSome_iff_exists.mp (SortedMap.mem_keys.mp hu)
    exact (hA u q hq).1.symm
  · intro u hu
    obtain ⟨q, hq⟩ := Option.isSome_iff_exists.mp (SortedMap.mem_keys.mp hu)
    exact (hB u q hq).2.1.symm
  · have hmade := (hcall.made_iff.mpr (.inr ⟨rfl, rfl⟩)).mono htwo
    exact .merged _ ((hold.fetched.mono hcall.after).mono htwo) hmade
      (Graph.live_iff.mpr ⟨x, hjoins.left⟩) (Graph.live_iff.mpr ⟨y, hjoins.right⟩)
      (congrArg Prod.fst hmerge) hgone.1 hgone.2

/-- Joining the ends of an edge succeeds, or one of them was missed. -/
theorem merge_withstands [LawfulWeight ω] (hm : m.Sound)
    (hfed : ∀ m' c, m.Made H m' c → c.starved m' = false)
    (hsums : ∀ v p, m.Told H v p → v ≠ e.link.src → v ≠ e.link.dst →
      Weight.finite (Weight.add p w) = true) (hold : Holding m h e w) :
    (merge e w).Withstands m e.graph H (Ended m e.graph) h := by
  refine (neighbors_withstands hm hsums hold rfl).bind fun h₁ A _ hA => ?_
  obtain ⟨hold₁, hA⟩ := hA
  refine (neighbors_withstands hm hsums hold₁ rfl).bind fun h₂ B htwo hB => ?_
  obtain ⟨hold₂, hB⟩ := hB
  have hfromA := (bystanders_erase (.inl ⟨rfl, rfl⟩) hA).mono htwo
  have hfromB := bystanders_erase (.inr ⟨rfl, rfl⟩) hB
  intro h₃ hcall
  refine ⟨hcall.inUse.own (fun _ _ hput => by cases hput), ?_⟩
  -- The ends may have gone since they were looked up; then the merge is refused for that.
  rcases hmerge : (m.afterTurns h₃).merge e.src e.dst w with ⟨cause | union, m₁⟩
  · obtain ⟨k, rfl⟩ := merge_ends_error hold₂.storable (SortKey.ne_of_lt hold₂.normal)
      (hfed _ _ hcall.made) hmerge
    obtain rfl := merge_error hmerge
    have hperform : Call.perform (.merge e.src e.dst w) (m.afterTurns h₃) =
        (.error (.vertexNotFound k), m.afterTurns h₃) := hmerge
    have hspares := Spares.refl e (m.afterTurns h₃)
    have hmade := hcall.made_iff.mpr (.inr ⟨rfl, rfl⟩)
    rw [hperform]
    refine stale_withstands (hold₂.call hcall (by rw [hperform]; exact hspares)) ?_
    rcases merge_vertexNotFound hmerge with hnone | hnone
    · refine ⟨_, e.src, .inl rfl, ?_, .inr hmade⟩
      rw [Store.live_eq_isSome, hnone, Option.isSome_none]
    · refine ⟨_, e.dst, .inr rfl, ?_, .inr hmade⟩
      rw [Store.live_eq_isSome, hnone, Option.isSome_none]
  · have hperform : Call.perform (.merge e.src e.dst w) (m.afterTurns h₃) = (.ok union, m₁) := hmerge
    rw [hperform]
    exact joined_withstands hold₂ hcall (hfromA.mono hcall.before) (hfromB.mono hcall.before) hmerge

/-- The lightest edge of a graph in use is one that a step can hold. -/
theorem holding_of_lightest (hm : m.Sound) (hcall : m.Calls e.graph H h (.lightest e.graph) h₁)
    (hfirst : ∀ m' c, ¬ m.Made h m' c)
    (hlightest : (m.afterTurns h₁).store.lightest? e.graph = some (e, w)) :
    Holding m (h₁ ++ [.own (.lightest e.graph)]) e w := by
  have hsound := afterTurns_sound hm h₁ e.graph
  have hl := (hsound.toCoherent.lightest (lightest?_edges hlightest)).1
  have hgrown : h₁ <+: h₁ ++ [.own (.lightest e.graph)] := List.prefix_append h₁ _
  obtain ⟨hsrc, hdst⟩ := hcall.inUse.lived _ _ hl
  exact {
    fetched := ⟨_, hcall.made_iff.mpr (.inr ⟨rfl, rfl⟩), hlightest⟩
    normal := hcall.inUse.normal _ _ hl
    lived := ⟨hsrc.mono hgrown, hdst.mono hgrown⟩
    storable := hsound.storable _ _ hl
    spares := fun m' c hmade => by
      rcases hcall.made_iff.mp hmade with hbefore | ⟨rfl, rfl⟩
      · exact absurd hbefore (hfirst m' c)
      · exact .refl e _ }

theorem step_withstands [LawfulWeight ω] (hm : m.Sound) (ht : Weight.bounding t = true)
    (hfirst : ∀ m' c, ¬ m.Made h m' c) (hfed : ∀ m' c, m.Made H m' c → c.starved m' = false)
    (hsums : ∀ e w v p, m.Fetched g H e w → m.Told H v p → v ≠ e.link.src → v ≠ e.link.dst →
      Weight.finite (Weight.add p w) = true) :
    (step g t).Withstands m g H (Ended m g) h := by
  unfold step
  rw [checkThreshold, if_pos ht, pure_bind]
  refine (withstands_sure (c := .lightest g) trivial).bind
    fun h' (found : Option (Edge × ω)) _ hanswer => ?_
  obtain ⟨h₁, hcall, rfl, ha⟩ := hanswer
  have hlightest : (m.afterTurns h₁).store.lightest? g = found := Except.ok.inj ha
  cases found with
  | none => exact withstands_pure (.done _)
  | some p =>
    obtain ⟨e, w⟩ := p
    obtain rfl := lightest?_graph hlightest
    have hold := holding_of_lightest hm hcall hfirst hlightest
    have hsum := fun v p => hsums e w v p (hold.fetched.mono hcall.within)
    dsimp only
    split
    · exact withstands_pure (.done _)
    · refine (live_withstands hold (.inl rfl)).bind fun h₂ srcLive _ hsrc => ?_
      obtain ⟨hold₂, hsrc⟩ := hsrc
      cases srcLive with
      | false => exact stale_withstands hold₂ (hsrc rfl)
      | true =>
        refine (live_withstands hold₂ (.inr rfl)).bind fun h₃ dstLive _ hdst => ?_
        obtain ⟨hold₃, hdst⟩ := hdst
        cases dstLive with
        | false => exact stale_withstands hold₃ (hdst rfl)
        | true => exact merge_withstands hm hfed hsum hold₃

end Drain

open Memory Drain

/-- A step tolerates interference. All edges of a graph are in normal form and join vertices that
were live at some time, and between the calls of the step others make any requests that keep this so
and do not clear the graph. As long as the weights that the step adds have finite sums and there are
identifiers, it does not fail. If it merges, both ends were live when they were joined, and they are
gone. If it reports a stale edge, it has missed an end, has changed nothing but that edge, and has
removed it with its last call.

The past begins with any memory `m`, such as the one that the last clearing of the graph left: what
was live before a clearing is forgotten with the graph. -/
theorem step_tolerates_interference [LawfulWeight ω] {m : Memory ω} (hm : m.Sound) {g : GraphId}
    {t : ω} (ht : Weight.bounding t = true) (past : List (Request ω)) (hpast : .clear g ∉ past)
    (others : Nat → List (Request ω)) :
    let before := past.map Turn.other
    let run := (step g t).amid others 0 (m.afterTurns before)
    let h := before ++ run.2
    m.Proper g before →
    (∀ h₁ r, before <+: h₁ → h₁ ++ [.other r] <+: h →
      r ≠ .clear g ∧ (m.Proper g h₁ → m.Proper g (h₁ ++ [.other r]))) →
    (∀ m' c, m.Made h m' c → c.starved m' = false) →
    (∀ e w v p, m.Fetched g h e w → m.Told h v p → v ≠ e.link.src → v ≠ e.link.dst →
      Weight.finite (Weight.add p w) = true) →
    ∃ s, run.1 = .ok s ∧ Ended m g h s := by
  intro before run h hproper hothers hfed hsums
  have hbefore : before.map Turn.request = past := by
    rw [List.map_map]
    exact List.map_id past
  have huse : m.InUse g before := ⟨hproper, hbefore ▸ hpast⟩
  have hfirst : ∀ m' c, ¬ m.Made before m' c := by
    intro m' c hmade
    obtain ⟨early, hearly, -⟩ := made_others (h := []) hmade
    simp at hearly
  -- The rules hold for the step alone; what is left is that others keep the graph in use.
  refine (step_withstands hm ht hfirst hfed hsums).amid huse rfl ?_
  intro h₁ r hearly hlate huse₁
  obtain ⟨hkeep, hproper₁⟩ := hothers h₁ r hearly hlate
  refine ⟨hproper₁ huse₁.toProper, ?_⟩
  rw [List.map_append, List.mem_append]
  rintro (hclear | hclear)
  · exact huse₁.uncleared hclear
  · exact hkeep (List.mem_singleton.mp hclear).symm

/-- The other end of the lightest edge is removed right before the eighth call of a step. -/
def lateRemoval (n : Nat) : List (Request Binary64) :=
  if n = 7 then [.call (.removeVertex ⟨⟨⟨1⟩⟩, ⟨⟨2⟩⟩⟩)] else []

/-- That call would have joined the ends; the edge is stale now. -/
theorem lateRemoval_leaves_stale :
    let e : Edge := ⟨⟨⟨1⟩⟩, ⟨⟨⟨1⟩⟩, ⟨⟨2⟩⟩⟩⟩
    let run := (step ⟨⟨1⟩⟩ defaultThreshold).amid lateRemoval 0 unevenPathReady
    unevenPathReady.Sound ∧ Weight.bounding defaultThreshold = true ∧
      unevenPathReady.Proper ⟨⟨1⟩⟩ [] ∧ run.1 = .ok (.stale e) ∧
      Ended unevenPathReady ⟨⟨1⟩⟩ run.2 (.stale e) := by
  intro e run
  have hgraph : unevenPathReady.store.graph ⟨⟨1⟩⟩ = unevenPath := by
    rw [unevenPathReady, Store.graph_setGraph, if_pos rfl]
  have hsound : unevenPathReady.Sound := Memory.sound_ofGraph unevenPath_intact
  have ht : Weight.bounding defaultThreshold = true := by decide +kernel
  have hproper : unevenPathReady.Proper ⟨⟨1⟩⟩ [] := by
    refine ⟨fun l w hl => ?_, fun l w hl => ?_⟩ <;> rw [afterTurns_nil, hgraph] at hl
    · exact unevenPath_intact.normal l w hl
    · obtain ⟨hsrc, hdst⟩ := unevenPath_intact.live l w hl
      rw [← hgraph] at hsrc hdst
      exact ⟨.now hsrc, .now hdst⟩
  have hothers : ∀ r, Turn.other r ∈ run.2 → r = .call (.removeVertex ⟨⟨⟨1⟩⟩, ⟨⟨2⟩⟩⟩) := by
    intro r hr
    obtain ⟨n, hn⟩ := Program.mem_amid hr
    rw [lateRemoval] at hn
    split at hn
    · exact List.mem_singleton.mp hn
    · cases hn
  have hfed : ∀ m' c, unevenPathReady.Made run.2 m' c → (!c.starved m') = true :=
    forall_made (by decide +kernel)
  have hfetched : ∀ m' c, unevenPathReady.Made run.2 m' c → decide (c = .lightest ⟨⟨1⟩⟩ →
      m'.store.lightest? ⟨⟨1⟩⟩ = some (e, .ofDecimal false ⟨3, -2⟩)) = true :=
    forall_made (by decide +kernel)
  have htold : ∀ m' c, unevenPathReady.Made run.2 m' c → ((c.tells m').all fun q =>
      Weight.finite (Weight.add q.2 (.ofDecimal false ⟨3, -2⟩))) = true :=
    forall_made (by decide +kernel)
  have hend : run.1 = .ok (.stale e) := by decide +kernel
  have hkeep : ∀ h₁ r, [] <+: h₁ → h₁ ++ [.other r] <+: run.2 → r ≠ .clear ⟨⟨1⟩⟩ ∧
      (unevenPathReady.Proper ⟨⟨1⟩⟩ h₁ → unevenPathReady.Proper ⟨⟨1⟩⟩ (h₁ ++ [.other r])) := by
    intro h₁ r _ hlate
    obtain rfl := hothers r (hlate.subset (List.mem_append_right h₁ (List.mem_singleton.mpr rfl)))
    refine ⟨fun hclear => ?_, fun hproper₁ => hproper₁.snoc fun l w hput => ?_⟩
    · cases hclear
    · cases hput
  have hsums : ∀ e w v p, unevenPathReady.Fetched ⟨⟨1⟩⟩ run.2 e w → unevenPathReady.Told run.2 v p →
      v ≠ e.link.src → v ≠ e.link.dst → Weight.finite (Weight.add p w) = true := by
    intro e' w v p hfetch htells _ _
    obtain ⟨m₁, hmade, hlightest⟩ := hfetch
    have hw := of_decide_eq_true (hfetched m₁ _ hmade) rfl
    have hsame := (Prod.mk.inj (Option.some.inj (hlightest.symm.trans hw))).2
    obtain ⟨m₂, c, hmade₂, hp⟩ := htells
    rw [hsame]
    exact List.all_eq_true.mp (htold m₂ c hmade₂) (v, p) hp
  have hall := step_tolerates_interference hsound (g := ⟨⟨1⟩⟩) ht [] List.not_mem_nil lateRemoval
  simp only [List.map_nil, List.nil_append, afterTurns_nil] at hall
  obtain ⟨s, hs, hended⟩ := hall hproper hkeep
    (fun m' c hmade => by simpa using hfed m' c hmade) hsums
  obtain rfl := Outcome.ok.inj (hend.symm.trans hs)
  exact ⟨hsound, ht, hproper, hend, hended⟩

end RecordLinkage
