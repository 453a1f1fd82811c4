import RecordLinkage.Proofs.Graph.Partition
import RecordLinkage.Proofs.Pipeline.Operation
import RecordLinkage.Proofs.Store.Lifetime

namespace RecordLinkage

variable {ω : Type} [Weight ω]

namespace Graph

variable {G : Graph ω} {g : GraphId} {P Q : EntityKey → Prop} {v : VertexId}

/-- A live vertex has a name that was drawn at random, or it is the singleton of an entity that
bears its name. -/
def Named (g : GraphId) (P : EntityKey → Prop) (G : Graph ω) : Prop :=
  ∀ v c, G.cluster? v = some c →
    v.uuid.version = 4 ∨ ∃ e, P e ∧ v = e.singletonId g ∧ c = .singleton e

theorem Named.empty : (∅ : Graph ω).Named g P := nofun

theorem Named.mono (h : G.Named g P) (hPQ : ∀ e, P e → Q e) : G.Named g Q := by
  intro v c hv
  rcases h v c hv with hdrawn | ⟨e, he, hname⟩
  · exact .inl hdrawn
  · exact .inr ⟨e, hPQ e he, hname⟩

theorem Named.ensure (h : G.Named g P) {e : EntityKey} (he : P e) :
    (G.ensure (e.singletonId g) e).Named g P := by
  intro v c hv
  rw [cluster?_ensure] at hv
  split at hv
  · rename_i hnew
    cases hv
    exact .inr ⟨e, he, hnew.2.symm, rfl⟩
  · exact h v c hv

theorem Named.adjoin (h : G.Named g P) (hv : v.uuid.version = 4) (x y : Cluster ω) (w : ω) :
    (G.adjoin v x y w).Named g P := by
  intro u c hu
  rw [cluster?_adjoin] at hu
  split at hu
  · rename_i hsame
    exact .inl (hsame ▸ hv)
  · exact h u c hu

theorem Named.retire (h : G.Named g P) (v : VertexId) : (G.retire v).Named g P := by
  intro u c hu
  rw [cluster?_retire] at hu
  split at hu
  · cases hu
  · exact h u c hu

theorem Named.singleton (h : G.Named g P) {e : EntityKey} {c : Cluster ω}
    (hc : G.cluster? (e.singletonId g) = some c) :
    ∃ e', P e' ∧ e.singletonId g = e'.singletonId g ∧ c = .singleton e' := by
  refine (h _ c hc).resolve_left ?_
  rw [e.version_singletonId]
  decide

end Graph

namespace Memory

variable {m m' : Memory ω} {a b k : VertexKey} {w : ω}

/-- No entity bears the name of a union, whether it was asked for or not. -/
theorem merge_ne_singleton (h : m.merge a b w = (.ok k, m')) (g : GraphId) (e : EntityKey) :
    k ≠ ⟨g, e.singletonId g⟩ := by
  obtain ⟨x, y, hjoins, -⟩ := merge_ok h
  rintro rfl
  have hversion := hjoins.version
  rw [e.version_singletonId] at hversion
  cases hversion

/-- So a union takes no vertex of an entity away. -/
theorem cluster?_merge (h : m.merge a b w = (.ok k, m')) (g : GraphId) (e : EntityKey) :
    m'.store.cluster? ⟨g, e.singletonId g⟩ = m.store.cluster? ⟨g, e.singletonId g⟩ := by
  have hne := merge_ne_singleton h g e
  obtain ⟨x, y, hjoins, hstore⟩ := merge_ok h
  rw [hstore, Store.cluster?, Store.graph_setGraph]
  split
  · rename_i hg
    have hg : a.graph = g := hg
    subst hg
    rw [Graph.cluster?_adjoin, if_neg]
    · rfl
    · intro hv
      exact hne (VertexKey.eq_of_parts hjoins.graph hv)
  · rfl

end Memory

namespace Request

variable {m : Memory ω} {g : GraphId} {e : EntityKey} {r : Request ω} {rs : List (Request ω)}

def asked (rs : List (Request ω)) : List (GraphId × EntityKey) :=
  rs.filterMap fun
    | .call (.singleton g e) => some (g, e)
    | _ => none

omit [Weight ω] in
theorem mem_asked : (g, e) ∈ asked rs ↔ .call (.singleton g e) ∈ rs := by
  rw [asked, List.mem_filterMap]
  constructor
  · intro h
    obtain ⟨r, hr, hsome⟩ := h
    split at hsome
    · cases hsome
      exact hr
    · cases hsome
  · exact fun h => ⟨_, h, rfl⟩

/-- Different entities that were asked for in one graph are named differently there. -/
def NamesApart (rs : List (Request ω)) : Prop :=
  ∀ p ∈ asked rs, ∀ q ∈ asked rs, p.1 = q.1 → p.2.singletonId p.1 = q.2.singletonId q.1 → p.2 = q.2

instance (rs : List (Request ω)) : Decidable (NamesApart rs) :=
  inferInstanceAs (Decidable (∀ p ∈ asked rs, ∀ q ∈ asked rs, p.1 = q.1 →
    p.2.singletonId p.1 = q.2.singletonId q.1 → p.2 = q.2))

/-- A request keeps the names of a graph in order if it asks for no other singleton. -/
theorem named_after {P : EntityKey → Prop} (h : (m.store.graph g).Named g P)
    (hr : ∀ e, r = .call (.singleton g e) → P e) : ((after m r).store.graph g).Named g P := by
  by_cases hmerge : ∃ a b w, r = .call (.merge a b w)
  · -- The names of unions are random.
    obtain ⟨a, b, w, rfl⟩ := hmerge
    simp only [after, perform, Call.perform]
    rcases hrun : m.merge a b w with ⟨cause | k, m'⟩
    · rwa [Memory.merge_error hrun]
    · obtain ⟨x, y, hjoins, hstore⟩ := Memory.merge_ok hrun
      rw [hstore, Store.graph_setGraph]
      split
      · rename_i hg
        subst hg
        exact h.adjoin hjoins.version x y w
      · exact h
  · have hchange := changes_after m r g
    generalize (after m r).store.graph g = G' at hchange
    cases hchange with
    | kept => exact h
    | ensured e => exact h.ensure (hr e rfl)
    | adjoined => exact absurd ⟨_, _, _, rfl⟩ hmerge
    | retired v => exact h.retire v
    | linked | unlinked => exact h
    | cleared => exact .empty

theorem named_run {P : EntityKey → Prop} (h : (m.store.graph g).Named g P)
    (hrs : ∀ e, .call (.singleton g e) ∈ rs → P e) : ((run m rs).store.graph g).Named g P := by
  induction rs generalizing m with
  | nil => exact h
  | cons r rs ih =>
    apply ih
    · apply named_after h
      rintro e rfl
      exact hrs e List.mem_cons_self
    · exact fun e he => hrs e (List.mem_cons_of_mem r he)

/-- In a store that was empty the live vertices under the names of entities are the singletons of
entities that were asked for. -/
theorem named_moment (ids : IdSource) (rs : List (Request ω)) (n : Nat) (g : GraphId) :
    ((moment ids rs n).store.graph g).Named g fun e => (g, e) ∈ asked rs := by
  apply named_run .empty
  exact fun e he => mem_asked.mpr (List.mem_of_mem_take he)

theorem NamesApart.singleton {rs : List (Request ω)} (apart : NamesApart rs) {ids : IdSource}
    {n : Nat} {c : Cluster ω} (he : (g, e) ∈ asked rs)
    (hc : (moment ids rs n).store.cluster? ⟨g, e.singletonId g⟩ = some c) : c = .singleton e := by
  obtain ⟨e', he', hname, rfl⟩ := (named_moment ids rs n g).singleton hc
  have hsame : e = e' := apart (g, e) he (g, e') he' rfl hname
  rw [hsame]

end Request

theorem Program.run_snd_eq {α : Type} (p : Program ω α) (m : Memory ω) :
    (p.run m).2 = Request.run m ((p.trace m).map fun x => .call x.call) := by
  induction p generalizing m with
  | done r => rfl
  | ask c next ih => exact ih _ _

/-- Something that is done to a store: a request, or a whole operation such as a step of the engine.
An operation in whose midst others act is the sequence of its calls. -/
inductive Deed (ω : Type) where
  | request (r : Request ω)
  | operation (op : Operation ω)

namespace Deed

def after (m : Memory ω) : Deed ω → Memory ω
  | .request r => Request.after m r
  | .operation op => (op.program.run m).2

def requests (m : Memory ω) : Deed ω → List (Request ω)
  | .request r => [r]
  | .operation op => (op.program.trace m).map fun x => .call x.call

def history : List (Deed ω) → Memory ω → List (Request ω)
  | [], _ => []
  | d :: rest, m => d.requests m ++ history rest (d.after m)

theorem run_requests (d : Deed ω) (m : Memory ω) : Request.run m (d.requests m) = d.after m := by
  cases d with
  | request r => rfl
  | operation op => exact (op.program.run_snd_eq m).symm

theorem run_history (deeds : List (Deed ω)) (m : Memory ω) :
    Request.run m (history deeds m) = deeds.foldl after m := by
  induction deeds generalizing m with
  | nil => rfl
  | cons d rest ih =>
    rw [history, Request.run_append, run_requests, ih, List.foldl_cons]

end Deed

open Request in
/-- Whatever is done to a store that was empty, and whichever random identifiers are drawn: if the
entities asked for in a graph are named apart, then each request for a singleton answers with the
name of its entity and of no other, and what is live under that name is the singleton of that entity
at every moment. No union is ever put under the name of an entity, be it asked for or not. -/
theorem singletons_keep_their_names (ids : IdSource) (deeds : List (Deed ω))
    (apart : NamesApart (Deed.history deeds ⟨∅, ids⟩)) :
    let rs := Deed.history deeds ⟨∅, ids⟩
    run ⟨∅, ids⟩ rs = deeds.foldl Deed.after ⟨∅, ids⟩ ∧
    (∀ i j g e e', rs[i]? = some (.call (.singleton g e)) →
      rs[j]? = some (.call (.singleton g e')) →
        (((moment ids rs i).store.singleton g e).1 = ((moment ids rs j).store.singleton g e').1 ↔
          e = e')) ∧
    (∀ i n g e c, rs[i]? = some (.call (.singleton g e)) →
      (moment ids rs n).store.cluster? ((moment ids rs i).store.singleton g e).1 = some c →
        c.diameter = Weight.zero ∧ ∀ x, x ∈ c.members ↔ x = e) ∧
    ∀ n a b w k m', (moment ids rs n).merge a b w = (.ok k, m') → ∀ g (e : EntityKey),
      k ≠ ⟨g, e.singletonId g⟩ ∧ m'.store.cluster? ⟨g, e.singletonId g⟩ =
        (moment ids rs n).store.cluster? ⟨g, e.singletonId g⟩ := by
  intro rs
  have hasked {i : Nat} {g : GraphId} {e : EntityKey}
      (h : rs[i]? = some (.call (.singleton g e))) : (g, e) ∈ asked rs :=
    mem_asked.mpr (List.mem_of_getElem? h)
  refine ⟨Deed.run_history deeds _, ?_, ?_, ?_⟩
  · intro i j g e e' hi hj
    constructor
    · intro hkey
      exact apart _ (hasked hi) _ (hasked hj) rfl (congrArg VertexKey.vertex hkey)
    · rintro rfl
      rfl
  -- A live vertex under the name of an entity that was asked for can only be its singleton.
  · intro i n g e c hi hc
    rw [apart.singleton (hasked hi) hc]
    exact ⟨rfl, fun x => Cluster.mem_singleton⟩
  · intro n a b w k m' hmerge g e
    exact ⟨Memory.merge_ne_singleton hmerge g e, Memory.cluster?_merge hmerge g e⟩

namespace Request

/-- Two entities are linked and merged by a step, a third entity comes in, and the first one is asked
for again. -/
def stepped : List (Deed Binary64) :=
  [.request (.call (.singleton ⟨⟨1⟩⟩ (numberedEntity 1))),
    .request (.call (.singleton ⟨⟨1⟩⟩ (numberedEntity 2))),
    .request (.call (.putEdge ⟨⟨⟨1⟩⟩,
      ⟨(numberedEntity 1).singletonId ⟨⟨1⟩⟩, (numberedEntity 2).singletonId ⟨⟨1⟩⟩⟩⟩ .zero)),
    .operation (.step ⟨⟨1⟩⟩ defaultThreshold),
    .request (.call (.singleton ⟨⟨1⟩⟩ (numberedEntity 3))),
    .request (.call (.singleton ⟨⟨1⟩⟩ (numberedEntity 1)))]

theorem stepped_singletons :
    let rs := Deed.history stepped ⟨∅, repeating⟩
    NamesApart rs ∧
      (∃ k m', (moment repeating rs 10).merge (numberedVertex 1) (numberedVertex 2) .zero =
        (.ok k, m') ∧ k ≠ numberedVertex 4) ∧
      (moment repeating rs 16).store.live (numberedVertex 1) = false ∧
      ∃ c, (moment repeating rs 16).store.cluster? (numberedVertex 3) = some c ∧
        c.diameter = Weight.zero ∧ ∀ x, x ∈ c.members ↔ x = numberedEntity 3 := by
  intro rs
  have apart : NamesApart rs := by decide +kernel
  obtain ⟨-, -, hsingleton, hunion⟩ := singletons_keep_their_names repeating stepped apart
  have hasked : rs[14]? = some (.call (.singleton ⟨⟨1⟩⟩ (numberedEntity 3))) := by decide +kernel
  have hok : ((moment repeating rs 10).merge (numberedVertex 1) (numberedVertex 2)
    .zero).1.isOk = true := by decide +kernel
  have hlive : (moment repeating rs 16).store.live (numberedVertex 3) = true := by decide +kernel
  refine ⟨apart, ?_, by decide +kernel, ?_⟩
  · rcases hmerge : (moment repeating rs 10).merge (numberedVertex 1) (numberedVertex 2) .zero
      with ⟨cause | k, m'⟩
    · rw [hmerge] at hok
      cases hok
    · exact ⟨k, m', rfl, (hunion 10 _ _ _ k m' hmerge ⟨⟨1⟩⟩ (numberedEntity 4)).1⟩
  · obtain ⟨c, hc⟩ := Graph.live_iff.mp hlive
    exact ⟨c, hc, hsingleton 14 16 _ _ c hasked hc⟩

end Request

end RecordLinkage
