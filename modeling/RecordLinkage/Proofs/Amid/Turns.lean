import RecordLinkage.Proofs.Graph.Sound
import RecordLinkage.Proofs.Store.Lifetime

namespace RecordLinkage

/-- A turn at a store: a call of the procedure that is watched, or a request of somebody else. -/
inductive Turn (ω : Type) where
  | own (c : Call ω)
  | other (r : Request ω)
  deriving DecidableEq

def Turn.request {ω : Type} : Turn ω → Request ω
  | .own c => .call c
  | .other r => r

def Turn.own? {ω : Type} : Turn ω → Option (Call ω)
  | .own c => some c
  | .other _ => none

theorem Turn.uncleared_own {ω : Type} {g : GraphId} {h : List (Turn ω)}
    (hkeep : .clear g ∉ h.map Turn.request) (c : Call ω) :
    .clear g ∉ (h ++ [Turn.own c]).map Turn.request := by
  rw [List.map_append, List.mem_append]
  rintro (hclear | hclear)
  · exact hkeep hclear
  · cases List.mem_singleton.mp hclear

def Memory.afterTurns {ω : Type} [Weight ω] (m : Memory ω) (h : List (Turn ω)) : Memory ω :=
  Request.run m (h.map Turn.request)

/-- Runs a procedure amid others, who make the requests `others n` right before its `n`-th call. Tells
how the procedure ends, and all turns up to its end. -/
def Program.amid {ω α : Type} [Weight ω] (others : Nat → List (Request ω)) :
    Program ω α → Nat → Memory ω → Outcome (Error ω) α × List (Turn ω)
  | .done r, _, _ => (r, [])
  | .ask c next, n, m =>
    let (answer, m) := c.perform (Request.run m (others n))
    let (r, h) := (next (.ofExcept answer)).amid others (n + 1) m
    (r, (others n).map .other ++ .own c :: h)

variable {ω : Type} [Weight ω]

theorem Program.mem_amid {α : Type} {p : Program ω α} {others : Nat → List (Request ω)} {n : Nat}
    {m : Memory ω} {r : Request ω} (hr : .other r ∈ (p.amid others n m).2) : ∃ i, r ∈ others i := by
  induction p generalizing n m with
  | done outcome => cases hr
  | ask c next ih =>
    rw [amid, List.mem_append, List.mem_map, List.mem_cons] at hr
    rcases hr with ⟨r', hr', hsame⟩ | hown | hlater
    · cases hsame
      exact ⟨n, hr'⟩
    · cases hown
    · exact ih _ hlater

namespace Memory

variable {m : Memory ω} {h h' : List (Turn ω)} {g : GraphId} {k : VertexKey} {t : Turn ω}

@[simp] theorem afterTurns_nil (m : Memory ω) : m.afterTurns [] = m := rfl

theorem afterTurns_append (m : Memory ω) (h h' : List (Turn ω)) :
    m.afterTurns (h ++ h') = (m.afterTurns h).afterTurns h' := by
  rw [afterTurns, List.map_append, Request.run_append]
  rfl

theorem afterTurns_others (m : Memory ω) (rs : List (Request ω)) :
    m.afterTurns (rs.map .other) = Request.run m rs := by
  rw [afterTurns, List.map_map]
  exact congrArg _ (List.map_id rs)

theorem afterTurns_own (m : Memory ω) (h : List (Turn ω)) (c : Call ω) :
    m.afterTurns (h ++ [.own c]) = (c.perform (m.afterTurns h)).2 := afterTurns_append m h _

theorem afterTurns_sound (hm : m.Sound) (h : List (Turn ω)) : (m.afterTurns h).Sound := fun g =>
  Request.run_graph (P := fun G => G.edges.Sound) (hm g) fun _ _ _ _ hchange => hchange.sound

theorem afterTurns_ages (hgrown : h <+: h') (hkeep : .clear g ∉ h'.map Turn.request) :
    ((m.afterTurns h).store.graph g).Ages ((m.afterTurns h').store.graph g) := by
  obtain ⟨later, rfl⟩ := hgrown
  rw [afterTurns_append]
  apply Request.ages_run
  intro hclear
  rw [List.map_append, List.mem_append, not_or] at hkeep
  exact hkeep.2 hclear

def Lived (m : Memory ω) (h : List (Turn ω)) (k : VertexKey) : Prop :=
  ∃ h', h' <+: h ∧ (m.afterTurns h').store.live k = true

theorem Lived.mono (hk : m.Lived h k) (hgrown : h <+: h') : m.Lived h' k := by
  obtain ⟨early, hearly, hlive⟩ := hk
  exact ⟨early, hearly.trans hgrown, hlive⟩

theorem Lived.now (hlive : (m.afterTurns h).store.live k = true) : m.Lived h k :=
  ⟨h, List.prefix_rfl, hlive⟩

theorem Lived.taken (hk : m.Lived h k) (hkeep : .clear k.graph ∉ h.map Turn.request) :
    ((m.afterTurns h).store.graph k.graph).taken k.vertex = true := by
  obtain ⟨early, hearly, hlive⟩ := hk
  exact (afterTurns_ages hearly hkeep).taken hlive

/-- All links of a graph are in normal form and join vertices that were live at some time. -/
structure Proper (m : Memory ω) (g : GraphId) (h : List (Turn ω)) : Prop where
  normal : ∀ l w, ((m.afterTurns h).store.graph g).edges.weight? l = some w →
    compare l.src l.dst = .lt
  lived : ∀ l w, ((m.afterTurns h).store.graph g).edges.weight? l = some w →
    m.Lived h ⟨g, l.src⟩ ∧ m.Lived h ⟨g, l.dst⟩

/-- Only putting an edge can spoil a graph, and only an edge that is not in order. -/
theorem Proper.snoc (hproper : m.Proper g h)
    (hput : ∀ l w, t.request = .call (.putEdge ⟨g, l⟩ w) →
      compare l.src l.dst = .lt ∧ m.Lived h ⟨g, l.src⟩ ∧ m.Lived h ⟨g, l.dst⟩) :
    m.Proper g (h ++ [t]) := by
  have hchange := Request.changes_after (m.afterTurns h) t.request g
  have hafter : m.afterTurns (h ++ [t]) = Request.after (m.afterTurns h) t.request :=
    afterTurns_append m h [t]
  suffices hall : ∀ l w, ((m.afterTurns (h ++ [t])).store.graph g).edges.weight? l = some w →
      compare l.src l.dst = .lt ∧ m.Lived h ⟨g, l.src⟩ ∧ m.Lived h ⟨g, l.dst⟩ by
    have hgrown : h <+: h ++ [t] := List.prefix_append h [t]
    exact ⟨fun l w hl => (hall l w hl).1,
      fun l w hl => (hall l w hl).2.imp (·.mono hgrown) (·.mono hgrown)⟩
  have hold : ∀ l w, ((m.afterTurns h).store.graph g).edges.weight? l = some w →
      compare l.src l.dst = .lt ∧ m.Lived h ⟨g, l.src⟩ ∧ m.Lived h ⟨g, l.dst⟩ :=
    fun l w hl => ⟨hproper.normal l w hl, hproper.lived l w hl⟩
  rw [hafter]
  generalize (Request.after (m.afterTurns h) t.request).store.graph g = G at hchange
  generalize hr : t.request = r at hchange
  cases hchange with
  | kept | adjoined | retired => exact hold
  | ensured e =>
    rw [Graph.edges_ensure]
    exact hold
  | linked l storable => exact EdgeIndex.forall_weight?_put hold (hput l _ hr)
  | unlinked l => exact EdgeIndex.forall_weight?_erase hold
  | cleared => exact fun l w hl => by cases hl

/-- A graph in use: it is in order, and it has not been cleared. -/
structure InUse (m : Memory ω) (g : GraphId) (h : List (Turn ω)) : Prop extends m.Proper g h where
  uncleared : .clear g ∉ h.map Turn.request

/-- A call keeps a graph in use, unless it puts an edge that is not in order. -/
theorem InUse.own {c : Call ω} (huse : m.InUse g h)
    (hput : ∀ l w, c = .putEdge ⟨g, l⟩ w →
      compare l.src l.dst = .lt ∧ m.Lived h ⟨g, l.src⟩ ∧ m.Lived h ⟨g, l.dst⟩) :
    m.InUse g (h ++ [.own c]) where
  toProper := huse.toProper.snoc fun l w hr => hput l w (Request.call.inj hr)
  uncleared := Turn.uncleared_own huse.uncleared c

def Made (m : Memory ω) (h : List (Turn ω)) (m' : Memory ω) (c : Call ω) : Prop :=
  ∃ h', h' ++ [.own c] <+: h ∧ m.afterTurns h' = m'

section Made

variable {m' : Memory ω} {c c' : Call ω}

theorem Made.mono (hmade : m.Made h m' c) (hgrown : h <+: h') : m.Made h' m' c := by
  obtain ⟨early, hearly, hmet⟩ := hmade
  exact ⟨early, hearly.trans hgrown, hmet⟩

theorem made_own : m.Made (h ++ [.own c']) m' c ↔
    m.Made h m' c ∨ c = c' ∧ m' = m.afterTurns h := by
  constructor
  · rintro ⟨early, hearly, rfl⟩
    rcases List.prefix_concat_iff.mp hearly with hlast | hbefore
    · obtain ⟨rfl, hcall⟩ := List.append_inj' hlast rfl
      cases hcall
      exact .inr ⟨rfl, rfl⟩
    · exact .inl ⟨early, hbefore, rfl⟩
  · rintro (hmade | ⟨rfl, rfl⟩)
    · exact hmade.mono (List.prefix_append h _)
    · exact ⟨h, List.prefix_rfl, rfl⟩

/-- What holds of each call at its place in a list of turns. -/
theorem forall_made {P : Memory ω → Call ω → Bool}
    (hall : ∀ n < h.length, (h[n]?.bind Turn.own?).all (P (m.afterTurns (h.take n))) = true) :
    ∀ m' c, m.Made h m' c → P m' c = true := by
  rintro m' c ⟨early, hearly, rfl⟩
  obtain ⟨later, rfl⟩ := hearly
  have hcall := hall early.length (by simp)
  simpa [Turn.own?] using hcall

theorem made_others {rs : List (Request ω)} (hmade : m.Made (h ++ rs.map .other) m' c) :
    m.Made h m' c := by
  induction rs using List.reverseRecOn with
  | nil => simpa using hmade
  | append_singleton rs r ih =>
    apply ih
    obtain ⟨early, hearly, hmet⟩ := hmade
    rw [List.map_append, ← List.append_assoc] at hearly
    rcases List.prefix_concat_iff.mp hearly with hlast | hbefore
    · have hcall := (List.append_inj' hlast rfl).2
      cases hcall
    · exact ⟨early, hbefore, hmet⟩

end Made

end Memory

end RecordLinkage
