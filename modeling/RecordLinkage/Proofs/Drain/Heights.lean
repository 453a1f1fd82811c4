import RecordLinkage.Proofs.Drain.Thresholds
import RecordLinkage.Proofs.Drain.Total
import RecordLinkage.Proofs.Program.Kinds
import RecordLinkage.Proofs.Store.Lifetime

namespace RecordLinkage

variable {ω : Type} [Weight ω]

/-- The union of two clusters is not nearer to anything than the nearer part is. -/
theorem Weight.le_linkage [LawfulWeight ω] {a b : Option ω} {c w x : ω} (hw : storable w = true)
    (ha : ∀ p, a = some p → storable p = true ∧ le c p)
    (hb : ∀ p, b = some p → storable p = true ∧ le c p) (hx : linkage a b w = some x) :
    le c x := by
  cases a with
  | none =>
    cases b with
    | none => cases hx
    | some q =>
      obtain ⟨hq, hcq⟩ := hb q rfl
      have nq := number_of_storable hq
      cases hx
      exact le_trans nq hcq (le_max_right (LawfulWeight.number_add q w hq hw) nq)
  | some p =>
    obtain ⟨hp, hcp⟩ := ha p rfl
    have np := number_of_storable hp
    cases b with
    | none =>
      cases hx
      exact le_trans np hcp (le_max_left np (LawfulWeight.number_add p w hp hw))
    | some q =>
      obtain ⟨hq, hcq⟩ := hb q rfl
      obtain ⟨x', hx', hnearer, -⟩ := linkage_between hp hq hw
      cases hx'.symm.trans hx
      rcases hnearer with h | h
      · exact le_trans np hcp h
      · exact le_trans (number_of_storable hq) hcq h

/-- No link is shorter than `c`. -/
def EdgeIndex.AtLeast (x : EdgeIndex ω) (c : ω) : Prop :=
  ∀ l w, x.weight? l = some w → Weight.le c w

namespace Graph

variable {G : Graph ω} {u v : VertexId} {l : Link} {p c w : ω}

/-- What is read of a neighbour is the weight of the link in normal form, though other links may
have brought it up. -/
theorem distance?_of_neighbors [LawfulWeight ω] (h : G.edges.Sound)
    (hp : SortedMap.get? (G.neighbors v) u = some p) : G.distance? v u = some p := by
  classical
  have hsame (d : Option ω) (hd : ∀ q, d = some q → Weight.storable q = true) :
      nearer d d = d := by
    cases d with
    | none => rfl
    | some q =>
      have nq := Weight.number_of_storable (hd q rfl)
      exact congrArg some (Weight.min_of_le nq nq (Weight.le_refl q))
  rw [neighbors, get?_joinSides, EdgeIndex.destinations, EdgeIndex.sources, get?_adjacent,
    get?_adjacent] at hp
  split at hp
  · cases hp
  · split at hp
    · split at hp
      · rwa [hsame _ fun q => storable_distance? h] at hp
      · rwa [nearer_none] at hp
    · split at hp
      · exact hp
      · cases hp

theorem atLeast_relinks [LawfulWeight ω] (hc : G.edges.AtLeast c) (h : G.edges.Sound)
    (hw : Weight.storable w = true) : ∀ q ∈ (G.relinks l w).toList, Weight.le c q.2 := by
  have hlinked (v u other : VertexId) (p : ω)
      (hp : SortedMap.get? ((G.neighbors v).erase other) u = some p) :
      Weight.storable p = true ∧ Weight.le c p := by
    rw [SortedMap.get?_erase] at hp
    split at hp
    · cases hp
    · have hd := distance?_of_neighbors h hp
      obtain ⟨l, -, hl⟩ := Option.bind_eq_some_iff.mp hd
      exact ⟨storable_distance? h hd, hc l p hl⟩
  intro q hq
  have hget := SortedMap.mem_toList.mp hq
  rw [Graph.relinks, get?_relinked] at hget
  exact Weight.le_linkage hw (hlinked _ _ _) (hlinked _ _ _) hget

end Graph

def Call.Lifts (c : ω) : Call ω → Prop
  | .putEdge _ w => Weight.le c w
  | _ => True

theorem Call.Lifts.perform {c : ω} {call : Call ω} (hcall : call.Lifts c) {m : Memory ω}
    {g : GraphId} (h : (m.store.graph g).edges.AtLeast c) :
    ((call.perform m).2.store.graph g).edges.AtLeast c := by
  have hchange := Request.changes_after m (.call call) g
  change Request.Changes g _ _ ((call.perform m).2.store.graph g) at hchange
  generalize (call.perform m).2.store.graph g = G' at hchange
  cases hchange with
  | kept => exact h
  | ensured e =>
    rw [Graph.edges_ensure]
    exact h
  | adjoined => exact h
  | retired => exact h
  | linked l => exact EdgeIndex.forall_weight?_put h hcall
  | unlinked l => exact EdgeIndex.forall_weight?_erase h

namespace Program

variable {α : Type} {p : Program ω α} {c : ω} {m : Memory ω} {g : GraphId}

theorem Makes.lifts {kinds : List CallKind} (hp : p.Makes kinds) (h : .putEdge ∉ kinds) (c : ω) :
    p.Only (Call.Lifts c) := by
  refine Only.mono hp fun call hcall => ?_
  cases call with
  | putEdge => exact absurd hcall h
  | _ => trivial

theorem Only.run_atLeast (hp : p.Only (Call.Lifts c)) (h : (m.store.graph g).edges.AtLeast c) :
    ((p.run m).2.store.graph g).edges.AtLeast c :=
  hp.run (I := fun _ m' => (m'.store.graph g).edges.AtLeast c) (h := [])
    (fun _ _ _ hcall hm => hcall.perform hm) h

/-- Procedures clear no graph, so that what they do is what time does. -/
theorem run_ages (p : Program ω α) (m : Memory ω) (g : GraphId) :
    (m.store.graph g).Ages ((p.run m).2.store.graph g) := by
  induction p generalizing m with
  | done r => exact .refl _
  | ask call next ih =>
    have hcall := (Request.changes_after m (.call call) g).ages (by simp)
    exact hcall.trans (ih _ (call.perform m).2)

end Program

namespace Drain

open Program

variable {c t w : ω} {g : GraphId} {m m' : Memory ω}

theorem run_merge_atLeast [LawfulWeight ω] {e : Edge} (hm : m.Sound)
    (hw : Weight.storable w = true) (h : (m.store.graph e.graph).edges.AtLeast c) :
    (((merge e w).run m).2.store.graph e.graph).edges.AtLeast c := by
  have hrelinks : ∀ p ∈ ((m.store.graph e.graph).relinks e.link w).toList, ∀ e' : Edge,
      (Call.putEdge e' p.2).Lifts c := fun p hp _ => Graph.atLeast_relinks h (hm e.graph) hw p hp
  have hunion := Call.Lifts.perform (show (Call.merge e.src e.dst w).Lifts c from trivial) h
  rcases hmerge : m.merge e.src e.dst w with ⟨cause | k, m₁⟩
  · obtain rfl := Memory.merge_error hmerge
    unfold merge
    rw [run_bind_of_ok (run_neighbors m₁ e.src), run_bind_of_ok (run_neighbors m₁ e.dst)]
    change ((Program.run (.ask _ _) m₁).2.store.graph e.graph).edges.AtLeast c
    rw [run_ask]
    simp only [Call.perform, hmerge]
    cases cause with
    | vertexNotFound missing => exact Only.run_atLeast ((stale_makes e).lifts (by decide) c) h
    | graphMismatch | selfLoop | invalidWeight | backend => exact h
  · rw [run_merge_of_union hmerge]
    simp only [Call.perform, hmerge] at hunion
    generalize (m.store.graph e.graph).relinks e.link w = links at hrelinks
    have hputs := replaceParts_only (P := Call.Lifts c) e k.vertex
      (((m.store.graph e.graph).neighbors e.link.src).erase e.link.dst)
      (((m.store.graph e.graph).neighbors e.link.dst).erase e.link.src) hrelinks
      (fun _ => trivial) fun _ => trivial
    exact Only.run_atLeast (hputs.bind fun _ => only_done _) hunion

theorem run_step_atLeast [LawfulWeight ω] (t : ω) (hm : m.Sound)
    (h : (m.store.graph g).edges.AtLeast c) :
    ((m.step g t).2.store.graph g).edges.AtLeast c := by
  have hread : (lightest? g).run m = (.ok (m.store.lightest? g), m) := rfl
  -- Removing a stale edge puts nothing.
  have hstale (e : Edge) : (((do discard (removeEdge e); return .stale e :
      Program ω (Step ω)).run m).2.store.graph g).edges.AtLeast c :=
    Only.run_atLeast ((stale_makes e).lifts (by decide) c) h
  rw [Memory.step]
  unfold step
  rw [checkThreshold]
  split
  · rw [pure_bind, run_bind_of_ok hread]
    cases hlightest : m.store.lightest? g with
    | none => exact h
    | some p =>
      obtain ⟨e, w⟩ := p
      obtain rfl := lightest?_graph hlightest
      have hw := (hm e.graph).storable _ _ ((hm e.graph).lightest (lightest?_edges hlightest)).1
      dsimp only
      split
      · exact h
      · rw [run_bind_of_ok (run_live m e.src)]
        split
        · rw [run_bind_of_ok (run_live m e.dst)]
          split
          · exact run_merge_atLeast hm hw h
          · exact hstale e
        · exact hstale e
  · exact h

/-- A merge takes a link that no other is shorter than, and the union is as wide as the link is
long. -/
theorem Stepped.of_merged [LawfulWeight ω] {x : Merge ω} (hs : Stepped m g t (.merged x) m')
    (hm : m.Sound) : Weight.lt x.weight t = true ∧
      (∃ l, (m.store.graph g).edges.weight? l = some x.weight) ∧
      (m.store.graph g).edges.AtLeast x.weight ∧ ∃ a b, m.store.cluster? x.a = some a ∧
        m.store.cluster? x.b = some b ∧
        m'.store.cluster? x.merged = some (.merged a b x.weight) ∧ x.merged.graph = g := by
  cases hs with
  | @merged e w a b k _ lightest weight joins relinks becomes =>
    obtain rfl := lightest?_graph lightest
    have hlightest := lightest?_edges lightest
    have hunion := (Graph.cluster?_contract_iff (w := w) joins.left joins.right joins.free).mpr
      (.inl ⟨rfl, rfl⟩)
    refine ⟨weight, ⟨e.link, ((hm _).lightest hlightest).1⟩, fun l w' =>
      (hm _).le_of_lightest hlightest, a, b, joins.left, joins.right, ?_, joins.graph⟩
    rw [Store.cluster?, joins.graph]
    change (m'.store.graph e.graph).cluster? k.vertex = _
    rw [becomes.graph]
    exact hunion

end Drain

namespace Memory

open Drain Program

/-- The memory after a number of step calls in a row, each made whatever became of the one before. -/
def afterSteps (g : GraphId) (t : ω) : Nat → Memory ω → Memory ω
  | 0, m => m
  | n + 1, m => afterSteps g t n (m.step g t).2

/-- What was merged by a step call that comes after `n` others, if anything was. -/
def mergeAfter? (g : GraphId) (t : ω) (n : Nat) (m : Memory ω) : Option (Merge ω) :=
  match ((m.afterSteps g t n).step g t).1 with
  | .ok (.merged x) => some x
  | _ => none

variable {m : Memory ω} {g : GraphId} {t c : ω} {i j n : Nat} {x : Merge ω}

theorem afterSteps_succ (g : GraphId) (t : ω) (n : Nat) (m : Memory ω) :
    m.afterSteps g t (n + 1) = ((m.afterSteps g t n).step g t).2 := by
  induction n generalizing m with
  | zero => rfl
  | succ n ih => exact ih (m.step g t).2

theorem afterSteps_sound (hm : m.Sound) (n : Nat) : (m.afterSteps g t n).Sound := by
  induction n with
  | zero => exact hm
  | succ n ih =>
    rw [afterSteps_succ]
    exact Program.run_sound _ ih

theorem afterSteps_atLeast [LawfulWeight ω] (hm : m.Sound) (hij : i ≤ j)
    (h : ((m.afterSteps g t i).store.graph g).edges.AtLeast c) :
    ((m.afterSteps g t j).store.graph g).edges.AtLeast c := by
  induction j, hij using Nat.le_induction with
  | base => exact h
  | succ j _ ih =>
    rw [afterSteps_succ]
    exact run_step_atLeast t (afterSteps_sound hm j) ih

theorem afterSteps_ages (m : Memory ω) (g : GraphId) (t : ω) (hij : i ≤ j) :
    ((m.afterSteps g t i).store.graph g).Ages ((m.afterSteps g t j).store.graph g) := by
  induction j, hij using Nat.le_induction with
  | base => exact .refl _
  | succ j _ ih =>
    rw [afterSteps_succ]
    exact ih.trans (Program.run_ages _ _ g)

theorem stepped_of_mergeAfter? (h : m.mergeAfter? g t n = some x) :
    Stepped (m.afterSteps g t n) g t (.merged x) (m.afterSteps g t (n + 1)) := by
  rw [mergeAfter?] at h
  rw [afterSteps_succ]
  rcases hstep : (m.afterSteps g t n).step g t with ⟨(_ | _ | _) | _ | _, m'⟩ <;> rw [hstep] at h <;>
    cases h
  exact (run_step_ok hstep).2

/-- A drain makes step calls, and counts those that merge something. -/
theorem run_loop_afterSteps {allowance merges stale : Nat} {m' : Memory ω}
    {r : Outcome (Error ω) (Nat × Nat × StopReason ω)}
    (h : (loop g t allowance merges stale).run m = (r, m')) :
    ∃ n, m' = m.afterSteps g t n ∧ ∀ a b stop, r = .ok (a, b, stop) →
      a = merges + (List.range n).countP fun i => (m.mergeAfter? g t i).isSome := by
  induction allowance generalizing m merges stale with
  | zero =>
    cases h
    exact ⟨0, rfl, fun _ _ _ hr => by cases hr⟩
  | succ allowance ih =>
    unfold loop at h
    -- The count over the first steps is that of the first one and of all later ones.
    have hcount (n : Nat) : (List.range (n + 1)).countP (fun i => (m.mergeAfter? g t i).isSome) =
        (if (m.mergeAfter? g t 0).isSome = true then 1 else 0) +
          (List.range n).countP fun i => ((m.step g t).2.mergeAfter? g t i).isSome := by
      rw [List.range_succ_eq_map, List.countP_cons, List.countP_map, Nat.add_comm]
      rfl
    have hfirst : m.mergeAfter? g t 0 = match (m.step g t).1 with
      | .ok (.merged x) => some x
      | _ => none := rfl
    rw [run_bind] at h
    rcases hstep : (Drain.step g t).run m with ⟨s | cause | _, m₁⟩
    · have hstep' : m.step g t = (.ok s, m₁) := hstep
      rw [hstep] at h
      rw [hstep'] at hcount hfirst
      cases s with
      | merged x =>
        obtain ⟨n, hn, hresult⟩ := ih h
        refine ⟨n + 1, by rw [hn, afterSteps, hstep'], fun a b stop hr => ?_⟩
        rw [hcount, hfirst, hresult a b stop hr]
        exact Nat.add_assoc ..
      | stale e =>
        obtain ⟨n, hn, hresult⟩ := ih h
        refine ⟨n + 1, by rw [hn, afterSteps, hstep'], fun a b stop hr => ?_⟩
        rw [hcount, hfirst, hresult a b stop hr]
        exact congrArg _ (Nat.zero_add _).symm
      | done stop =>
        cases h
        refine ⟨1, by rw [afterSteps, hstep']; rfl, fun a b stop' hr => ?_⟩
        cases hr
        rw [hcount, hfirst]
        rfl
    · rw [hstep] at h
      cases h
      exact ⟨1, by rw [afterSteps, Memory.step, hstep]; rfl, fun _ _ _ hr => by cases hr⟩
    · rw [hstep] at h
      cases h
      exact ⟨1, by rw [afterSteps, Memory.step, hstep]; rfl, fun _ _ _ hr => by cases hr⟩

theorem run_cluster_afterSteps {allowance : Nat} {m' : Memory ω}
    {r : Outcome (Error ω) (DrainReport ω)} (h : (Drain.cluster allowance g t).run m = (r, m')) :
    ∃ n, m' = m.afterSteps g t n ∧ ∀ report, r = .ok report → report.merges =
      (List.range n).countP fun i => (m.mergeAfter? g t i).isSome := by
  unfold Drain.cluster at h
  rw [checkThreshold] at h
  split at h
  · rw [pure_bind, run_bind] at h
    rcases hloop : (loop g t allowance 0 0).run m with ⟨⟨merges, stale, stop⟩ | cause | _, m₁⟩
    all_goals
      obtain ⟨n, rfl, hresult⟩ := run_loop_afterSteps hloop
      rw [hloop] at h
      cases h
    · refine ⟨n, rfl, fun report hreport => ?_⟩
      cases hreport
      exact (hresult _ _ _ rfl).trans (Nat.zero_add _)
    · exact ⟨n, rfl, fun _ hr => by cases hr⟩
    · exact ⟨n, rfl, fun _ hr => by cases hr⟩
  · cases h
    exact ⟨0, rfl, fun _ hr => by cases hr⟩

end Memory

open Drain

/-- Merge heights never decrease. Whatever a store holds, in a row of step calls with one threshold,
failed ones included, the weights of the merges ascend and are below the threshold; after a merge no
link is shorter than the one that was taken; and a union is at least as wide as a part that was made
in an earlier call of the row. A drain is such a row. -/
theorem merge_heights_ascend [LawfulWeight ω] {m : Memory ω} (hm : m.Sound) (g : GraphId) (t : ω) :
    (∀ i j x y, i < j → m.mergeAfter? g t i = some x → m.mergeAfter? g t j = some y →
      Weight.le x.weight y.weight) ∧
    (∀ i x, m.mergeAfter? g t i = some x → Weight.lt x.weight t = true) ∧
    (∀ i j x, i < j → m.mergeAfter? g t i = some x → ∀ l w,
      ((m.afterSteps g t j).store.graph g).edges.weight? l = some w → Weight.le x.weight w) ∧
    (∀ i j x y, i < j → m.mergeAfter? g t i = some x → m.mergeAfter? g t j = some y →
      x.merged = y.a ∨ x.merged = y.b →
        ∃ part union, (m.afterSteps g t j).store.cluster? x.merged = some part ∧
          (m.afterSteps g t (j + 1)).store.cluster? y.merged = some union ∧
          (∀ e ∈ part.members.toList, e ∈ union.members.toList) ∧
          part.diameter = x.weight ∧ union.diameter = y.weight ∧
          Weight.le part.diameter union.diameter) ∧
    ∀ allowance r m', (cluster allowance g t).run m = (r, m') →
      ∃ n, m' = m.afterSteps g t n ∧ ∀ report, r = .ok report → report.merges =
        (List.range n).countP fun i => (m.mergeAfter? g t i).isSome := by
  have hmerge {n : Nat} {x : Merge ω} (hx : m.mergeAfter? g t n = some x) :=
    (Memory.stepped_of_mergeAfter? hx).of_merged (Memory.afterSteps_sound hm n)
  -- Once an edge of some weight was merged, no lighter one is left or made.
  have hfloor {i j : Nat} {x : Merge ω} (hij : i ≤ j) (hx : m.mergeAfter? g t i = some x) :
      ((m.afterSteps g t j).store.graph g).edges.AtLeast x.weight :=
    Memory.afterSteps_atLeast hm hij (hmerge hx).2.2.1
  have hascend {i j : Nat} {x y : Merge ω} (hij : i < j) (hx : m.mergeAfter? g t i = some x)
      (hy : m.mergeAfter? g t j = some y) : Weight.le x.weight y.weight := by
    obtain ⟨l, hl⟩ := (hmerge hy).2.1
    exact hfloor hij.le hx l _ hl
  refine ⟨fun i j x y => hascend, fun i x hx => (hmerge hx).1,
    fun i j x hij hx => hfloor hij.le hx, ?_, fun allowance r m' => Memory.run_cluster_afterSteps⟩
  intro i j x y hij hx hy hpart
  obtain ⟨-, -, -, _, _, -, -, hmade, hgraph⟩ := hmerge hx
  obtain ⟨-, -, -, a, b, ha, hb, hunion, -⟩ := hmerge hy
  -- A vertex is the same cluster at every later moment at which it is live.
  have hages := Memory.afterSteps_ages m g t (Nat.succ_le_of_lt hij)
  rw [Store.cluster?, hgraph] at hmade
  have hsame {d : Cluster ω} (hd : (m.afterSteps g t j).store.cluster? x.merged = some d) :
      d.diameter = x.weight := by
    rw [Store.cluster?, hgraph] at hd
    rw [(hages.between (.refl _) hmade hd).1]
    rfl
  rcases hpart with hpart | hpart
  · rw [← hpart] at ha
    refine ⟨a, _, ha, hunion, fun e he => Cluster.mem_merged.mpr (.inl he), hsame ha, rfl, ?_⟩
    rw [hsame ha]
    exact hascend hij hx hy
  · rw [← hpart] at hb
    refine ⟨b, _, hb, hunion, fun e he => Cluster.mem_merged.mpr (.inr he), hsame hb, rfl, ?_⟩
    rw [hsame hb]
    exact hascend hij hx hy

/-- The first two entities of the path are joined at 0.03, and then the last one comes at 0.09. -/
theorem unevenPath_heights : let m : Memory Binary64 := .ofGraph ⟨⟨1⟩⟩ unevenPath
    m.Sound ∧ ∃ x y, m.mergeAfter? ⟨⟨1⟩⟩ defaultThreshold 0 = some x ∧
      m.mergeAfter? ⟨⟨1⟩⟩ defaultThreshold 1 = some y ∧
      (x.merged = y.a ∨ x.merged = y.b) ∧ Weight.le x.weight y.weight := by
  intro m
  have hsound : m.Sound := Memory.sound_ofGraph unevenPath_intact
  have hrun : ((m.mergeAfter? ⟨⟨1⟩⟩ defaultThreshold 0).bind fun x =>
      (m.mergeAfter? ⟨⟨1⟩⟩ defaultThreshold 1).map fun y =>
        decide (x.merged = y.a ∨ x.merged = y.b)) = some true := by decide +kernel
  obtain ⟨x, hx, hmap⟩ := Option.bind_eq_some_iff.mp hrun
  obtain ⟨y, hy, hpart⟩ := Option.map_eq_some_iff.mp hmap
  exact ⟨hsound, x, y, hx, hy, of_decide_eq_true hpart,
    (merge_heights_ascend hsound _ _).1 0 1 x y (by decide) hx hy⟩

end RecordLinkage
