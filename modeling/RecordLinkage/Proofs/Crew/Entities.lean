import RecordLinkage.Proofs.Crew.Ledger

namespace RecordLinkage

variable {ω : Type}

def Store.entities [Weight ω] (s : Store ω) (g : GraphId) : Set EntityKey :=
  {e | ∃ v c, (s.graph g).cluster? v = some c ∧ e ∈ c.members}

theorem mem_next_licences {held : List VertexKey} {c : Call ω} {r : c.Reply} {k : VertexKey}
    (h : k ∈ (licences ω).next held c r) :
    k ∈ held ∨ ∃ a b w, c = .merge a b w ∧ (k = a ∨ k = b) ∧ ∃ x, r = .ok x := by
  cases c with
  | merge a b w =>
    cases r with
    | ok x =>
      rcases List.mem_cons.mp h with rfl | h
      · exact .inr ⟨_, b, w, rfl, .inl rfl, x, rfl⟩
      · rcases List.mem_cons.mp h with rfl | h
        · exact .inr ⟨a, _, w, rfl, .inr rfl, x, rfl⟩
        · exact .inl h
    | error cause => exact .inl h
    | crash => exact .inl h
  | _ => exact .inl h

variable [Weight ω]

namespace Crew

/-- A ledger accounts for the work of a crew: it fits the memory, all licences are for vertices that
were outlived, and members of vertices were known from the start or were asked for. -/
structure Accounted (known : GraphId → EntityKey → Prop) (L : Ledger) (crew : Crew ω) : Prop where
  fits : L.Fits crew.memory
  workers : ∀ p ∈ crew.workers, ∃ held, p.Licensed held ∧ ∀ k ∈ held, L.born k ∧ L.Outlived k
  within : L.Within fun g e => known g e ∨ Requested (crew.history.map Prod.snd) g e

variable {known : GraphId → EntityKey → Prop} {L : Ledger} {crew crew' : Crew ω}

/-- Whoever makes a call goes on with licences of outlived vertices, and so do the others. -/
theorem Accounted.workers_set (h : crew.Accounted known L) {L' : Ledger} (hL : L.Grows L') {i : Nat}
    {p : Program ω Unit} {held : List VertexKey} (hp : p.Licensed held)
    (hheld : ∀ k ∈ held, L'.born k ∧ L'.Outlived k) :
    ∀ q ∈ crew.workers.set i p, ∃ held, q.Licensed held ∧ ∀ k ∈ held, L'.born k ∧ L'.Outlived k := by
  intro q hq
  rcases List.mem_or_eq_of_mem_set hq with hq | rfl
  · obtain ⟨held', hlicensed, hheld'⟩ := h.workers q hq
    refine ⟨held', hlicensed, fun k hk => ?_⟩
    obtain ⟨hborn, houtlived⟩ := hheld' k hk
    exact ⟨hL.born k hborn, houtlived.grows hborn hL⟩
  · exact ⟨held, hp, hheld⟩

theorem Accounted.acts (h : crew.Accounted known L) (hacts : crew.Acts crew') :
    ∃ L', L.Grows L' ∧ crew'.Accounted known L' := by
  cases hacts with
  | idle => exact ⟨L, .refl L, h⟩
  | missed reply asks unanswered =>
    obtain ⟨held, hlicensed, hheld⟩ := h.workers _ (List.mem_of_getElem? asks)
    refine ⟨L, .refl L, h.fits, ?_, h.within⟩
    apply h.workers_set (.refl L) (hlicensed.2 reply)
    intro k hk
    rcases mem_next_licences hk with hk | ⟨-, -, -, -, -, x, hx⟩
    · exact hheld k hk
    · exact absurd hx (unanswered x)
  | @carried i c next reply asks answered =>
    obtain ⟨held, hlicensed, hheld⟩ := h.workers _ (List.mem_of_getElem? asks)
    -- The licences of the caller are for outlived vertices, so the call does no harm.
    obtain ⟨L', hfollows⟩ := h.fits.call (fun k hk => (hheld k hk).2) hlicensed.1
    have hL := hfollows.grows
    refine ⟨L', hL, hfollows.fits, ?_, ?_⟩
    · apply h.workers_set hL (hlicensed.2 reply)
      intro k hk
      rcases mem_next_licences hk with hk | ⟨a, b, w, hc, hk, x, hx⟩
      · obtain ⟨hborn, houtlived⟩ := hheld k hk
        exact ⟨hL.born k hborn, houtlived.grows hborn hL⟩
      · obtain ⟨ha, hb⟩ := hfollows.merged a b w hc ⟨x, answered x hx⟩
        rcases hk with rfl | rfl
        · exact ha
        · exact hb
    · rw [List.map_append]
      apply hfollows.within
      · refine h.within.mono ?_
        intro g e he
        exact he.imp_right fun he => requested_snoc.mpr (.inl he)
      · intro g e hc
        exact .inr (requested_snoc.mpr (.inr hc))

theorem Accounted.run (h : crew.Accounted known L) (schedule : List (Nat × Fate ω)) :
    ∃ L', L.Grows L' ∧ (crew.run schedule).Accounted known L' := by
  apply Crew.run_induct (I := fun crew => ∃ L', L.Grows L' ∧ crew.Accounted known L')
  · intro crew crew' hacts hI
    obtain ⟨L', hL, hI⟩ := hI
    obtain ⟨L'', hL', hI'⟩ := hI.acts hacts
    exact ⟨L'', hL.trans hL', hI'⟩
  · exact ⟨L, .refl L, h⟩

/-- The vertices of the ledger hold exactly the entities of the live ones. -/
theorem Accounted.mem_entities (h : crew.Accounted known L) {g : GraphId} {e : EntityKey} :
    e ∈ crew.memory.store.entities g ↔ ∃ k, L.born k ∧ k.graph = g ∧ e ∈ L.members k := by
  constructor
  · intro he
    obtain ⟨v, c, hv, he⟩ := he
    obtain ⟨hborn, hmembers⟩ := h.fits.live ⟨g, v⟩ c hv
    exact ⟨⟨g, v⟩, hborn, rfl, hmembers ▸ he⟩
  · intro he
    obtain ⟨k, hk, rfl, he⟩ := he
    exact h.fits.covered hk he

theorem accounted_start (m : Memory ω) (ops : List (Operation ω)) :
    ∃ L, (start m ops).Accounted (fun g e => e ∈ m.store.entities g) L := by
  refine ⟨⟨fun k => m.store.live k = true, fun k => ((m.store.cluster? k).map Cluster.members).getD ∅,
    fun _ => 0, 1⟩, ⟨?_, ?_, fun _ _ => Nat.one_pos, fun k hk => .inl hk⟩, ?_, ?_⟩
  · intro k c hk
    refine ⟨Graph.live_iff.mpr ⟨c, hk⟩, ?_⟩
    have hk' : m.store.cluster? k = some c := hk
    dsimp only
    rw [hk']
    rfl
  · intro k hk
    exact Graph.taken_iff.mpr (.inl hk)
  · intro p hp
    obtain ⟨op, -, rfl⟩ := List.mem_map.mp hp
    exact ⟨[], op.licensed, nofun⟩
  · intro k hk e he
    obtain ⟨c, hc⟩ := Graph.live_iff.mp hk
    have hc' : m.store.cluster? k = some c := hc
    dsimp only at he
    rw [hc'] at he
    exact .inl ⟨k.vertex, c, hc, he⟩

end Crew

/-- No entity is ever lost, whatever the order of calls, whoever stops where and whichever calls
fail; and no entity appears that nobody recorded. -/
theorem crew_loses_no_entity (m : Memory ω) (ops : List (Operation ω))
    (earlier later : List (Nat × Fate ω)) (g : GraphId) :
    let before := (Crew.start m ops).run earlier
    let after := before.run later
    before.memory.store.entities g ⊆ after.memory.store.entities g ∧
      after.memory.store.entities g ⊆
        m.store.entities g ∪ {e | Requested (after.history.map Prod.snd) g e} := by
  intro before after
  obtain ⟨L, hstart⟩ := Crew.accounted_start m ops
  obtain ⟨L', -, hthen⟩ := hstart.run earlier
  obtain ⟨L'', hL, hnow⟩ := hthen.run later
  constructor
  · intro e he
    obtain ⟨k, hk, hg, he⟩ := hthen.mem_entities.mp he
    exact hnow.mem_entities.mpr ⟨k, hL.born k hk, hg, (hL.members k hk).symm ▸ he⟩
  · intro e he
    obtain ⟨k, hk, rfl, hmember⟩ := hnow.mem_entities.mp he
    exact hnow.within k hk e hmember

end RecordLinkage
