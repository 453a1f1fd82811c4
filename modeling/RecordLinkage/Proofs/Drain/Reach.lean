import RecordLinkage.Proofs.Drain.Anchored
import RecordLinkage.Proofs.Weight.Overflow

namespace RecordLinkage

def EdgeIndex.Within {ω : Type} [Weight ω] (x : EdgeIndex ω) (b : ω) : Prop :=
  ∀ l w, x.weight? l = some w → Weight.le w b

namespace EdgeIndex.Within

variable {ω : Type} [Weight ω] {x : EdgeIndex ω} {b : ω}

theorem empty : (∅ : EdgeIndex ω).Within b := nofun

theorem put (h : x.Within b) (l : Link) {w : ω} (hw : Weight.le w b) : (x.put l w).Within b :=
  forall_weight?_put h hw

theorem erase (h : x.Within b) (l : Link) : (x.erase l).Within b := forall_weight?_erase h

end EdgeIndex.Within

/-- How long links of length `b` get by `n` merges below a threshold, at most. -/
def reach (t : Binary64) : Nat → Binary64 → Binary64
  | 0, b => b
  | n + 1, b => reach t n (b.add t)

theorem reach_succ (t : Binary64) (n : Nat) (b : Binary64) :
    reach t (n + 1) b = (reach t n b).add t := by
  induction n generalizing b with
  | zero => rfl
  | succ n ih => exact ih (b.add t)

namespace Graph

variable {G : Graph Binary64} {l : Link} {w b t : Binary64} {x y : Cluster Binary64} {v k : VertexId}

theorem distance?_le (h : G.edges.Within b) {u : VertexId} (hw : G.distance? u v = some w) :
    Weight.le w b := by
  obtain ⟨l, -, hl⟩ := Option.bind_eq_some_iff.mp hw
  exact h l w hl

theorem within_contract (hG : G.Canonical) (h : G.edges.Sound) (hb : Weight.storable b = true)
    (ht : Weight.storable t = true) (hwithin : G.edges.Within b)
    (hl : G.edges.weight? l = some w) (hlt : Weight.lt w t = true) :
    (G.contract l w x y k).edges.Within (b.add t) := by
  have hbounded (u v : VertexId) (p : Binary64) (hp : G.distance? u v = some p) :
      Weight.storable p = true ∧ Weight.le p b :=
    ⟨storable_distance? h hp, distance?_le hwithin hp⟩
  have hnew (p : VertexId × Binary64) (hp : p ∈ (G.relinks l w).toList) :
      Weight.le p.2 (b.add t) := by
    have hget := SortedMap.mem_toList.mp hp
    by_cases hends : p.1 = l.src ∨ p.1 = l.dst
    · rw [hG.get?_relinks_end hends] at hget
      cases hget
    · obtain ⟨hs, hd⟩ := not_or.mp hends
      rw [hG.get?_relinks, if_neg (Ne.symm hs), if_neg (Ne.symm hd)] at hget
      exact linkage_le (h.storable l w hl) (Weight.le_of_lt hlt) ht hb (hbounded _ _) (hbounded _ _)
        hget
  apply contract_edges (P := fun x => x.Within (b.add t)) (fun _ l hx => hx.erase l)
    (fun _ l p _ hp hx => hx.put l (hnew p hp))
  intro l' w' hw'
  have hcover := LawfulWeight.le_add b t hb ht
  exact Weight.le_trans (Weight.number_of_storable hb) (hwithin l' w' hw') hcover

end Graph

namespace Drain

variable {m m' : Memory Binary64} {g : GraphId} {t b : Binary64} {history : List (Step Binary64)}

theorem Steps.within (hs : Steps g t m history m') (sound : m.Sound)
    (anchored : (m.store.graph g).Anchored) (ht : Weight.storable t = true)
    (hb : (m.store.graph g).edges.Within b)
    (hreach : ∀ n ≤ history.countP Step.isMerge, Weight.storable (reach t n b) = true) :
    (m'.store.graph g).edges.Within (reach t (history.countP Step.isMerge) b) := by
  induction hs generalizing b with
  | nil => exact hb
  | @cons m m₁ m' s rest first later ih =>
    obtain ⟨stop, rfl, rfl⟩ | ⟨l, w, x, y, k, hl, hlt, -, -, -, -, hbecomes, rfl⟩ :=
      first.of_anchored anchored
    · rw [List.countP_cons] at hreach ⊢
      exact ih sound anchored hb hreach
    · rw [List.countP_cons] at hreach ⊢
      apply ih (first.sound sound) (first.anchored anchored)
      · rw [hbecomes.graph]
        exact Graph.within_contract anchored.toCanonical (sound g) (hreach 0 (Nat.zero_le _)) ht hb
          hl hlt
      · exact fun n hn => hreach (n + 1) (Nat.succ_le_succ hn)

end Drain

end RecordLinkage
