import RecordLinkage.Document.Basic
import RecordLinkage.Drain
import RecordLinkage.Entity
import RecordLinkage.Settings.Basic
import RecordLinkage.Sweep

namespace RecordLinkage

instance {kind : IdKind} : Documented (Ident kind) where
  encode F i := F.text (F.uuid i.uuid)
  decode? F w := do return ⟨← F.uuid? (← F.text? w)⟩

/-- A set is written in order and read in any. -/
instance {κ : Type} [SortKey κ] [Documented κ] : Documented (SortedSet κ) where
  encode F s := encode F s.toList
  decode? F w := (decode? F w).map SortedBy.ofList

def Format.entry? {W : Type} (F : Format W) {kind : IdKind} {α : Type} [Documented α]
    (p : String × W) : Option (Ident kind × α) := do
  return (⟨← F.uuid? p.1⟩, ← decode? F p.2)

/-- A map from identifiers is a record with their texts as names. -/
instance {kind : IdKind} {α : Type} [Documented α] : Documented (SortedMap (Ident kind) α) where
  encode F m := F.record (m.toList.map fun p => (F.uuid p.1.uuid, encode F p.2))
  decode? F w := ((F.entries? w).bind (·.mapM F.entry?)).map SortedBy.ofList

instance : Documented EntityKey :=
  .ofFields (.and (.field "entity_set_id") (.field "entity_id")) (fun p => ⟨p.1, p.2⟩)
    fun k => (k.set, k.entity)

instance : Documented VertexKey :=
  .ofFields (.and (.field "graph_id") (.field "vertex_id")) (fun p => ⟨p.1, p.2⟩)
    fun k => (k.graph, k.vertex)

instance : Documented (Cluster Binary64) :=
  .ofFields (.and (.field "diameter") (.field "members")) (fun p => ⟨p.1, p.2⟩)
    fun c => (c.diameter, c.members)

/-- An edge is read as it is written, in normal form or not. -/
instance : Documented Edge :=
  .ofFields (.and (.field "graph_id") (.and (.field "src") (.field "dst")))
    (fun p => ⟨p.1, p.2.1, p.2.2⟩) fun e => (e.graph, e.link.src, e.link.dst)

instance : Documented (Edge × Binary64) :=
  .ofFields (.and (.field "edge") (.field "weight")) id id

instance : Documented (VertexKey × Cluster Binary64) :=
  .ofFields (.and (.field "key") (.field "vertex")) id id

instance : Documented BlockEntry :=
  .ofFields (.and (.field "graph_id") (.field "entity_key")) (fun p => ⟨p.1, p.2⟩)
    fun b => (b.graph, b.entity)

instance : Documented Entity := .ofFields (.field "properties") Entity.mk Entity.properties

/-- Properties are read as they stand, repeated or not. -/
instance : Documented PropertyIndex :=
  .ofFields (.field "properties") PropertyIndex.mk PropertyIndex.properties

instance : Documented DrainState where
  encode F
    | .draining => F.text "draining"
    | .done => F.text "done"
  decode? F w := do
    match ← F.name? ["draining", "done"] w with
    | "draining" => return .draining
    | "done" => return .done
    | _ => none

def Format.reason? {W : Type} (F : Format W) (rest : W) : String → Option (StopReason Binary64)
  | "exhausted" => (F.fields? [] rest).map fun _ => .exhausted
  | "threshold_reached" => ((Fields.field "weight").ofRecord? F rest).map .thresholdReached
  | _ => none

/-- The field `reason` tells the case. -/
instance : Documented (StopReason Binary64) where
  encode F
    | .exhausted => F.record [("reason", F.text "exhausted")]
    | .thresholdReached w =>
      F.record [("reason", F.text "threshold_reached"), ("weight", encode F w)]
  decode? F w := do
    let (name, rest) ← F.tagged? "reason" w
    F.reason? rest name

instance : Documented (Merge Binary64) :=
  .ofFields
    (.and (.field "a") (.and (.field "b") (.and (.field "merged")
      (.and (.field "weight") (.field "relinked")))))
    (fun p => ⟨p.1, p.2.1, p.2.2.1, p.2.2.2.1, p.2.2.2.2⟩)
    fun m => (m.a, m.b, m.merged, m.weight, m.relinked)

instance : Documented SweepReport :=
  .ofFields (.and (.field "dangling_edges_removed") (.field "isolated_vertices"))
    (fun p => ⟨p.1, p.2⟩) fun r => (r.removed, r.isolated)

/-- Settings that are left out take their defaults. Values are not checked, but the number of stalls
has 32 bits. -/
instance : Documented Settings :=
  let usual := Settings.default
  .ofFields
    (.and (.fieldOr "threshold" usual.threshold) (.and (.fieldOr "score_bias" usual.scoreBias)
      (.and (.fieldOr "poll_interval_ms" usual.pollInterval)
        (.and (@Fields.fieldOr _ (.natUpTo 0xffffffff) "max_stalls" usual.maxStalls)
          (.and (.fieldOr "scoring_workers" usual.scoringWorkers)
            (.and (.fieldOr "clustering_workers" usual.clusteringWorkers)
              (.fieldOr "queue_capacity" usual.queueCapacity)))))))
    (fun (threshold, bias, interval, stalls, scoring, clustering, capacity) =>
      ⟨threshold, bias, interval, stalls, scoring, clustering, capacity⟩)
    fun s => (s.threshold, s.scoreBias, s.pollInterval, s.maxStalls, s.scoringWorkers,
      s.clusteringWorkers, s.queueCapacity)

end RecordLinkage
