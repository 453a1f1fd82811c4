import RecordLinkage.Proofs.Document.RoundTrip

namespace RecordLinkage

variable {W : Type} {F : Format W}

namespace RoundTrips

open Fields.RoundTrip (field fieldOr)

variable (hF : F.Lawful)

include hF

theorem entityKey : RoundTripsAll F EntityKey :=
  ofFields hF (.and (field (ident hF) _) (field (ident hF) _)) (by decide) (fun _ => rfl)
    (fun _ => rfl) (by simp) fun _ => rfl

theorem vertexKey : RoundTripsAll F VertexKey :=
  ofFields hF (.and (field (ident hF) _) (field (ident hF) _)) (by decide) (fun _ => rfl)
    (fun _ => rfl) (by simp) fun _ => rfl

theorem cluster : RoundTrips F (Cluster Binary64) (fun _ => True) fun c => [c.diameter] :=
  ofFields hF (.and (field real _) (field (set hF (entityKey hF)) _)) (by decide) (fun _ => rfl)
    (fun _ => rfl) (by simp) fun _ => rfl

theorem edge : RoundTripsAll F Edge :=
  ofFields hF (.and (field (ident hF) _) (.and (field (ident hF) _) (field (ident hF) _)))
    (by decide) (fun _ => rfl) (fun _ => rfl) (by simp) fun _ => rfl

theorem weightedEdge : RoundTrips F (Edge × Binary64) (fun _ => True) fun p => [p.2] :=
  ofFields hF (.and (field (edge hF) _) (field real _)) (by decide) (fun _ => rfl) (fun _ => rfl)
    (by simp) fun _ => rfl

theorem keyedCluster :
    RoundTrips F (VertexKey × Cluster Binary64) (fun _ => True) fun p => [p.2.diameter] :=
  ofFields hF (.and (field (vertexKey hF) _) (field (cluster hF) _)) (by decide) (fun _ => rfl)
    (fun _ => rfl) (by simp) fun _ => rfl

theorem blockEntry : RoundTripsAll F BlockEntry :=
  ofFields hF (.and (field (ident hF) _) (field (entityKey hF) _)) (by decide) (fun _ => rfl)
    (fun _ => rfl) (by simp) fun _ => rfl

theorem entity : RoundTripsAll F Entity :=
  ofFields hF (field (map hF (set hF (text hF))) _) (by decide) (fun _ => rfl) (fun _ => rfl)
    (by simp) fun _ => rfl

theorem propertyIndex : RoundTripsAll F PropertyIndex :=
  ofFields hF (field (list hF (ident hF)) _) (by decide) (fun _ => rfl) (fun _ => rfl) (by simp)
    fun _ => rfl

theorem drainState : RoundTripsAll F DrainState := by
  refine of_all fun s => ?_
  cases s <;>
    · show (F.name? _ (F.text _)).bind _ = _
      rw [hF.name_read (by decide)]
      rfl

theorem merge : RoundTrips F (Merge Binary64) (fun m => m.relinked ≤ 0xffffffffffffffff)
    fun m => [m.weight] :=
  ofFields hF
    (.and (field (vertexKey hF) _) (.and (field (vertexKey hF) _) (.and (field (vertexKey hF) _)
      (.and (field real _) (field (nat hF) _)))))
    (by decide) (fun _ => rfl) (fun _ => rfl) (by simp) fun _ => rfl

theorem sweepReport :
    RoundTrips F SweepReport (fun r => r.removed ≤ 0xffffffffffffffff) fun _ => [] :=
  ofFields hF (.and (field (nat hF) _) (field (list hF (vertexKey hF)) _)) (by decide)
    (fun _ => rfl) (fun _ => rfl) (by simp) fun _ => rfl

theorem settings : RoundTrips F Settings
    (fun s => s.pollInterval ≤ 0xffffffffffffffff ∧ s.maxStalls ≤ 0xffffffff ∧
      s.scoringWorkers ≤ 0xffffffffffffffff ∧ s.clusteringWorkers ≤ 0xffffffffffffffff ∧
      s.queueCapacity ≤ 0xffffffffffffffff)
    fun s => [s.threshold, s.scoreBias] := by
  have hstalls : (@Fields.fieldOr _ (.natUpTo 0xffffffff) "max_stalls"
      (some Settings.default.maxStalls)).RoundTrip F (· ≤ 0xffffffff) fun _ => [] :=
    let _ : Documented Nat := .natUpTo 0xffffffff
    fieldOr (natUpTo hF _) _ (by decide)
  exact ofFields hF
    (.and (fieldOr real _ (by simp)) (.and (fieldOr real _ (by simp))
      (.and (fieldOr (nat hF) _ (by decide)) (.and hstalls
        (.and (fieldOr (nat hF) _ (by decide)) (.and (fieldOr (nat hF) _ (by decide))
          (fieldOr (nat hF) _ (by decide))))))))
    (by decide) (fun _ => rfl) (fun _ => rfl) (by simp) fun _ => rfl

theorem stopReason : RoundTrips F (StopReason Binary64) (fun _ => True) fun
    | .exhausted => []
    | .thresholdReached w => [w] := by
  refine of_fits (fun r _ => ?_) fun _ _ _ => trivial
  cases r with
  | exhausted =>
    refine iff_of_true ?_ (by simp)
    show (F.tagged? "reason" (F.record [("reason", F.text "exhausted")])).bind _ = _
    rw [hF.tagged_read rfl rfl, Option.bind_some]
    show (F.fields? [] (F.record _)).map _ = _
    rw [hF.fields_read (by simp)]
    rfl
  | thresholdReached w =>
    have hweight := (field (F := F) real "weight").ofRecord? hF (by decide) (x := w) trivial
    rw [← hweight]
    show (F.tagged? "reason" (F.record [("reason", F.text "threshold_reached"),
      ("weight", F.real w)])).bind _ = _ ↔ _
    rw [hF.tagged_read rfl rfl, Option.bind_some]
    refine Option.map_eq_some_iff.trans ⟨?_, fun h => ⟨w, h, rfl⟩⟩
    rintro ⟨v, hv, h⟩
    cases h
    exact hv

end RoundTrips

/-- The case of a reason is read by name, too. -/
theorem stopReason_readsByName (hF : F.Lawful) {case : String}
    {fields fields' extra : List (String × W)} (hcase : ("reason", F.text case) ∈ fields)
    (honce : ∀ n ∈ ["reason", "weight"], fields.countP (·.1 == n) ≤ 1)
    (hperm : fields'.Perm (fields ++ extra)) (hextra : ∀ p ∈ extra, p.1 ∉ ["reason", "weight"]) :
    (decode? F (F.record fields') : Option (StopReason Binary64)) =
      decode? F (F.record fields) := by
  have hreason : ∀ p ∈ extra, p.1 ≠ "reason" := fun p hp he => hextra p hp (by simp [he])
  have hone : fields.countP (·.1 == "reason") = 1 :=
    le_antisymm (honce _ (by simp)) (List.countP_pos_iff.mpr ⟨_, hcase, by simp⟩)
  have hlookup : fields.lookup "reason" = some (F.text case) :=
    (lookup_eq_some_iff_mem hone.le).mpr hcase
  have hone' := (countP_eq_of_perm hperm hreason).trans hone
  have hlookup' := (lookup_eq_of_perm hperm hreason hone.le).trans hlookup
  have hrest (names : List String) (hnames : names ⊆ ["weight"]) :
      F.fields? names (F.record (fields'.filter (·.1 != "reason"))) =
        F.fields? names (F.record (fields.filter (·.1 != "reason"))) := by
    have hkept : (fields'.filter (·.1 != "reason")).Perm
        (fields.filter (·.1 != "reason") ++ extra.filter (·.1 != "reason")) := by
      rw [← List.filter_append]
      exact hperm.filter _
    refine hF.fields_eq_of_perm (fun n hn => ?_) hkept ?_
    · exact List.filter_sublist.countP_le.trans (honce n (List.mem_cons_of_mem _ (hnames hn)))
    · exact fun p hp hname =>
        hextra p (List.mem_of_mem_filter hp) (List.mem_cons_of_mem _ (hnames hname))
  show (F.tagged? _ _).bind _ = (F.tagged? _ _).bind _
  rw [hF.tagged_read hone' hlookup', hF.tagged_read hone hlookup, Option.bind_some,
    Option.bind_some]
  simp only [Format.reason?, Fields.ofRecord?, hrest [] (by simp),
    hrest (Fields.field "weight").names (List.Subset.refl _)]

/-- An entity in an unusual form: one property is spelled in two ways, values stand in no order and
twice, and one field is unknown. -/
def unusualEntity : Document :=
  .record
    [("version", .int 2),
     ("properties", .record
      [("{0000000A-0000-0000-0000-00000000000B}", .list [.text "y"]),
       ("0000000000000000000000000000000c", .list []),
       ("urn:uuid:0000000a-0000-0000-0000-00000000000b",
        .list [.text "z", .text "x", .text "z"])])]

def usualEntity : Entity :=
  ⟨.ofList [(⟨⟨0xc⟩⟩, ∅), (⟨⟨0xa00000000000000000000000b⟩⟩, .ofList ["x", "z"])]⟩

/-- A merge at the weight 0.1 with the largest count. -/
def largeMerge : Merge Binary64 where
  a := ⟨⟨⟨1⟩⟩, ⟨⟨2⟩⟩⟩
  b := ⟨⟨⟨1⟩⟩, ⟨⟨3⟩⟩⟩
  merged := ⟨⟨⟨1⟩⟩, ⟨⟨4⟩⟩⟩
  weight := ⟨0x3fb999999999999a⟩
  relinked := 0xffffffffffffffff

end RecordLinkage
