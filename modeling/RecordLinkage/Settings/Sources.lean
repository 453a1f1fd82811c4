import RecordLinkage.Settings.Basic
import RecordLinkage.Settings.Override
import RecordLinkage.Settings.Wrapped

namespace RecordLinkage.Settings

abbrev Layer := List (String × Setting)

/-- The values of several layers. Of values for one field the last one holds. -/
def combine (layers : List Layer) : SortedMap String Setting := .ofList layers.flatten

/-- Settings with the given values and the defaults for what they leave out. Of several bad values
that of the first field in alphabetical order is reported. -/
def ofValues (values : SortedMap String Setting) : Except SettingsError Settings := do
  let field {α : Type} (name : String) (read : String → Setting → Except SettingsError α)
      (usual : α) : Except SettingsError α :=
    match SortedMap.get? values name with
    | some v => read name v
    | none => .ok usual
  let clusteringWorkers ←
    field "clustering_workers" (Setting.toCount .size) default.clusteringWorkers
  let maxStalls ← field "max_stalls" (Setting.toCount .short) default.maxStalls
  let pollInterval ← field "poll_interval_ms" (Setting.toCount .long) default.pollInterval
  let queueCapacity ← field "queue_capacity" (Setting.toCount .size) default.queueCapacity
  let scoreBias ← field "score_bias" Setting.toReal default.scoreBias
  let scoringWorkers ← field "scoring_workers" (Setting.toCount .size) default.scoringWorkers
  let threshold ← field "threshold" Setting.toReal default.threshold
  return {
    threshold, scoreBias, pollInterval, maxStalls, scoringWorkers, clusteringWorkers, queueCapacity }

/-- The values that a document gives; `none` if it is malformed. At its top no key is special. -/
def layer? (document : String) : Option Layer := do
  (← Toml.read document).mapM fun p => return (p.1, ← p.2.unwrap)

/-- Reads settings from documents, each over the one before, and from overrides over all of them,
and checks them. One malformed document spoils all. -/
def load (documents : List String) (overrides : List (String × String)) :
    Except (Error Binary64) Settings := do
  let layers ← match documents.mapM layer? with
    | some layers => .ok layers
    | none => throw (.settings .malformed)
  let settings ← (ofValues (combine (layers ++ [Override.layer overrides]))).mapError Error.settings
  settings.validate.mapError Error.validation

end RecordLinkage.Settings
