import RecordLinkage.Drain
import RecordLinkage.Progress.Wait
import RecordLinkage.Scoring.Pair

namespace RecordLinkage

structure Settings where
  threshold : Binary64
  scoreBias : Binary64
  /-- In milliseconds. -/
  pollInterval : Nat
  maxStalls : Nat
  scoringWorkers : Nat
  clusteringWorkers : Nat
  queueCapacity : Nat
  deriving DecidableEq, Repr

namespace Settings

def default : Settings where
  threshold := defaultThreshold
  scoreBias := defaultBias
  pollInterval := defaultPolicy.interval
  maxStalls := defaultPolicy.maxStalls
  scoringWorkers := 4
  clusteringWorkers := 1
  queueCapacity := 1024

/-- Refuses the first value that is out of range. -/
def validate (s : Settings) : Except (ValidationError Binary64) Settings := do
  if !Weight.bounding s.threshold then throw (.threshold s.threshold)
  if !Weight.storable s.scoreBias then throw (.bias s.scoreBias)
  if s.pollInterval = 0 then throw .zeroPollInterval
  if s.maxStalls = 0 then throw .zeroMaxStalls
  return s

def pollPolicy (s : Settings) : PollPolicy := ⟨s.pollInterval, s.maxStalls⟩

end Settings

end RecordLinkage
