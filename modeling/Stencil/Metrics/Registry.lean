import Stencil.Metrics.Family

/-!
# The metrics of renders

Five families: renders by outcome, rejections by gate, renders under way, durations, and what the caches have found.
-/

namespace Stencil.Metrics

/-- The metrics of a renderer. -/
structure Registry where
  renders : Counters
  rejections : Counters
  underWay : Gauges
  durations : Histograms
  cacheEvents : Counters
deriving Repr

namespace Registry

/-- Metrics before any render. -/
def empty : Registry := ⟨[], [], [], [], []⟩

/-- Counts a render by its outcome. -/
def countRender (r : Registry) (outcome : Text) : Registry :=
  { r with renders := r.renders.increment [("outcome".toList, outcome)] }

/-- Counts a rejection by its gate. -/
def countRejection (r : Registry) (gate : Text) : Registry :=
  { r with rejections := r.rejections.increment [("gate".toList, gate)] }

/-- The labels of an event of a cache. -/
def cacheLabels (cache result : Text) : Labels := [("cache".toList, cache), ("result".toList, result)]

/-- Counts an event of a cache. -/
def countCacheEvent (r : Registry) (cache result : Text) : Registry :=
  { r with cacheEvents := r.cacheEvents.increment (cacheLabels cache result) }

/-- Counts so many events of a cache; none at all leave no trace. -/
def countCacheEvents (r : Registry) (cache result : Text) : Nat → Registry
  | 0 => r
  | n + 1 => countCacheEvents (r.countCacheEvent cache result) cache result n

/-- All samples, with further ones of a caller behind them. -/
def samples (r : Registry) (extra : List (Text × Nat)) : List Text :=
  r.renders.lines "tmplguard_renders_total" ++ r.rejections.lines "tmplguard_gate_rejections_total" ++
    r.underWay.lines "tmplguard_renders_in_flight" ++ r.durations.lines "tmplguard_render_duration_micros" ++
    r.cacheEvents.lines "tmplguard_cache_events_total" ++
    extra.map fun (name, n) => name ++ ' ' :: Text.ofNat n

/-- All samples as one text, each on a line of its own. -/
def exposition (r : Registry) (extra : List (Text × Nat)) : Text := (r.samples extra).flatMap (· ++ ['\n'])

/-- The lines of all samples. A name may hold a break, so there may be more lines than samples. -/
def lines (r : Registry) (extra : List (Text × Nat)) : List Text := Text.lines (r.exposition extra)

end Registry

end Stencil.Metrics
