import TimeMerge.Decimal.SafeInterval

/-!
Meters of a run: counters and histograms per stage, and their text. A series exists once something
was counted in it, even if that was zero; lines within a family stand in the order of their bytes.
-/
namespace TimeMerge

/-- Bounds that grow by the same factor from `min` to `max`. -/
def exponentialBounds (min max : Float) (length : Nat) : List Float :=
  let growth := (max / min) ^ (1.0 / (Float.ofNat (Nat.max length 2) - 1.0))
  (List.range length).map fun i => min * growth ^ Float.ofNat i

/-- Upper bounds of the buckets, in microseconds. -/
def bucketBounds : List Float := exponentialBounds 1.0 60000000.0 10

/-- Observations of one series; `within` counts those that each bucket bound holds. -/
structure Histogram where
  count : Nat := 0
  sum : Float := 0
  within : List Nat := bucketBounds.map fun _ => 0

def Histogram.observe (x : Float) (h : Histogram) : Histogram where
  count := h.count + 1
  sum := h.sum + x
  within := List.zipWith (fun bound n => if x ≤ bound then n + 1 else n) bucketBounds h.within

/-- Changes the series of a stage, which starts out as `fresh`. -/
def touch (stage : String) (fresh : β) (f : β → β) : List (String × β) → List (String × β)
  | [] => [(stage, f fresh)]
  | (s, b) :: rest => if s = stage then (s, f b) :: rest else (s, b) :: touch stage fresh f rest

structure Meters where
  forwarded : List (String × Nat) := []
  malformed : List (String × Nat) := []
  sinkTime : List (String × Histogram) := []

namespace Meters

def countForwarded (stage : String) (n : Nat) (m : Meters) : Meters :=
  { m with forwarded := touch stage 0 (· + n) m.forwarded }

def countMalformed (stage : String) (n : Nat) (m : Meters) : Meters :=
  { m with malformed := touch stage 0 (· + n) m.malformed }

def observe (stage : String) (micros : Float) (m : Meters) : Meters :=
  { m with sinkTime := touch stage {} (Histogram.observe micros) m.sinkTime }

/-- Positional from 0.000001 up to 21 digits before the point. -/
def floatLayout : Decimal.Layout := ⟨-6, 21, false⟩

def floatText (x : Float) : String :=
  floatLayout.renderBits Decimal.Magnitude.inSafeInterval x.toBits

/-- Counters are 64-bit words, which start again at zero. -/
def countText (n : Nat) : String := toString (n % 18446744073709551616)

/-- One label of a sample. Its value is written as it is. -/
def label (key value : String) : String := key ++ "=\"" ++ value ++ "\""

def labels (pairs : List (String × String)) : String :=
  "\x7b" ++ ",".intercalate (pairs.map fun p => label p.1 p.2) ++ "\x7d"

def counterLine (name : String) (series : String × Nat) : String :=
  let stage := labels [("stage", series.1)]
  let count := countText series.2
  s!"{name}_total{stage} {count}"

def histogramLines (name : String) (series : String × Histogram) : List String :=
  let stage := labels [("stage", series.1)]
  let bucket (bound : String) (n : Nat) : String :=
    let both := labels [("le", bound), ("stage", series.1)]
    s!"{name}_bucket{both} {n}"
  let h := series.2
  let sum := floatText h.sum
  s!"{name}_count{stage} {h.count}" :: s!"{name}_sum{stage} {sum}" :: bucket "+Inf" h.count ::
    List.zipWith (fun bound n => bucket (floatText bound) n) bucketBounds h.within

def family (name kind help : String) (samples : List String) : List String :=
  s!"# HELP {name} {help}." :: s!"# TYPE {name} {kind}" ::
    samples.mergeSort (fun a b => decide (a ≤ b))

/-- The text of all meters, line by line. -/
def lines (m : Meters) : List String :=
  family "ordmerge_forwarded" "counter"
      "Total number of records forwarded to a sink, in release order"
      (m.forwarded.map (counterLine "ordmerge_forwarded")) ++
    family "ordmerge_malformed" "counter"
      "Total number of raw records skipped because no timestamp could be extracted"
      (m.malformed.map (counterLine "ordmerge_malformed")) ++
    family "ordmerge_sink_time" "histogram"
      "A Histogram to keep track of the time taken by the sink per record, in microseconds"
      (m.sinkTime.flatMap (histogramLines "ordmerge_sink_time")) ++
    ["# EOF"]

end Meters

end TimeMerge
