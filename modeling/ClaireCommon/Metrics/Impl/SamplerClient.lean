import ClaireCommon.Metrics.Impl.CounterSampler
import ClaireCommon.Metrics.Impl.WriteJSON

/-!
This module contains the documents that the sampler of the counters writes, and a client that asks for
them.

The client is no part of the repository. It passes the time of the newest sample that it has got, as
`since` is meant to be used.
-/

namespace Claire
namespace CounterSampler

open DeclaredHistogram (key ofInt)
open Protobuf (Json)

abbrev Sample := Int × SampleEntry

structure Row where
  time : Int
  values : List Int
  deriving DecidableEq, Repr

def valueOf (entry : SampleEntry) (metric : String) : Int :=
  match entry.find metric with
  | some value => value
  | none => 0

def row (metrics : List String) (sample : Sample) : Row where
  time := sample.1 * 1000
  values := metrics.map (valueOf sample.2)

def rows (metrics : List String) (since : Int) : List Sample → List Row
  | [] => []
  | sample :: samples =>
    if 1000 * sample.1 ≤ since then
      rows metrics since samples
    else
      row metrics sample :: rows metrics since samples

def Row.item (r : Row) : Json := .array (.number (.ofInt64 (.ofInt r.time)) :: r.values.map ofInt)

-- `WriteJson` with the names of the metrics
def writeJson (s : CounterSampler) (metrics : List String) (since : Int) : Json :=
  .object [
    (key "names", .array (.string (key "time") :: metrics.map fun metric => .string (key metric))),
    (key "data", .array ((rows metrics since s.samples).map Row.item))
  ]

-- `WriteJson` without names, which leaves the output as it is where there is no sample
def writeNames (s : CounterSampler) : Option Json :=
  s.samples.getLast?.map fun sample =>
    .array (sample.2.entries.map fun counter => .string (cString (key counter.1)))

namespace Client

def readInt : Json → Option Int
  | .number n => some n.value
  | _ => none

def readRow : Json → Option Row
  | .array (time :: values) => do
    let time ← readInt time
    let values ← values.mapM readInt
    return { time := time, values := values }
  | _ => none

def readData : Json → Option (List Row)
  | .object members =>
    match members.lookup (key "data") with
    | some (.array items) => items.mapM readRow
    | _ => none
  | _ => none

def newest (since : Int) (rows : List Row) : Int := rows.foldl (fun since row => max since row.time) since

end Client

structure Client where
  sampler : CounterSampler
  since : Int
  received : List Row
  -- The samples so far and, with `none`, the requests among them
  history : List (Option Sample)

namespace Client

def init (capacity : Nat) (since : Int) : Client where
  sampler := .create capacity
  since := since
  received := []
  history := []

inductive Label where
  | sample (snapshot : Snapshot) (now : Int)
  | request

variable (metrics : List String)

def sample (c : Client) (snapshot : Snapshot) (now : Int) : Option Client :=
  match c.sampler.doSample snapshot now with
  | .error _ => none
  | .ok (entry, sampler) =>
    let history := if entry.isEmpty then c.history else c.history ++ [some (now, entry)]
    some { c with sampler := sampler, history := history }

def request (c : Client) : Option Client :=
  match readData (c.sampler.writeJson metrics c.since) with
  | none => none
  | some rows =>
    some { c with
      since := newest c.since rows
      received := c.received ++ rows
      history := c.history ++ [none] }

def step (c : Client) : Label → Option Client
  | .sample snapshot now => c.sample snapshot now
  | .request => c.request metrics

end Client
end CounterSampler
end Claire
