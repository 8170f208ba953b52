/-
**Reports on the structure of a log file.**

Main definitions:

* `Report`, `Report.ofLog` — what there is to say about a file; the report on a file that was read;
* `ContainerReport` — what there is to say about one container;
* `Report.render` — the report as text.
-/

import TraceLog.Decimal.Fixed
import TraceLog.Reader

set_option relaxedAutoImplicit false
set_option autoImplicit false

namespace TraceLog

/-- What there is to say about one container. -/
structure ContainerReport where
  sequence : UInt64
  offset : Nat
  eventCount : UInt32
  firstTimestamp : UInt64
  lastTimestamp : UInt64
  rawSize : UInt32
  storedSize : UInt32
  codec : String
  /-- Stored bytes for each framed byte, one for an empty container. -/
  ratio : Float

/-- What there is to say about a file. -/
structure Report where
  size : Nat
  complete : Bool
  truncated : Bool
  version : Option UInt16
  /-- What the headers of the records add up to, modulo 2^64. -/
  eventCount : UInt64
  containers : List ContainerReport

/-- The quotient of the two sizes of a container, one if there is nothing to divide by. -/
def Header.ratio (h : Header) : Float :=
  if h.rawSize = 0 then 1.0 else Float.ofNat h.storedSize.toNat / Float.ofNat h.rawSize.toNat

/-- The report on a container. -/
def ContainerReport.ofEntry (e : Entry) : ContainerReport where
  sequence := e.header.sequence
  offset := e.offset
  eventCount := e.header.eventCount
  firstTimestamp := e.header.firstTimestamp
  lastTimestamp := e.header.lastTimestamp
  rawSize := e.header.rawSize
  storedSize := e.header.storedSize
  codec := Registry.nameOf e.header.tag.id
  ratio := e.header.ratio

namespace Report

/-- The report on a file that was read. -/
def ofLog (l : Log) : Report where
  size := l.size
  complete := l.isComplete
  truncated := l.isTruncated
  version := l.footer.map (·.version)
  eventCount := l.entries.foldl (fun count e => count + e.header.eventCount.toUInt64) 0
  containers := l.entries.map .ofEntry

/-- How the file was left. -/
def state (r : Report) : String :=
  if r.complete then "complete"
  else if r.truncated then "truncated"
  else "unfinished (no footer)"

/-- The number of places of a ratio. -/
def ratioPlaces : Nat := 2

/-- The line of a container behind its connector. -/
def describe (c : ContainerReport) : String :=
  s!"#{c.sequence} @{c.offset} | Events: {c.eventCount} | " ++
    s!"ts {c.firstTimestamp}..{c.lastTimestamp} | {c.rawSize}b -> {c.storedSize}b (" ++
    Decimal.ofBits ratioPlaces c.ratio.toBits ++ s!") | Algo: {c.codec}\n"

/-- The lines of the containers; the last one closes the tree. -/
def renderContainers : List ContainerReport → String
  | [] => ""
  | [c] => "└── " ++ describe c
  | c :: cs => "├── " ++ describe c ++ renderContainers cs

/-- The report as text. -/
def render (r : Report) : String :=
  "=== BUSLOG INSPECTOR REPORT ===\n" ++ s!"File Size:      {r.size}\n" ++
    s!"State:          {r.state}\n" ++ s!"Containers:     {r.containers.length}\n" ++
    s!"Events:         {r.eventCount}\n" ++ "\n[CONTAINERS]\n" ++ renderContainers r.containers

end Report

end TraceLog
