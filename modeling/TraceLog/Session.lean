/-
**Sessions on a log file.**

A session is a path with the file that is open for writing there.  Several callers can be at work
on the open file; between two operations everything that can proceed does so, except that calls of
the codec may be held back for a while.  A file that was given up is closed when the last call on it
is over.

Main definitions:

* `Mode`, `Opening` — how a file is opened;
* `Mishaps` — which steps of starting a pipeline fail;
* `Caller`, `Outcome` — someone who makes calls one after the other; what came of it;
* `Handle` — a file that was opened, with how far it was written;
* `Session`, `Session.openFile` — a path with its open file; open the file;
* `Session.begin`, `Session.perform` — make calls; make them and await their outcome;
* `Session.drop`, `Session.release` — give up the open file; let calls of the codecs proceed;
* `Session.path?` — the path of the open file;
* `Session.read`, `Session.overwrite` — read the file as it is now; replace its content.
-/

import TraceLog.Pipeline
import TraceLog.Reader
import TraceLog.Storage

set_option relaxedAutoImplicit false
set_option autoImplicit false

namespace TraceLog

/-- How a file is opened for writing. -/
inductive Mode where
  /-- Without its former content. -/
  | truncate
  /-- To go on where it ends. -/
  | append
  deriving DecidableEq

/-- How a file is opened in a session. -/
structure Opening where
  mode : Mode
  options : Options
  /-- Whether calls of the codec proceed from the start. -/
  compressing : Bool
  /-- Whether calls of the codecs of files that were opened before proceed from now on. -/
  releasing : Bool

/-- Which steps of opening a file fail although nothing is wrong with the file. -/
structure Mishaps where
  /-- The footer of the file cannot be read. -/
  reading : Option StorageFault
  /-- The workers cannot be started. -/
  workers : Option StorageFault
  /-- The scribe cannot be started. -/
  scribe : Option StorageFault
  /-- The batcher cannot be started. -/
  batcher : Option StorageFault

namespace Mishaps

/-- Nothing goes wrong. -/
def none : Mishaps := ⟨.none, .none, .none, .none⟩

/-- The first thread that cannot be started, in the order in which they are. -/
def thread? (m : Mishaps) : Option StorageFault := m.workers <|> m.scribe <|> m.batcher

end Mishaps

/-- Open a file and find out from which totals to go on. -/
def Storage.openFor (s : Storage) (mishaps : Mishaps) :
    Mode → Except Error (Sink × Totals) × Storage
  | .truncate =>
      match s.create with
      | .error error => (.error error, s)
      | .ok (sink, s) => (.ok (sink, .zero), s)
  | .append =>
      match mishaps.reading with
      | some fault => (.error (.io fault), s)
      | none => s.resume

/-- Open a file and start its pipeline.  When the threads are started, the file has been prepared
already. -/
def Pipeline.launch (s : Storage) (mode : Mode) (settings : Settings) (mishaps : Mishaps) :
    Except Error Pipeline × Storage :=
  match s.openFor mishaps mode with
  | (.error error, s) => (.error error, s)
  | (.ok (sink, totals), s) =>
      match Pipeline.start settings sink totals, mishaps.thread? with
      | .error error, _ => (.error error, s)
      | .ok _, some fault => (.error (.io fault), s)
      | .ok pipeline, none => (.ok pipeline, s)

/-! ### Callers -/

/-- Someone who makes several calls, one after the other, up to the first that fails. -/
structure Caller where
  /-- The ticket of the caller, which is also that of its calls. -/
  id : Nat
  /-- What will be asked for after the call that is under way. -/
  agenda : List Request
  /-- What was answered before, the latest answer first. -/
  answers : List Answer

/-- What a caller has got in the end. -/
structure Outcome where
  answers : List Answer
  /-- The error of the call that was the last one because it failed. -/
  error : Option Error

namespace Outcome

/-- The outcome of calls on a file that is not open. -/
def unopened : Outcome := ⟨[], some .closed⟩

/-- The result of the last call. -/
def last? (o : Outcome) : Option (Except Error Answer) :=
  match o.error with
  | some error => some (.error error)
  | none => o.answers.getLast?.map .ok

/-- The numbers of the events that were taken. -/
def numbers (o : Outcome) : List Nat :=
  o.answers.filterMap fun
    | .numbered n => some n
    | _ => none

/-- The numbers of the events, provided that all of them were taken. -/
def allNumbers (o : Outcome) : Except Error (List Nat) :=
  match o.error with
  | some error => .error error
  | none => .ok o.numbers

end Outcome

/-- Events whose timestamps lie `step` apart. -/
def Request.writes (count timestamp step : Nat) (payload : Bytes) : List Request :=
  (List.range count).map fun i => .write (UInt64.ofNat (timestamp + i * step)) payload

/-! ### Files that were opened -/

/-- The size of the file, as it is told to whoever has finished it. -/
def CallStage.measure (size : Nat) : CallStage → CallStage
  | .returned (.ok (.finished summary)) => .returned (.ok (.finished { summary with size }))
  | stage => stage

/-- The pipeline of a file of which the size is known. -/
def Pipeline.measure (p : Pipeline) (size : Nat) : Pipeline :=
  { p with calls := p.calls.map fun (id, stage) => (id, stage.measure size) }

/-- A file that was opened for writing. -/
structure Handle where
  /-- The path that it was opened with. -/
  path : String
  pipeline : Pipeline
  /-- How far the pipeline has written into the file. -/
  position : Nat
  /-- Whether calls of the codec proceed. -/
  compressing : Bool
  callers : List Caller

namespace Handle

/-- A newly opened file. -/
def start (path : String) (pipeline : Pipeline) (compressing : Bool) : Handle :=
  ⟨path, pipeline.settle compressing, pipeline.file.taken.size, compressing, []⟩

/-- Whether the file is still held by its pipeline. -/
def attached (h : Handle) : Bool := h.pipeline.closedFile.isNone

/-- Whether no call is under way. -/
def idle (h : Handle) : Bool :=
  h.pipeline.calls.all fun c =>
    match c.2 with
    | .returned _ => true
    | _ => false

/-- The storage after the pipeline has written on.  What is new goes into the file where the last
writing ended. -/
def stored (h : Handle) (storage : Storage) (p : Pipeline) : Storage :=
  let written := p.file.taken
  if storage.place = .regular && h.position < written.size then
    storage.put (Storage.writeAt (storage.content.getD .empty) h.position
      (written.after h.position))
  else storage

/-- The handle with its pipeline in another state, and the storage with what has been written since.
If the file has been finished meanwhile, its size is that of the file as it is now, which may be
larger than what this pipeline has written. -/
def advance (h : Handle) (storage : Storage) (p : Pipeline) : Handle × Storage :=
  if h.attached then
    let storage := h.stored storage p
    let p :=
      match storage.content with
      | some content => p.measure content.size
      | none => p
    ({ h with pipeline := p, position := p.file.taken.size }, storage)
  else ({ h with pipeline := p }, storage)

/-- Make a call, and let everyone proceed. -/
def call (h : Handle) (id : Nat) (request : Request) (storage : Storage) : Handle × Storage :=
  h.advance storage (h.pipeline.call h.compressing id request)

/-- A caller whose call is over and who has more to ask for: what that is, and the caller behind
it. -/
def next? (h : Handle) : Option (Request × Caller) :=
  h.callers.findSome? fun c =>
    match c.agenda, h.pipeline.result? c.id with
    | request :: agenda, some (.ok answer) =>
        some (request, { c with agenda, answers := answer :: c.answers })
    | _, _ => none

/-- Let callers make their next calls, at most `fuel` of them. -/
def proceedFor : (fuel : Nat) → Handle → Storage → Handle × Storage
  | 0, h, storage => (h, storage)
  | fuel + 1, h, storage =>
      match h.next? with
      | none => (h, storage)
      | some (request, c) =>
          let h : Handle :=
            { h with
              pipeline := h.pipeline.leave c.id
              callers := h.callers.map fun d => if d.id = c.id then c else d }
          let (h, storage) := h.call c.id request storage
          proceedFor fuel h storage

/-- Let callers make their next calls until all of them wait or are done. -/
def proceed (h : Handle) (storage : Storage) : Handle × Storage :=
  proceedFor (h.callers.foldl (fun count c => count + c.agenda.length) 0) h storage

/-- Someone makes calls, one after the other. -/
def begin (h : Handle) (id : Nat) (storage : Storage) : List Request → Handle × Storage
  | [] => ({ h with callers := ⟨id, [], []⟩ :: h.callers }, storage)
  | request :: agenda =>
      let (h, storage) :=
        { h with callers := ⟨id, agenda, []⟩ :: h.callers }.call id request storage
      h.proceed storage

/-- What a caller has got, once all its calls are over. -/
def outcome? (h : Handle) (id : Nat) : Option Outcome :=
  match h.callers.find? (·.id = id) with
  | none => none
  | some c =>
      match h.pipeline.stage? id, c.agenda with
      | none, _ => some ⟨[], none⟩
      | some (.returned (.error error)), _ => some ⟨c.answers.reverse, some error⟩
      | some (.returned (.ok answer)), [] => some ⟨(answer :: c.answers).reverse, none⟩
      | _, _ => none

/-- A caller whose calls are over is forgotten. -/
def forget (h : Handle) (id : Nat) : Handle :=
  { h with pipeline := h.pipeline.leave id, callers := h.callers.filter (·.id ≠ id) }

/-- From now on calls of the codec proceed. -/
def release (h : Handle) (storage : Storage) : Handle × Storage :=
  let (h, storage) := { h with compressing := true }.advance storage (h.pipeline.settle true)
  h.proceed storage

/-- Close a file that was given up, once no call on it is under way. -/
def retire (h : Handle) (id : Nat) (storage : Storage) : Handle × Storage :=
  if h.attached && h.idle then h.call id .close storage else (h, storage)

end Handle

/-! ### Sessions -/

/-- A path with the file that is open for writing there. -/
structure Session where
  storage : Storage
  current : Option Handle
  /-- The files that were given up, the latest one first.  Calls on them may still be under way. -/
  former : List Handle
  /-- The ticket of the next caller. -/
  nextCaller : Nat

namespace Session

/-- Nothing is open. -/
def start (storage : Storage) : Session := ⟨storage, none, [], 0⟩

/-- Give up a file.  It is closed if no call on it is under way; nobody learns how that ends. -/
def giveUp (s : Session) (h : Handle) : Session :=
  let (h, storage) := h.retire s.nextCaller s.storage
  { s with storage, former := h :: s.former, nextCaller := s.nextCaller + 1 }

/-- From now on calls of the codecs proceed, on the files that were given up and on the open one. -/
def release (s : Session) : Session :=
  let s := s.former.foldr (fun h s =>
    let (h, storage) := h.release s.storage
    { s with storage }.giveUp h) { s with former := [] }
  match s.current with
  | none => s
  | some h =>
      let (h, storage) := h.release s.storage
      { s with storage, current := some h }

/-! ### Calls -/

/-- Make calls on the open file, one after the other, and let everyone proceed.  The answer is the
ticket of the caller, unless no file is open. -/
def begin (s : Session) (requests : List Request) : Option Nat × Session :=
  match s.current with
  | none => (none, s)
  | some h =>
      let id := s.nextCaller
      let (h, storage) := h.begin id s.storage requests
      (some id, { s with storage, current := some h, nextCaller := id + 1 })

/-- What a caller has got, once all its calls are over. -/
def outcome? (s : Session) (id : Nat) : Option Outcome :=
  (s.current.toList ++ s.former).findSome? (·.outcome? id)

/-- A caller whose calls are over is forgotten. -/
def forget (s : Session) (id : Nat) : Session :=
  { s with current := s.current.map (·.forget id), former := s.former.map (·.forget id) }

/-- Await what a caller gets, which is nothing if its calls would wait for ever. -/
def await (s : Session) (id : Nat) : Option Outcome × Session :=
  match s.outcome? id with
  | some outcome => (some outcome, s.forget id)
  | none => (none, s)

/-- Make calls on the open file, one after the other, and await their outcome.  Calls that would
wait for ever have none. -/
def perform (s : Session) (requests : List Request) : Option Outcome × Session :=
  match s.begin requests with
  | (none, s) => (some .unopened, s)
  | (some id, s) => s.await id

/-! ### Opening and giving up -/

/-- Give up the open file.  It is closed when the last call on it is over, which can be long after
another file was opened there. -/
def drop (s : Session) : Session :=
  match s.current with
  | none => s
  | some h => { s with current := none }.giveUp h

/-- Open the file.  A file that is already open there is given up afterwards, whether the new one
could be opened or not.  What it had not written yet then goes into the file at its own position. -/
def openFile (s : Session) (o : Opening) : Except Error Unit × Session :=
  let (result, storage) : Except Error Pipeline × Storage :=
    match o.options.check with
    | .error error => (.error error, s.storage)
    | .ok settings => Pipeline.launch s.storage o.mode settings .none
  let s := { s with storage }
  let s := (if o.releasing then s.release else s).drop
  match result with
  | .error error => (.error error, s)
  | .ok p => (.ok (), { s with current := some (.start s.storage.path p o.compressing) })

/-! ### The file -/

/-- The path that the open file was opened with. -/
def path? (s : Session) : Option String := s.current.map (·.path)

/-- Read the file as it is now, with the given codecs beside the built-in ones. -/
def read (s : Session) (codecs : List Codec) : Except Error (Log × Registry) :=
  match Registry.builtin.registerAll codecs with
  | .error error => .error error
  | .ok registry =>
      match s.storage.load with
      | .error error => .error error
      | .ok bs => (Log.read bs).map fun log => (log, registry)

/-- Replace the content of the file. -/
def overwrite (s : Session) (bs : Bytes) : Except Error Unit × Session :=
  match s.storage.store bs with
  | .error error => (.error error, s)
  | .ok storage => (.ok (), { s with storage })

/-- Replace the content of the file by what a function makes of it. -/
def edit (s : Session) (change : Bytes → Bytes) : Except Error Unit × Session :=
  match s.storage.load with
  | .error error => (.error error, s)
  | .ok bs => s.overwrite (change bs)

/-- Flip some bits of one byte of the file, counted from the end if `offset` is negative. -/
def patch (s : Session) (offset : Int) (mask : UInt8) : Except Error Unit × Session :=
  s.edit fun bs =>
    let index := if offset < 0 then offset + bs.length else offset
    if index < 0 then bs else bs.modify index.toNat (· ^^^ mask)

/-- Remove bytes from the end of the file. -/
def cut (s : Session) (count : Nat) : Except Error Unit × Session :=
  s.edit fun bs => bs.take (bs.length - count)

end Session

end TraceLog
