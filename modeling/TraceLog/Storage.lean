/-
**Where a log file is kept.**

A path leads to an ordinary file, which may be missing, or to something else: into a directory that
does not exist, to a directory, or to a device that takes no bytes.

Main definitions:

* `Place`, `Storage` — what a path leads to; the path with the content of an ordinary file;
* `Storage.create` — open a file for writing, without its former content;
* `Storage.resume` — open a finished file to go on where it ends; its footer is taken off;
* `Storage.writeAt` — content with some bytes at an offset;
* `Storage.load`, `Storage.store` — the content, for reading; other content in its place.
-/

import TraceLog.Sink

set_option relaxedAutoImplicit false
set_option autoImplicit false

namespace TraceLog

/-- What a path leads to. -/
inductive Place where
  /-- A file that exists or can be created. -/
  | regular
  /-- A file in a directory that does not exist. -/
  | orphan
  | directory
  /-- A device that takes no bytes. -/
  | fullDevice
  deriving DecidableEq

/-- A path with the content of the file there, if there is one. -/
structure Storage where
  path : String
  place : Place
  content : Option Spool

namespace Storage

/-- A path at which there is no file yet. -/
def vacant (path : String) (place : Place) : Storage := ⟨path, place, none⟩

/-- The path with other content. -/
def put (s : Storage) (content : Spool) : Storage := { s with content := some content }

/-- Open a file for writing, without its former content. -/
def create (s : Storage) : Except Error (Sink × Storage) :=
  match s.place with
  | .regular => .ok (.reliable .empty, s.put .empty)
  | .orphan => .error (.io .notFound)
  | .directory => .error (.io .isDirectory)
  | .fullDevice => .ok (.full, s)

/-- The content with some bytes at an offset.  They take the place of what is there; a gap before
them is filled with zeros. -/
def writeAt (content : Spool) (offset : Nat) (bs : Bytes) : Spool :=
  if content.size = offset then content.append bs
  else
    let old := content.toBytes
    .ofBytes (old.take offset ++ List.replicate (offset - old.length) 0 ++ bs ++
      old.drop (offset + bs.length))

/-- The totals in the footer of a finished file, and the bytes in front of the footer. -/
def splitFooter (path : String) (bs : Bytes) : Except Error (Bytes × Totals) :=
  if bs.length < Footer.size then .error (.format (.noRoomForFooter path))
  else
    let start := bs.length - Footer.size
    match Footer.decode (bs.drop start) with
    | .error fault => .error (.format (.notFinished path fault))
    | .ok footer =>
        if footer.isTruncated then .error (.format (.aborted path))
        else .ok (bs.take start, footer.totals)

/-- Open a finished file to go on where it ends: its footer is taken off, and the totals in it are
those to go on from.  A missing or empty file is a file without records. -/
def resume (s : Storage) : Except Error (Sink × Totals) × Storage :=
  match s.place with
  | .orphan => (.error (.io .notFound), s)
  | .directory => (.error (.io .isDirectory), s)
  | .fullDevice => (.ok (.full, .zero), s)
  | .regular =>
      let content := s.content.getD .empty
      let s := s.put content
      if content.size = 0 then (.ok (.reliable .empty, .zero), s)
      else
        match splitFooter s.path content.toBytes with
        | .error error => (.error error, s)
        | .ok (records, totals) =>
            (.ok (.reliable (.ofBytes records), totals), s.put (.ofBytes records))

/-- The content, for reading.  A device that takes no bytes reads as empty. -/
def load (s : Storage) : Except Error Bytes :=
  match s.place, s.content with
  | .orphan, _ => .error (.io .notFound)
  | .directory, _ => .error (.io .noDevice)
  | .fullDevice, _ => .ok []
  | .regular, none => .error (.io .notFound)
  | .regular, some content => .ok content.toBytes

/-- Put other content in the place of what is there, whoever has the file open. -/
def store (s : Storage) (bs : Bytes) : Except Error Storage :=
  match s.place with
  | .orphan => .error (.io .notFound)
  | .directory => .error (.io .isDirectory)
  | .fullDevice => if bs.isEmpty then .ok s else .error (.io .noSpace)
  | .regular => .ok (s.put (.ofBytes bs))

end Storage

end TraceLog
