import MemoryKit.Console
import MemoryKit.FileStore
import MemoryKit.Log

/-!
# Sessions

A session holds what a run can change: the files, the two streams, and the log. It makes the program
a function from sessions to sessions, whatever the files are kept in.
-/

namespace MemoryKit

structure Session (φ : Type) where
  files : φ
  output : Sink := {}
  errors : Sink := {}
  /-- The filter of the log, once it has begun. -/
  filter : Option Log.Filter := none
  /-- The recorded events, in order. -/
  events : List Log.Event := []

abbrev SessionM (φ : Type) := StateM (Session φ)

namespace Session

variable {φ : Type}

def sink (session : Session φ) : Stream → Sink
  | .output => session.output
  | .errors => session.errors

def setSink (session : Session φ) (stream : Stream) (sink : Sink) : Session φ :=
  match stream with
  | .output => { session with output := sink }
  | .errors => { session with errors := sink }

def print (session : Session φ) (stream : Stream) (chunks : List String) :
    Except SinkError Unit × Session φ :=
  let (sink, result) := (session.sink stream).print chunks
  (result, session.setSink stream sink)

def record (session : Session φ) (event : Log.Event) : Session φ :=
  if session.filter.any (·.passes event) then
    { session with events := session.events ++ [event] }
  else session

def onFiles {α : Type} (x : StateM φ α) : SessionM φ α := fun session =>
  ((x session.files).1, { session with files := (x session.files).2 })

def callOnFiles {α : Type} (x : ExceptT FileError (StateM φ) α) :
    ExceptT FileError (SessionM φ) α :=
  ExceptT.mk (onFiles x.run)

instance : Console (SessionM φ) where
  print stream chunks := fun session => session.print stream chunks

instance : Logger (SessionM φ) where
  start filter := fun session => ((), { session with filter := session.filter <|> some filter })
  record event := fun session => ((), session.record event)

instance [FileStore (StateM φ)] : FileStore (SessionM φ) where
  read path := callOnFiles (FileStore.read path)
  permissions path := callOnFiles (FileStore.permissions path)
  createTemporary directory := callOnFiles (FileStore.createTemporary directory)
  write temporary content := callOnFiles (FileStore.write temporary content)
  sync temporary := callOnFiles (FileStore.sync temporary)
  setPermissions temporary permissions :=
    callOnFiles (FileStore.setPermissions temporary permissions)
  persist temporary path := callOnFiles (FileStore.persist temporary path)
  remove temporary := onFiles (FileStore.remove temporary)

end Session

end MemoryKit
