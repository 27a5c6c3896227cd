import ZipArchive.Archive

/-!
# Sessions

A session is an open archive and any number of streams of its members, kept under names. Requests
are answered one by one. A stream outlives the archive it was plugged from, and a failed request
leaves the session as it was, apart from the stream that was read.
-/
namespace ZipArchive

/-- What a session is asked for. -/
inductive Request where
  | members
  | find (path : List UInt8)
  | member (index : Nat)
  | plug (index : Nat) (stream : String)
  | read (stream : String) (length : Nat)
  | readToEnd (stream : String)
  | seek (stream : String) (target : SeekTarget)
  | close (stream : String)
  /-- Extract into a sink that takes no more than `limit` bytes. -/
  | extract (index : Nat) (limit : Option Nat)
  | range (index : Nat)
  /-- Let go of the archive, but not of its streams. -/
  | drop
  deriving DecidableEq, Repr

variable [Decoders]

/-- What a session answers. -/
inductive Answer where
  | members (members : Array Member)
  | index (index : Nat)
  | member (member : Member)
  | plugged (plugged : Plugged)
  | bytes (bytes : ByteArray)
  | position (position : Nat)
  | closed
  | extracted (content : Extracted)
  | range (range : DataRange)
  | dropped
  | noStream
  | noArchive
  | failed (error : ZipError)
  | streamFailed (error : IoError)

/-- Streams under their names. -/
abbrev Streams : Type := List (String × MemberStream)

namespace Streams

def get? (streams : Streams) (name : String) : Option MemberStream := streams.lookup name

def erase (streams : Streams) (name : String) : Streams := streams.filter (·.1 ≠ name)

/-- Keeps a stream under a name, in place of an older one. -/
def insert (streams : Streams) (name : String) (stream : MemberStream) : Streams :=
  (name, stream) :: streams.erase name

end Streams

structure Session where
  /-- The archive, until it is dropped. -/
  archive : Option Archive
  streams : Streams

namespace Session

variable {σ : Type} (source : Source σ)

def new (archive : Archive) : Session := ⟨some archive, []⟩

/-- Answers with the outcome of an action on the archive. -/
def onArchive {α : Type} (session : Session) (act : Archive → Action σ α)
    (answer : α → Session → Answer × Session) (r : Run σ) : (Answer × Session) × Run σ :=
  match session.archive with
  | none => ((.noArchive, session), r)
  | some archive =>
    match (act archive).run r with
    | (.ok value, r) => (answer value session, r)
    | (.error error, r) => ((.failed error, session), r)

/-- Answers with what is read from a stream. -/
def onStream (session : Session) (name : String) (ask : Nat → Nat) (r : Run σ) :
    (Answer × Session) × Run σ :=
  match session.streams.get? name with
  | none => ((.noStream, session), r)
  | some stream =>
    let ((result, bytes), stream, state) := stream.collect source ask .empty r.state
    let session := { session with streams := session.streams.insert name stream }
    let r := { r with state := state }
    match result with
    | .ok () => ((.bytes bytes, session), r)
    | .error error => ((.streamFailed error, session), r)

/-- Moves the cursor of a stream. -/
def seek (session : Session) (name : String) (target : SeekTarget) : Answer × Session :=
  match session.streams.get? name with
  | none => (.noStream, session)
  | some stream =>
    match stream.seek target with
    | .ok stream =>
      (.position stream.position, { session with streams := session.streams.insert name stream })
    | .error error => (.streamFailed error, session)

def close (session : Session) (name : String) : Answer × Session :=
  match session.streams.get? name with
  | none => (.noStream, session)
  | some _ => (.closed, { session with streams := session.streams.erase name })

/-- Answers one request. -/
def answer (request : Request) (session : Session) (r : Run σ) : (Answer × Session) × Run σ :=
  match request with
  | .members => session.onArchive (fun a => pure a.members) (fun ms s => (.members ms, s)) r
  | .find path => session.onArchive (·.find source path) (fun i s => (.index i, s)) r
  | .member index => session.onArchive (·.member source index) (fun m s => (.member m, s)) r
  | .plug index name =>
    session.onArchive (·.plug source index)
      (fun p s => (.plugged p, { s with streams := s.streams.insert name p.stream })) r
  | .read name length => session.onStream source name (length - ·) r
  | .readToEnd name => session.onStream source name (fun _ => chunkSize) r
  | .seek name target => (session.seek name target, r)
  | .close name => (session.close name, r)
  | .extract index limit =>
    session.onArchive (·.extract source index limit) (fun c s => (.extracted c, s)) r
  | .range index => session.onArchive (·.dataRange source index) (fun d s => (.range d, s)) r
  | .drop => ((.dropped, { session with archive := none }), r)

/-- Answers requests in order. -/
def answerAll : (requests : List Request) → Session → Run σ → List Answer × Session × Run σ
  | [], session, r => ([], session, r)
  | request :: rest, session, r =>
    let ((first, session), r) := session.answer source request r
    let (others, session, r) := answerAll rest session r
    (first :: others, session, r)

end Session
end ZipArchive
