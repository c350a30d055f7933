import IndexedStore.Codec.Payload
import IndexedStore.Observe.Log
import IndexedStore.Storage.Content

/-! # The engine

Everything an operation reads and changes: the stored content, the failures the
backing store will answer with, the supply of new ids, and the journal of calls,
events and notes. A `Task` runs against an engine and may fail; what it changed
until then stays.
-/

namespace IndexedStore

inductive Call where
  | get (key : String)
  | scan (start : String)
  | batch (writes : List Write)
deriving DecidableEq

inductive CallKind where
  | get
  | put
  | delete
  | scan
  | batch
deriving DecidableEq

namespace Call

def kind : Call → CallKind
  | get _ => .get
  | scan _ => .scan
  | batch _ => .batch

end Call

inductive Activity where
  | call (c : Call)
  | event (e : Event)
  | note (verbose : Bool) (n : Note)
deriving DecidableEq

namespace Activity

def call? : Activity → Option Call
  | call c => some c
  | _ => none

def event? : Activity → Option Event
  | event e => some e
  | _ => none

/-- Events and notes as lines; calls are not logged. -/
def line? : Activity → Option LogLine
  | call _ => none
  | event e => some e.line
  | note verbose n => some (n.line verbose)

end Activity

/-- What happened so far, the latest first. -/
abbrev Journal := List Activity

/-- Which calls fail, given the journal before them. -/
abbrev Faults := Journal → Call → Option BackendError

namespace Faults

def none : Faults := fun _ _ => Option.none

/-- Calls of the listed kinds fail once `grace` of them were made since the journal had
`since` entries. -/
def after (kinds : List CallKind) (grace since : Nat) (error : BackendError) : Faults :=
  fun journal c =>
    let listed (c : Call) := kinds.contains c.kind
    let made := ((journal.take (journal.length - since)).filterMap Activity.call?).countP listed
    if listed c && grace ≤ made then some error else Option.none

end Faults

/-- Why no new id is given out. -/
inductive IdFault where
  | lockPoisoned
  | failed (reason : String)
deriving DecidableEq

namespace IdFault

def error : IdFault → Error
  | lockPoisoned => .lockPoisoned "id generator"
  | failed reason => .idGeneration reason

end IdFault

/-- What is answered to a request for a new id, given the journal before it. Whoever asks has
announced it there, so that no two requests have to be answered alike. -/
abbrev IdSupply := Journal → Except IdFault {id : String // id ≠ ""}

namespace IdSupply

def none : IdSupply := fun _ => .error (.failed "")

end IdSupply

structure Engine where
  content : Content
  faults : Faults
  ids : IdSupply
  journal : Journal

namespace Engine

/-- An engine with the given content, without failures of the store and without new ids. -/
def holding (c : Content) : Engine := ⟨c, Faults.none, IdSupply.none, []⟩

def empty : Engine := holding Dict.empty

def log (s : Engine) (a : Activity) : Engine := { s with journal := a :: s.journal }

end Engine

abbrev Task := ExceptT Error (StateM Engine)

namespace Task

variable {α : Type}

/-- Writes the call into the journal and, unless it fails, lets it act on the content. -/
def perform (c : Call) (act : Content → α × Content) : Task α := fun s =>
  let failure := s.faults s.journal c
  let s := s.log (.call c)
  match failure with
  | some e => (.error (.storeUnavailable e), s)
  | none =>
    let (a, content) := act s.content
    (.ok a, { s with content := content })

def get (key : String) : Task (Option Bytes) := perform (.get key) fun c => (c.get? key, c)

def scan (start : String) : Task (List (String × Bytes)) :=
  perform (.scan start) fun c => (c.scan start, c)

def batch (writes : List Write) : Task Unit :=
  perform (.batch writes) fun c => ((), c.apply writes)

def newId : Task String := fun s =>
  match s.ids s.journal with
  | .ok id => (.ok id.val, s)
  | .error fault => (.error fault.error, s)

def emit (e : Event) : Task Unit := modify fun s => s.log (.event e)

def note (verbose : Bool) (n : Note) : Task Unit := modify fun s => s.log (.note verbose n)

def ofExcept (r : Except Error α) : Task α := fun s => (r, s)

/-- Runs `body` between a start and a finish event. The finish event counts the rows of
the result, or none after a failure. -/
def spanned (kind : ExecKind) (keyspace : String) (rows : α → Nat) (body : Task α) : Task α :=
  fun s =>
    let (r, s) := body (s.log (.event (.started kind keyspace)))
    let n := match r with
      | .ok a => rows a
      | .error _ => 0
    (r, s.log (.event (.finished kind keyspace (UInt64.ofNat n))))

/-- The value stored under `key`; bytes that stand for none are corrupt. -/
def decodeAt [Storable α] (key : String) (b : Bytes) : Task α :=
  ofExcept ((decode b).mapError fun c => .corruption key (.undecodable c))

def encoded [Storable α] (a : α) : Task Bytes := ofExcept ((encode a).mapError .codec)

end Task

end IndexedStore
