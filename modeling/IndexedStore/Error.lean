import IndexedStore.Entity.Entity
import IndexedStore.Geo.Distance
import IndexedStore.Schema.Schema

/-! # Failures

Every way an operation can fail, as a cause with its parts. `Error.message` words
it for people; `Error.kind` and `Error.origin` say whose problem it is and which
part of the store noticed it.
-/

namespace IndexedStore

/-- What the backing store may answer instead of doing its work. -/
inductive BackendError where
  | io (reason : String)
  | lockPoisoned (what : String)
  | unsupported (operation : String)
deriving DecidableEq

namespace BackendError

def message : BackendError → String
  | io r => "i/o error: " ++ r
  | lockPoisoned w => "backend lock poisoned: " ++ w
  | unsupported o => "unsupported backend operation: " ++ o

end BackendError

/-- The largest payload, in bytes, that is written or read. -/
def maxPayload : Nat := 4194304

inductive CodecError where
  | oversized (size : Nat)
  | unwritable (reason : String)
  | oversizedInput
  | malformed
  | unreadable (reason : String)
deriving DecidableEq

namespace CodecError

def isWrite : CodecError → Bool
  | oversized _ | unwritable _ => true
  | _ => false

def message : CodecError → String
  | oversized n => "serialize error: payload of " ++ toString n ++ " bytes exceeds maximum of " ++
      toString maxPayload
  | unwritable r => "serialize error: " ++ r
  | oversizedInput => "deserialize error: payload exceeds maximum allowed size"
  | malformed => "deserialize error: malformed data"
  | unreadable r => "deserialize error: " ++ r

end CodecError

/-- Why a query cannot be served. -/
inductive QueryFault where
  | emptyPage
  | geoOnly (field : String)
  | notIndexed (field : String)
  | noToken (field : String) (value : Value)
  | notGeoIndexed (field : String)
  | invalidDistance (distance : Distance)
  | boundTo (keyspace : String)
  | other (reason : String)

namespace QueryFault

def message : QueryFault → String
  | emptyPage => "page size must be greater than zero"
  | geoOnly f => "field '" ++ f ++ "' is geo-indexed; use a near predicate"
  | notIndexed f => "field '" ++ f ++ "' is not indexed"
  | noToken f v => "field '" ++ f ++ "' cannot be matched against " ++ v.debug
  | notGeoIndexed f => "field '" ++ f ++ "' is not geo-indexed"
  | invalidDistance d => "invalid distance " ++ d.display
  | boundTo k => "repository is bound to '" ++ k ++ "'"
  | other r => r

end QueryFault

inductive ReferenceFault where
  | wrongKeyspace (expected actual : String)
  | unsaved
  | notAReference (value : Value)
  | emptyId
  | other (reason : String)

namespace ReferenceFault

def message : ReferenceFault → String
  | wrongKeyspace e a => "expected an entity of '" ++ e ++ "', got '" ++ a ++ "'"
  | unsaved => "referenced entity has not been saved"
  | notAReference v => "expected an id or entity, got " ++ v.debug
  | emptyId => "empty id"
  | other r => r

end ReferenceFault

inductive ConversionFault where
  | emptyId
  | notAPoint (path : String) (value : Value)
  | missing (field : String)
  | other (reason : String)

namespace ConversionFault

def message : ConversionFault → String
  | emptyId => "entity id must not be empty"
  | notAPoint p v => "geo-indexed field '" ++ p ++ "' must hold a point, got " ++ v.debug
  | missing f => "missing " ++ f
  | other r => r

end ConversionFault

inductive CorruptionFault where
  | undecodable (cause : CodecError)
  | other (reason : String)

namespace CorruptionFault

def message : CorruptionFault → String
  | undecodable c => c.message
  | other r => r

end CorruptionFault

inductive Error where
  | unsupportedQuery (keyspace : String) (fault : QueryFault)
  | storeUnavailable (cause : BackendError)
  | invalidCoordinate (point : GeoPoint)
  | unknownKeyspace (keyspace : String)
  | invalidReference (keyspace field : String) (fault : ReferenceFault)
  | conversion (keyspace : String) (fault : ConversionFault)
  | corruption (key : String) (fault : CorruptionFault)
  | codec (cause : CodecError)
  | schema (cause : SchemaError)
  | idGeneration (reason : String)
  | lockPoisoned (what : String)

/-- Whose problem a failure is. -/
inductive ErrorKind where
  | corruption
  | internal
  | invalidInput
  | unavailable
  | unsupported
deriving DecidableEq

namespace ErrorKind

def label : ErrorKind → String
  | corruption => "corruption"
  | internal => "internal"
  | invalidInput => "invalid_input"
  | unavailable => "unavailable"
  | unsupported => "unsupported"

end ErrorKind

/-- Which part of the store noticed a failure. -/
inductive ErrorOrigin where
  | executor
  | index
  | interface
  | query
  | relation
  | schema
  | serialize
  | store
deriving DecidableEq

namespace ErrorOrigin

def label : ErrorOrigin → String
  | executor => "executor"
  | index => "index"
  | interface => "interface"
  | query => "query"
  | relation => "relation"
  | schema => "schema"
  | serialize => "serialize"
  | store => "store"

end ErrorOrigin

namespace Error

def message : Error → String
  | unsupportedQuery k f => "unsupported query on '" ++ k ++ "': " ++ f.message
  | storeUnavailable c => "backing store unavailable: " ++ c.message
  | invalidCoordinate p =>
    "invalid geo coordinate: longitude=" ++ Number.plainText p.longitude ++
      ", latitude=" ++ Number.plainText p.latitude
  | unknownKeyspace k => "keyspace '" ++ k ++ "' is not declared in the schema"
  | invalidReference k f fault => "invalid reference " ++ k ++ "." ++ f ++ ": " ++ fault.message
  | conversion k f => "cannot convert entity of '" ++ k ++ "': " ++ f.message
  | corruption k f => "corrupt value at '" ++ k ++ "': " ++ f.message
  | codec c => c.message
  | schema c => c.message
  | idGeneration r => "id generation failed: " ++ r
  | lockPoisoned w => "lock poisoned: " ++ w

def kind : Error → ErrorKind
  | unsupportedQuery .. => .unsupported
  | storeUnavailable _ => .unavailable
  | invalidCoordinate _ | unknownKeyspace _ | invalidReference .. | conversion .. => .invalidInput
  | corruption .. => .corruption
  | codec _ | schema _ | idGeneration _ | lockPoisoned _ => .internal

def origin : Error → ErrorOrigin
  | unsupportedQuery .. => .query
  | storeUnavailable _ | corruption .. | lockPoisoned _ => .store
  | invalidCoordinate _ => .index
  | invalidReference .. => .relation
  | unknownKeyspace _ | schema _ => .schema
  | conversion .. => .interface
  | codec _ => .serialize
  | idGeneration _ => .executor

/-- The message behind its origin and kind. -/
def report (e : Error) : String :=
  e.origin.label ++ ":" ++ e.kind.label ++ ": " ++ e.message

end Error

namespace GeoPoint

def validate (p : GeoPoint) : Except Error Unit :=
  if p.isValid then .ok () else .error (.invalidCoordinate p)

end GeoPoint

end IndexedStore
