import IndexedStore.Cbor.Reader
import IndexedStore.Cbor.View
import IndexedStore.Cbor.Writer
import IndexedStore.Error

/-! # Payloads

What is kept in the backing store is one data item of at most `maxPayload` bytes.
A type is storable when it says which item stands for a value and which value an
item stands for.
-/

namespace IndexedStore

open Cbor (Item)

class Storable (α : Type) where
  toItem : α → Item
  ofItem? : Item → Option α

def encode {α : Type} [Storable α] (a : α) : Except CodecError Bytes :=
  let b := (Storable.toItem a).write []
  if maxPayload < b.length then .error (.oversized b.length) else .ok b

def decode {α : Type} [Storable α] (b : Bytes) : Except CodecError α :=
  if maxPayload < b.length then .error .oversizedInput
  else
    match (Cbor.readAll b).bind Storable.ofItem? with
    | some a => .ok a
    | none => .error .malformed

instance : Storable TextSet where
  toItem s := Item.texts s.keys
  ofItem? i := (i.list?.bind fun l => l.mapM Item.text?).map TextSet.ofTexts

end IndexedStore
