import IndexedStore.Collection.Assoc

/-! # Dictionaries

A `Dict β` maps finitely many texts to values and lists them in the order of
their keys, code point by code point. Two dictionaries with the same look-ups
are equal (`Dict.ext_get?`). A set of texts is a dictionary without values.
-/

namespace IndexedStore

universe u v

structure Dict (β : Type u) where
  entries : List (String × β)
  sorted : Assoc.Sorted entries
deriving DecidableEq

namespace Dict

variable {β : Type u} {γ : Type v}

def empty : Dict β := ⟨[], List.Pairwise.nil⟩

instance : Inhabited (Dict β) := ⟨empty⟩

def get? (d : Dict β) (k : String) : Option β := Assoc.lookup k d.entries

def insert (d : Dict β) (k : String) (b : β) : Dict β :=
  ⟨Assoc.insert k b d.entries, d.sorted.insert k b⟩

def erase (d : Dict β) (k : String) : Dict β :=
  ⟨Assoc.erase k d.entries, d.sorted.erase k⟩

def contains (d : Dict β) (k : String) : Bool := (d.get? k).isSome

def keys (d : Dict β) : List String := d.entries.map Prod.fst

def values (d : Dict β) : List β := d.entries.map Prod.snd

def size (d : Dict β) : Nat := d.entries.length

def isEmpty (d : Dict β) : Bool := d.entries.isEmpty

/-- The pairs entered one after another; a later pair wins. -/
def ofList (pairs : List (String × β)) : Dict β :=
  ⟨Assoc.ofList pairs, Assoc.sorted_ofList pairs⟩

def filterKeys (d : Dict β) (p : String → Bool) : Dict β :=
  ⟨d.entries.filter fun e => p e.1, d.sorted.filter _⟩

def union (d e : Dict β) : Dict β := e.entries.foldl (fun d p => d.insert p.1 p.2) d

theorem get?_empty (k : String) : (empty : Dict β).get? k = none := rfl

theorem get?_insert (d : Dict β) (k j : String) (b : β) :
    (d.insert k b).get? j = if k = j then some b else d.get? j :=
  Assoc.lookup_insert k j b d.entries

theorem get?_erase (d : Dict β) (k j : String) :
    (d.erase k).get? j = if k = j then none else d.get? j :=
  Assoc.lookup_erase k j d.entries

theorem ext_get? {d e : Dict β} (h : ∀ k, d.get? k = e.get? k) : d = e := by
  obtain ⟨l, hl⟩ := d
  obtain ⟨m, hm⟩ := e
  obtain rfl : l = m := Assoc.ext_lookup hl hm h
  rfl

end Dict

/-- A finite set of texts, listed in order. -/
abbrev TextSet := Dict Unit

namespace TextSet

def ofTexts (l : List String) : TextSet := Dict.ofList (l.map fun s => (s, ()))

def insertText (s : TextSet) (t : String) : TextSet := s.insert t ()

def inter (s t : TextSet) : TextSet := s.filterKeys t.contains

end TextSet

end IndexedStore
