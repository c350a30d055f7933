import IndexedStore.Number.Saturating

/-! # Pages

One page of a result, with the number of matches before paging. Page numbers start
at zero; positions beyond the largest word count as the largest word.
-/

namespace IndexedStore

universe u v w

structure PageRequest where
  page : UInt64
  size : UInt64
deriving DecidableEq

namespace PageRequest

def first (size : UInt64) : PageRequest := ⟨0, size⟩

def offset (r : PageRequest) : UInt64 := Number.satMul r.page r.size

def next (r : PageRequest) : PageRequest := ⟨Number.satAdd r.page 1, r.size⟩

/-- The part of a list that the page shows. -/
def slice {α : Type u} (r : PageRequest) (l : List α) : List α :=
  (l.drop r.offset.toNat).take r.size.toNat

end PageRequest

/-- A page of matching ids and the number of all matches. -/
structure IdPage where
  ids : List String
  total : UInt64
deriving DecidableEq

/-- A page of results. Without a request it holds every match. -/
structure Page (α : Type u) where
  items : List α
  request : Option PageRequest
  total : UInt64
deriving DecidableEq

namespace Page

variable {α : Type u} {β : Type v}

def isEmpty (p : Page α) : Bool := p.items.isEmpty

/-- The number of pages: the matches divided by the page size, rounded up. Unpaged, or
with pages of size zero, everything stands on one page if there is anything. -/
def totalPages (p : Page α) : UInt64 :=
  let single : UInt64 := if 0 < p.total then 1 else 0
  match p.request with
  | none => single
  | some r =>
    if r.size = 0 then single
    else if p.total % r.size = 0 then p.total / r.size
    else p.total / r.size + 1

def hasNext (p : Page α) : Bool :=
  match p.request with
  | none => false
  | some r => Number.satAdd r.offset r.size < p.total

def nextRequest? (p : Page α) : Option PageRequest :=
  if p.hasNext then p.request.map PageRequest.next else none

def map (f : α → β) (p : Page α) : Page β := ⟨p.items.map f, p.request, p.total⟩

/-- Maps every item, or gives the first failure. -/
def mapM? {ε : Type w} (f : α → Except ε β) (p : Page α) : Except ε (Page β) :=
  match p.items.mapM f with
  | .ok items => .ok ⟨items, p.request, p.total⟩
  | .error e => .error e

end Page

end IndexedStore
