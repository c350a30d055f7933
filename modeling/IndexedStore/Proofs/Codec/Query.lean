import IndexedStore.Codec.Query
import IndexedStore.Proofs.Codec.Value

/-! # Queries are read back

A predicate is read back from its item when every value in it lists its field names in order,
and so is a query with its page.
-/
namespace IndexedStore

open Cbor (Item)

namespace Predicate

mutual

/-- Field names strictly increase in every map of every value. -/
def Ordered : Predicate → Prop
  | eq _ value => value.Ordered
  | near .. => True
  | all children => AllOrdered children
  | any children => AllOrdered children

def AllOrdered : List Predicate → Prop
  | [] => True
  | p :: rest => p.Ordered ∧ AllOrdered rest

end

mutual

theorem canonical_toItem (p : Predicate) : p.toItem.Canonical := by
  cases p with
  | eq field value =>
    exact Item.canonical_variant
      (Item.canonical_record (by simp [Item.Canonical, value.canonical_toItem]))
  | near field center distance =>
    exact Item.canonical_variant (Item.canonical_record
      (by simp [Item.Canonical, center.canonical_toItem, distance.canonical_toItem]))
  | all children => exact Item.canonical_variant (canonical_childItems children)
  | any children => exact Item.canonical_variant (canonical_childItems children)

theorem canonical_childItems (children : List Predicate) :
    Item.AllCanonical (childItems children) := by
  match children with
  | [] => trivial
  | p :: rest => exact ⟨canonical_toItem p, canonical_childItems rest⟩

end

theorem eqOfItem?_record {field : String} {value : Value}
    (h : Value.ofItem? value.toItem = some value) :
    eqOfItem? (Item.record [("field", .text field), ("value", value.toItem)]) =
      some (.eq field value) := by
  unfold eqOfItem?
  rw [show eqFieldNames = [("field", Item.text field), ("value", value.toItem)].map Prod.fst
    from rfl, Item.fields?_record (by simp)]
  simp [Item.text?, Item.untagged, h]

theorem nearOfItem?_record (field : String) (center : GeoPoint) (distance : Distance) :
    nearOfItem? (Item.record [("field", .text field), ("center", center.toItem),
      ("distance", distance.toItem)]) = some (.near field center distance) := by
  unfold nearOfItem?
  rw [show nearFieldNames = [("field", Item.text field), ("center", center.toItem),
    ("distance", distance.toItem)].map Prod.fst from rfl, Item.fields?_record (by simp)]
  simp [Item.text?, Item.untagged, center.ofItem?_toItem, distance.ofItem?_toItem]

mutual

/-- A predicate is read back within as many predicates as its item nests containers. The values
in it are read within what the reader allows. -/
theorem ofItemWithin?_toItem (p : Predicate) (hp : p.Ordered) (n : Nat)
    (hn : n ≤ Cbor.maxNesting) (h : p.toItem.nesting ≤ n) :
    ofItemWithin? (n + 1) p.toItem = some p := by
  cases p with
  | eq field value =>
    have hv : value.toItem.nesting ≤ Cbor.maxNesting := by
      rw [toItem, Item.nesting_variant] at h
      simp [Item.record, Item.object, Item.nesting, Item.entriesNesting] at h
      omega
    rw [toItem, ofItemWithin?, Item.variant?_variant (n := 0) (by decide) (by decide)]
    exact eqOfItem?_record (Value.ofItemWithin?_toItem value hp Cbor.maxNesting hv)
  | near field center distance =>
    rw [toItem, ofItemWithin?, Item.variant?_variant (n := 1) (by decide) (by decide)]
    exact nearOfItem?_record field center distance
  | all children =>
    rw [toItem, Item.nesting_variant, Item.nesting] at h
    obtain ⟨n, rfl⟩ : ∃ k, n = k + 1 := ⟨n - 1, by omega⟩
    rw [toItem, ofItemWithin?, Item.variant?_variant (n := 2) (by decide) (by decide)]
    simp [Item.list?, Item.untagged, mapM_childItems children hp n (by omega) (by omega)]
  | any children =>
    rw [toItem, Item.nesting_variant, Item.nesting] at h
    obtain ⟨n, rfl⟩ : ∃ k, n = k + 1 := ⟨n - 1, by omega⟩
    rw [toItem, ofItemWithin?, Item.variant?_variant (n := 3) (by decide) (by decide)]
    simp [Item.list?, Item.untagged, mapM_childItems children hp n (by omega) (by omega)]

theorem mapM_childItems (children : List Predicate) (hc : AllOrdered children) (n : Nat)
    (hn : n ≤ Cbor.maxNesting) (h : Item.itemsNesting (childItems children) ≤ n) :
    (childItems children).mapM (ofItemWithin? (n + 1)) = some children := by
  match children with
  | [] => rfl
  | p :: rest =>
    obtain ⟨hp, hc⟩ := hc
    simp only [childItems, Item.itemsNesting, Nat.max_le] at h
    rw [childItems, List.mapM_cons, ofItemWithin?_toItem p hp n hn h.1,
      mapM_childItems rest hc n hn h.2]
    rfl

end

theorem faithful {p : Predicate} (hp : p.Ordered) : Faithful p :=
  ⟨p.canonical_toItem, ofItemWithin?_toItem p hp Cbor.maxNesting (Nat.le_refl _)⟩

end Predicate

namespace PageRequest

theorem canonical_toItem (r : PageRequest) : r.toItem.Canonical :=
  Item.canonical_record (by simp [Item.Canonical])

theorem ofItem?_toItem (r : PageRequest) : ofItem? r.toItem = some r := by
  unfold ofItem? toItem
  rw [show ["page", "size"] = [("page", Item.unsigned r.page),
    ("size", Item.unsigned r.size)].map Prod.fst from rfl, Item.fields?_record (by simp)]
  simp [Item.uint64?, Item.untagged]

theorem faithful (r : PageRequest) : Faithful r :=
  ⟨r.canonical_toItem, fun _ => r.ofItem?_toItem⟩

end PageRequest

namespace Query

def Ordered (q : Query) : Prop := ∀ p, q.predicate = some p → p.Ordered

theorem canonical_toItem (q : Query) : q.toItem.Canonical := by
  refine Item.canonical_record ?_
  cases q.predicate <;> cases q.page <;>
    simp [Item.option, Item.Canonical, Predicate.canonical_toItem, PageRequest.canonical_toItem]

theorem ofItem?_toItem {q : Query} (hq : q.Ordered)
    (hn : ∀ p, q.predicate = some p → p.toItem.nesting ≤ Cbor.maxNesting) :
    ofItem? q.toItem = some q := by
  have hpred : (Item.option Predicate.toItem q.predicate).option? Predicate.ofItem? =
      some q.predicate := by
    refine Value.option?_option fun p hp => ⟨?_, ?_⟩
    · cases p <;> nofun
    · exact (Predicate.faithful (hq p hp)).ofItem? (hn p hp)
  have hpage : (Item.option PageRequest.toItem q.page).option? PageRequest.ofItem? =
      some q.page := Value.option?_option fun r _ => ⟨nofun, r.ofItem?_toItem⟩
  unfold ofItem? toItem
  rw [show ["keyspace", "predicate", "page"] = [("keyspace", Item.text q.keyspace),
    ("predicate", Item.option Predicate.toItem q.predicate),
    ("page", Item.option PageRequest.toItem q.page)].map Prod.fst from rfl,
    Item.fields?_record (by simp)]
  simp [Item.text?, Item.untagged, hpred, hpage]

theorem faithful {q : Query} (hq : q.Ordered) : Faithful q := by
  refine ⟨q.canonical_toItem, fun hn => ofItem?_toItem hq fun p hp => ?_⟩
  simp [Storable.toItem, toItem, Item.record, Item.object, Item.nesting, Item.entriesNesting, hp,
    Item.option] at hn
  omega

end Query

end IndexedStore
