import IndexedStore.Proofs.Query.Algebra
import IndexedStore.Proofs.Query.Found
import IndexedStore.Proofs.Query.Servable
import IndexedStore.Proofs.Storage.Trace

/-! # The leaves that are asked

Evaluation asks the leaves of a predicate from left to right, one scan for each. A conjunction
asks no further once no id satisfies all that it has asked, and nothing else is left out. What is
stored decides both, whether or not it is consistent.
-/
namespace IndexedStore

def Leaf.call? (keyspace : String) : Leaf → Option Call
  | eq path value =>
    value.token?.map fun token => .scan (Key.equalityPrefix keyspace path token)
  | near path _ _ => some (.scan (Key.geoPrefix keyspace path))

/-- The ids that a scan finds behind a prefix with a point in reach. -/
def Content.idsWithin (c : Content) (start : String) (center : GeoPoint) (radius : Float) :
    TextSet :=
  TextSet.ofTexts ((c.scan start).filterMap fun e =>
    (Key.trailingId? start e.1).filter fun _ => center.reaches radius e.2)

/-- The meaning of the leaves for what is found with an id, in any content. -/
def Content.hits (c : Content) (keyspace id : String) : Leaves where
  eq path value := value.token?.any fun token =>
    (c.ids (Key.equalityPrefix keyspace path token)).contains id
  near path center distance :=
    (c.idsWithin (Key.geoPrefix keyspace path) center distance.toMeters).contains id

namespace Predicate

mutual

/-- There is no empty conjunction in the predicate. -/
def Proper : Predicate → Prop
  | eq .. => True
  | near .. => True
  | all children => children ≠ [] ∧ EachProper children
  | any children => EachProper children

def EachProper : List Predicate → Prop
  | [] => True
  | p :: rest => p.Proper ∧ EachProper rest

end

end Predicate

/-- Some id satisfies all the predicates. -/
def Content.Matches (c : Content) (keyspace : String) (ps : List Predicate) : Prop :=
  ∃ id, Predicate.allHold (c.hits keyspace id) ps = true

mutual

/-- The leaves that are asked to evaluate a predicate, in order. -/
inductive Asked (c : Content) (keyspace : String) : Predicate → List Leaf → Prop
  | eq (path : String) (value : Value) : Asked c keyspace (.eq path value) [.eq path value]
  | near (path : String) (center : GeoPoint) (distance : Distance) :
    Asked c keyspace (.near path center distance) [.near path center distance]
  | all {children : List Predicate} {asked : List Leaf}
      (h : AskedNarrowing c keyspace [] children asked) : Asked c keyspace (.all children) asked
  | any {children : List Predicate} {asked : List Leaf} (h : AskedEach c keyspace children asked) :
    Asked c keyspace (.any children) asked

/-- The children of a conjunction that are left once those `before` are asked. -/
inductive AskedNarrowing (c : Content) (keyspace : String) :
    List Predicate → List Predicate → List Leaf → Prop
  | done (before : List Predicate) : AskedNarrowing c keyspace before [] []
  | stop {before : List Predicate} {p : Predicate} {rest : List Predicate}
      (h : ¬c.Matches keyspace before) : AskedNarrowing c keyspace before (p :: rest) []
  | go {before : List Predicate} {p : Predicate} {rest : List Predicate}
      {first others : List Leaf} (h : c.Matches keyspace before) (hp : Asked c keyspace p first)
      (hrest : AskedNarrowing c keyspace (before ++ [p]) rest others) :
    AskedNarrowing c keyspace before (p :: rest) (first ++ others)

/-- Every child of a disjunction is asked. -/
inductive AskedEach (c : Content) (keyspace : String) : List Predicate → List Leaf → Prop
  | nil : AskedEach c keyspace [] []
  | cons {p : Predicate} {rest : List Predicate} {first others : List Leaf}
      (hp : Asked c keyspace p first) (hrest : AskedEach c keyspace rest others) :
    AskedEach c keyspace (p :: rest) (first ++ others)

end

section Determined

variable {c : Content} {keyspace : String}

mutual

theorem Asked.sublist {p : Predicate} {asked : List Leaf} (h : Asked c keyspace p asked) :
    asked.Sublist p.leafList := by
  match p, h with
  | .eq path value, .eq .. => exact List.Sublist.refl _
  | .near path center distance, .near .. => exact List.Sublist.refl _
  | .all children, .all h => exact h.sublist
  | .any children, .any h => exact h.sublist

theorem AskedNarrowing.sublist {before ps : List Predicate} {asked : List Leaf}
    (h : AskedNarrowing c keyspace before ps asked) :
    asked.Sublist (Predicate.leafLists ps) := by
  match ps, h with
  | [], .done _ => exact List.Sublist.refl _
  | p :: rest, .stop _ => exact List.nil_sublist _
  | p :: rest, .go _ hp hrest => exact hp.sublist.append hrest.sublist

theorem AskedEach.sublist {ps : List Predicate} {asked : List Leaf}
    (h : AskedEach c keyspace ps asked) : asked.Sublist (Predicate.leafLists ps) := by
  match ps, h with
  | [], .nil => exact List.Sublist.refl _
  | p :: rest, .cons hp hrest => exact hp.sublist.append hrest.sublist

end

mutual

theorem Asked.unique {p : Predicate} {asked asked' : List Leaf}
    (h : Asked c keyspace p asked) (h' : Asked c keyspace p asked') : asked = asked' := by
  match p, h, h' with
  | .eq path value, .eq .., .eq .. => rfl
  | .near path center distance, .near .., .near .. => rfl
  | .all children, .all h, .all h' => exact h.unique h'
  | .any children, .any h, .any h' => exact h.unique h'

theorem AskedNarrowing.unique {before ps : List Predicate} {asked asked' : List Leaf}
    (h : AskedNarrowing c keyspace before ps asked)
    (h' : AskedNarrowing c keyspace before ps asked') : asked = asked' := by
  match ps, h, h' with
  | [], .done _, .done _ => rfl
  | p :: rest, .stop _, .stop _ => rfl
  | p :: rest, .stop h, .go h' .. => exact absurd h' h
  | p :: rest, .go h .., .stop h' => exact absurd h h'
  | p :: rest, .go _ hp hrest, .go _ hp' hrest' => rw [hp.unique hp', hrest.unique hrest']

theorem AskedEach.unique {ps : List Predicate} {asked asked' : List Leaf}
    (h : AskedEach c keyspace ps asked)
    (h' : AskedEach c keyspace ps asked') : asked = asked' := by
  match ps, h, h' with
  | [], .nil, .nil => rfl
  | p :: rest, .cons hp hrest, .cons hp' hrest' => rw [hp.unique hp', hrest.unique hrest']

end

end Determined

/-- A running intersection is empty when no id satisfies what it was narrowed by. -/
theorem Content.isEmpty_iff_not_matches {c : Content} {keyspace : String} {ps : List Predicate}
    {ids : TextSet} (h : ∀ id, ids.contains id = Predicate.allHold (c.hits keyspace id) ps) :
    ids.isEmpty = true ↔ ¬c.Matches keyspace ps := by
  rw [Dict.isEmpty_iff, Matches, not_exists]
  refine forall_congr' fun id => ?_
  rw [← Dict.contains_eq_false, h, Bool.not_eq_true]

/-- A set of ids was found by asking leaves, one call for each. -/
def Answered (keyspace : String) (matching : String → Bool) (asks : List Leaf → Prop)
    (ids : TextSet) (calls : List Call) : Prop :=
  (∀ id, ids.contains id = matching id) ∧
    ∃ asked, asks asked ∧ asked.filterMap (Leaf.call? keyspace) = calls

namespace Task.Yields

variable {c : Content} {keyspace : String}

theorem reportLookup {kind : LookupKind} {ids : TextSet} {Q : TextSet → List Call → Prop}
    (h : Q ids []) : Yields (Task.reportLookup kind keyspace ids) c Q :=
  (emit (Q := fun _ calls => calls = []) rfl).bind fun _ calls hcalls => by
    subst hcalls
    exact pure h

theorem scanIds (start : String) :
    Yields (Task.scanIds start) c fun ids calls => ids = c.ids start ∧ calls = [.scan start] :=
  (scan (Q := fun found calls => found = c.scan start ∧ calls = [.scan start]) ⟨rfl, rfl⟩).bind
    fun found calls h => by
      obtain ⟨rfl, rfl⟩ := h
      exact pure ⟨rfl, rfl⟩

theorem lookupEq (path : String) (value : Value) :
    Yields (Task.lookupEq keyspace path value) c (Answered keyspace
      (fun id => (c.hits keyspace id).eq path value) (· = [.eq path value])) := by
  unfold Task.lookupEq
  cases ht : value.token? with
  | none =>
    exact reportLookup ⟨fun id => by simp [Content.hits, ht], _, rfl, by simp [Leaf.call?, ht]⟩
  | some token =>
    refine (scanIds _).bind fun ids calls h => ?_
    obtain ⟨rfl, rfl⟩ := h
    exact reportLookup ⟨fun id => by simp [Content.hits, ht], _, rfl, by simp [Leaf.call?, ht]⟩

theorem within (start : String) (center : GeoPoint) (radius : Float)
    (l : List (String × Bytes)) :
    Yields (Task.within start center radius l) c fun _ calls => calls = [] := by
  induction l with
  | nil => exact pure rfl
  | cons e rest ih =>
    obtain ⟨key, b⟩ := e
    unfold Task.within
    split
    · exact ih
    · refine (ofExcept (Q := fun _ calls => calls = []) fun _ _ => rfl).bind fun p calls h => ?_
      subst h
      refine ih.bind fun ids calls h => ?_
      subst h
      exact pure rfl

theorem lookupNear (path : String) (center : GeoPoint) (distance : Distance) :
    Yields (Task.lookupNear keyspace path center distance) c (Answered keyspace
      (fun id => (c.hits keyspace id).near path center distance)
      (· = [.near path center distance])) := by
  refine (scan (Q := fun found calls => found = c.scan (Key.geoPrefix keyspace path) ∧
    calls = [.scan (Key.geoPrefix keyspace path)]) ⟨rfl, rfl⟩).bind fun found calls h => ?_
  obtain ⟨rfl, rfl⟩ := h
  refine ((within _ _ _ _).on (Task.reading_within _ _ _ _)).bind fun ids calls h => ?_
  obtain ⟨hids, rfl⟩ := h
  rw [Task.on_within (Task.decodes_of_within hids)] at hids
  cases hids
  exact reportLookup ⟨fun id => rfl, _, rfl, rfl⟩

mutual

theorem evaluate (p : Predicate) (hp : p.Proper) :
    Yields (p.evaluate keyspace) c (Answered keyspace (fun id => p.holds (c.hits keyspace id))
      (Asked c keyspace p)) := by
  match p with
  | .eq path value =>
    refine (lookupEq path value).mono fun ids calls h => ?_
    obtain ⟨hids, asked, rfl, hcalls⟩ := h
    exact ⟨hids, _, .eq path value, hcalls⟩
  | .near path center distance =>
    refine (lookupNear path center distance).mono fun ids calls h => ?_
    obtain ⟨hids, asked, rfl, hcalls⟩ := h
    exact ⟨hids, _, .near path center distance, hcalls⟩
  | .all [] => exact absurd rfl hp.1
  | .all (p :: rest) =>
    have hfirst : c.Matches keyspace [] := ⟨"", rfl⟩
    rw [Predicate.evaluate]
    refine (evaluate p hp.2.1).bind fun ids calls h => ?_
    obtain ⟨hids, first, hasked, rfl⟩ := h
    have hbefore : ∀ id, ids.contains id = Predicate.allHold (c.hits keyspace id) [p] := by
      intro id
      rw [hids, Predicate.allHold, Predicate.allHold, Bool.and_true]
    refine (narrow rest hp.2.2 hbefore).mono fun ids' calls' h' => ?_
    obtain ⟨hids', others, hothers, rfl⟩ := h'
    exact ⟨hids', first ++ others, .all (.go hfirst hasked hothers), List.filterMap_append⟩
  | .any children =>
    rw [Predicate.evaluate]
    refine (widen children hp (f := fun _ => false) fun _ => rfl).mono fun ids calls h => ?_
    obtain ⟨hids, asked, hasked, hcalls⟩ := h
    exact ⟨fun id => (hids id).trans (Bool.false_or _), asked, .any hasked, hcalls⟩

/-- What is left to narrow satisfies all that was asked before. -/
theorem narrow {before : List Predicate} {ids : TextSet} (ps : List Predicate)
    (hps : Predicate.EachProper ps)
    (hids : ∀ id, ids.contains id = Predicate.allHold (c.hits keyspace id) before) :
    Yields (Predicate.narrow keyspace ids ps) c (Answered keyspace
      (fun id => Predicate.allHold (c.hits keyspace id) (before ++ ps))
      (AskedNarrowing c keyspace before ps)) := by
  match ps with
  | [] =>
    refine pure ⟨fun id => ?_, [], .done before, rfl⟩
    rw [List.append_nil, hids]
  | p :: rest =>
    rw [Predicate.narrow]
    split
    · rename_i he
      have hnone := (Content.isEmpty_iff_not_matches hids).mp he
      refine pure ⟨fun id => (hids id).trans ?_, [], .stop hnone, rfl⟩
      have hid : Predicate.allHold (c.hits keyspace id) before = false :=
        Bool.eq_false_iff.mpr fun hid => hnone ⟨id, hid⟩
      simp only [Predicate.allHold_append, hid, Bool.false_and]
    · rename_i he
      have hsome : c.Matches keyspace before :=
        not_not.mp (mt (Content.isEmpty_iff_not_matches hids).mpr he)
      refine (evaluate p hps.1).bind fun next calls h => ?_
      obtain ⟨hnext, first, hasked, rfl⟩ := h
      have hboth : ∀ id, (ids.inter next).contains id =
          Predicate.allHold (c.hits keyspace id) (before ++ [p]) := by
        intro id
        rw [TextSet.contains_inter, hids, hnext, Predicate.allHold_append, Predicate.allHold,
          Predicate.allHold, Bool.and_true]
      refine (narrow rest hps.2 hboth).mono fun ids' calls' h' => ?_
      obtain ⟨hids', others, hothers, rfl⟩ := h'
      refine ⟨fun id => (hids' id).trans ?_, first ++ others, .go hsome hasked hothers,
        List.filterMap_append⟩
      simp only [List.append_assoc, List.singleton_append]

theorem widen {f : String → Bool} {ids : TextSet} (ps : List Predicate)
    (hps : Predicate.EachProper ps) (hids : ∀ id, ids.contains id = f id) :
    Yields (Predicate.widen keyspace ids ps) c (Answered keyspace
      (fun id => f id || Predicate.anyHolds (c.hits keyspace id) ps) (AskedEach c keyspace ps)) := by
  match ps with
  | [] =>
    refine pure ⟨fun id => (hids id).trans ?_, [], .nil, rfl⟩
    simp only [Predicate.anyHolds, Bool.or_false]
  | p :: rest =>
    rw [Predicate.widen]
    refine (evaluate p hps.1).bind fun next calls h => ?_
    obtain ⟨hnext, first, hasked, rfl⟩ := h
    have hboth : ∀ id, (Dict.union ids next).contains id =
        (f id || p.holds (c.hits keyspace id)) := by
      intro id
      rw [TextSet.contains_union, hids, hnext]
    refine (widen rest hps.2 hboth).mono fun ids' calls' h' => ?_
    obtain ⟨hids', others, hothers, rfl⟩ := h'
    refine ⟨fun id => (hids' id).trans ?_, first ++ others, .cons hasked hothers,
      List.filterMap_append⟩
    simp only [Predicate.anyHolds, Bool.or_assoc]

end

end Task.Yields

end IndexedStore
