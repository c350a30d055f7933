import IndexedStore.Proofs.Query.Asked

/-! # The calls of a query

A query scans for its leaves, then reads the record of each id of its page, then the records that
these point at. Main statement: over a healthy backing store with any content an accepted query
that succeeds makes these calls in this order and no others.
-/
namespace IndexedStore

section Distinct

universe u v

variable {α : Type u} {β : Type v} [BEq α] [LawfulBEq α]

/-- Elements that give nothing can be left out before duplicates are. The induction is on the
length, since the duplicates of the head go from the whole tail. -/
theorem filterMap_eraseDups_filter {p : α → Bool} {f : α → Option β} (l : List α)
    (h : ∀ a, p a = false → f a = none) :
    (l.filter p).eraseDups.filterMap f = l.eraseDups.filterMap f := by
  match l with
  | [] => rfl
  | a :: l =>
    have hshort : (l.filter fun b => !b == a).length < l.length + 1 :=
      Nat.lt_succ_of_le (List.length_filter_le _ _)
    have ih := filterMap_eraseDups_filter (l.filter fun b => !b == a) h
    rw [List.eraseDups_cons, List.filterMap_cons]
    cases hp : p a with
    | true =>
      have hcomm : ((l.filter p).filter fun b => !b == a) =
          (l.filter fun b => !b == a).filter p := by
        simp only [List.filter_filter, Bool.and_comm]
      rw [List.filter_cons_of_pos hp, List.eraseDups_cons, List.filterMap_cons, hcomm, ih]
    | false =>
      have hrest : (l.filter fun b => !b == a).filter p = l.filter p := by
        rw [List.filter_filter]
        refine List.filter_congr fun b _ => ?_
        by_cases hb : b = a
        · simp [hb, hp]
        · simp [hb]
      rw [List.filter_cons_of_neg (by simp [hp]), h a hp, ← ih, hrest]
termination_by l.length

end Distinct

/-- The entity that is stored under an id, when its record can be read. -/
def Content.stored? (c : Content) (keyspace id : String) : Option Entity :=
  match c.get? (Key.record keyspace id) with
  | none => none
  | some b => (decode b : Except CodecError StoredRecord).toOption.map fun r =>
      ⟨keyspace, some id, r.fields⟩

namespace Entity

def follow? (e : Entity) (references : List ReferenceModel) (name : String) : Option Call :=
  ((e.get? name).bind (Value.pointsAt? references name)).map fun t => .get (Key.record t.1 t.2)

/-- The calls for what the declared fields point at, one for each field. -/
def follows (e : Entity) (references : List ReferenceModel) : List Call :=
  (references.map ReferenceModel.field).eraseDups.filterMap (e.follow? references)

variable {e e' : Entity} {r : ReferenceModel} {references : List ReferenceModel} {name : String}

theorem follow?_of_ref {id : String} (h : e.get? name = some (.ref id)) :
    e.follow? (r :: references) name =
      if r.field = name then some (.get (Key.record r.target id))
      else e.follow? references name := by
  rw [follow?, follow?, h, Option.bind_some, Option.bind_some, Value.pointsAt?_cons]
  split <;> rfl

theorem follow?_of_ne (h : ∀ id, e.get? name ≠ some (.ref id)) :
    e.follow? references name = none := by
  rw [follow?]
  cases hv : e.get? name with
  | none => rfl
  | some v =>
    cases v <;> try rfl
    exact absurd hv (h _)

theorem follow?_cons_of_ne (h : name ≠ r.field) :
    e.follow? (r :: references) name = e.follow? references name := by
  by_cases hv : ∃ id, e.get? name = some (.ref id)
  · obtain ⟨id, hv⟩ := hv
    rw [follow?_of_ref hv, if_neg (Ne.symm h)]
  · simp only [not_exists] at hv
    rw [follow?_of_ne hv, follow?_of_ne hv]

/-- A field that was followed points nowhere afterwards, so that it is followed once. -/
theorem follows_cons (hsame : ∀ name, name ≠ r.field → e'.get? name = e.get? name)
    (hdone : ∀ id, e'.get? r.field ≠ some (.ref id)) :
    e.follows (r :: references) =
      (e.follow? (r :: references) r.field).toList ++ e'.follows references := by
  let others (name : String) : Bool := !name == r.field
  have hown : ∀ name, others name = false → e'.follow? references name = none := by
    intro name hname
    obtain rfl : name = r.field := by simpa [others] using hname
    exact follow?_of_ne hdone
  have hrest : ((references.map ReferenceModel.field).filter others).eraseDups.filterMap
      (e.follow? (r :: references)) = e'.follows references := by
    rw [follows, ← filterMap_eraseDups_filter _ hown]
    refine List.filterMap_congr fun name hname => ?_
    have hne : name ≠ r.field := by
      simpa [others] using (List.mem_filter.mp (List.mem_eraseDups.mp hname)).2
    rw [follow?_cons_of_ne hne, follow?, follow?, hsame name hne]
  rw [follows, List.map_cons, List.eraseDups_cons, List.filterMap_cons, hrest]
  cases e.follow? (r :: references) r.field <;> rfl

end Entity

namespace Task.Yields

variable {c : Content}

theorem load (keyspace id : String) : Yields (Task.load keyspace id) c fun o calls =>
    o = c.stored? keyspace id ∧ calls = [.get (Key.record keyspace id)] := by
  unfold Content.stored?
  refine (get (Q := fun b calls => c.get? (Key.record keyspace id) = b ∧
    calls = [.get (Key.record keyspace id)]) ⟨rfl, rfl⟩).bind fun b calls h => ?_
  obtain ⟨hb, rfl⟩ := h
  rw [hb]
  cases b with
  | none => exact pure ⟨rfl, rfl⟩
  | some b =>
    refine (ofExcept (Q := fun (r : StoredRecord) calls => decode b = .ok r ∧ calls = [])
      fun r hr => ⟨?_, rfl⟩).bind fun r calls h => ?_
    · cases hd : (decode b : Except CodecError StoredRecord) with
      | error x =>
        rw [hd] at hr
        cases hr
      | ok r' =>
        rw [hd] at hr
        cases hr
        rfl
    · obtain ⟨hr, rfl⟩ := h
      exact pure ⟨by simp only [hr]; rfl, rfl⟩

theorem loadMany (keyspace : String) (ids : List String) :
    Yields (Task.loadMany keyspace ids) c fun found calls =>
      found = ids.filterMap (c.stored? keyspace) ∧
        calls = ids.map fun id => .get (Key.record keyspace id) := by
  induction ids with
  | nil => exact pure ⟨rfl, rfl⟩
  | cons id ids ih =>
    refine (load keyspace id).bind fun o calls h => ?_
    obtain ⟨ho, rfl⟩ := h
    cases o with
    | some e =>
      refine ih.bind fun found calls h => pure ?_
      obtain ⟨rfl, rfl⟩ := h
      exact ⟨(List.filterMap_cons_some ho.symm).symm, by simp⟩
    | none =>
      refine (note (Q := fun _ calls => calls = []) rfl).bind fun _ calls h => ?_
      subst h
      refine ih.mono fun found calls h => ?_
      obtain ⟨rfl, rfl⟩ := h
      exact ⟨(List.filterMap_cons_none ho.symm).symm, rfl⟩

theorem resolveField (m : KeyspaceModel) (e : Entity) (r : ReferenceModel) :
    Yields (Task.resolveField m e r) c fun e' calls =>
      (∀ references, calls = (e.follow? (r :: references) r.field).toList) ∧
      (∀ name, name ≠ r.field → e'.get? name = e.get? name) ∧
      ∀ id, e'.get? r.field ≠ some (.ref id) := by
  have hset : ∀ v : Value, (∀ id, v ≠ .ref id) →
      (∀ name, name ≠ r.field → (e.set r.field v).get? name = e.get? name) ∧
        ∀ id, (e.set r.field v).get? r.field ≠ some (.ref id) := by
    intro v hv
    refine ⟨fun name hn => ?_, fun id => ?_⟩
    · rw [Entity.get?, Entity.set, Assoc.lookup_insert, if_neg (Ne.symm hn), Entity.get?]
    · rw [Entity.get?, Entity.set, Assoc.lookup_insert, if_pos rfl]
      exact fun h => hv id (Option.some.inj h)
  unfold Task.resolveField
  split
  · rename_i id hid
    have hcall : ∀ references, [Call.get (Key.record r.target id)] =
        (e.follow? (r :: references) r.field).toList := by
      intro references
      rw [Entity.follow?_of_ref hid, if_pos rfl]
      rfl
    refine (load r.target id).bind fun o calls h => ?_
    obtain ⟨-, rfl⟩ := h
    cases o with
    | some target => exact pure ⟨hcall, hset _ fun _ h => by cases h⟩
    | none =>
      refine (emit (Q := fun _ calls => calls = []) rfl).bind fun _ calls h => ?_
      subst h
      exact pure ⟨hcall, hset _ fun _ h => by cases h⟩
  · rename_i hno
    refine pure ⟨fun references => ?_, fun _ _ => rfl, hno⟩
    rw [Entity.follow?_of_ne hno]
    rfl

theorem resolve (m : KeyspaceModel) (references : List ReferenceModel) (e : Entity) :
    Yields (references.foldlM (Task.resolveField m) e) c fun _ calls =>
      calls = e.follows references := by
  induction references generalizing e with
  | nil => exact pure rfl
  | cons r references ih =>
    rw [List.foldlM_cons]
    refine (resolveField m e r).bind fun e' calls h => ?_
    obtain ⟨hfirst, hsame, hdone⟩ := h
    refine (ih e').mono fun _ calls' hcalls => ?_
    rw [hcalls, hfirst references, Entity.follows_cons hsame hdone]

end Task.Yields

namespace Leaf

variable {keyspace : String} {call : Call}

/-- A leaf is looked up by a scan, which is none for the members of a keyspace: what stands
before its last separator is a word and no separator. -/
theorem scan_of_call? {l : Leaf} (h : l.call? keyspace = some call) :
    ∃ start, call = .scan start ∧ ∀ name, start ≠ Key.membersPrefix name := by
  cases l with
  | eq path value =>
    obtain ⟨token, -, rfl⟩ := Option.map_eq_some_iff.mp h
    refine ⟨_, rfl, fun name hname => ?_⟩
    have hlast := congrArg (fun s : String => s.toList.reverse) hname
    simp [Key.equalityPrefix, Key.membersPrefix] at hlast
  | near path center distance =>
    cases h
    refine ⟨_, rfl, fun name hname => ?_⟩
    have hlast := congrArg (fun s : String => s.toList.reverse) hname
    simp [Key.geoPrefix, Key.membersPrefix] at hlast

theorem Servable.exists_call {m : KeyspaceModel} {l : Leaf} (h : l.Servable m)
    (keyspace : String) : ∃ call, l.call? keyspace = some call := by
  cases l with
  | eq path value =>
    obtain ⟨-, token, ht⟩ := h
    exact ⟨_, Option.map_eq_some_iff.mpr ⟨token, ht, rfl⟩⟩
  | near path center distance => exact ⟨_, rfl⟩

theorem forall₂_calls {m : KeyspaceModel} {asked : List Leaf} (h : ∀ l ∈ asked, l.Servable m) :
    List.Forall₂ (fun l call => l.call? keyspace = some call) asked
      (asked.filterMap (call? keyspace)) := by
  induction asked with
  | nil => exact .nil
  | cons l asked ih =>
    obtain ⟨hl, hasked⟩ := List.forall_mem_cons.mp h
    obtain ⟨call, hcall⟩ := hl.exists_call keyspace
    rw [List.filterMap_cons_some hcall]
    exact .cons hcall (ih hasked)

end Leaf

namespace Content

def Scanned (c : Content) (keyspace : String) (f : Predicate) (calls : List Call) : Prop :=
  ∃ asked, Asked c keyspace f asked ∧ asked.filterMap (Leaf.call? keyspace) = calls

theorem Scanned.unique {c : Content} {keyspace : String} {f : Predicate}
    {calls calls' : List Call} (h : c.Scanned keyspace f calls)
    (h' : c.Scanned keyspace f calls') : calls = calls' := by
  obtain ⟨asked, hasked, rfl⟩ := h
  obtain ⟨asked', hasked', rfl⟩ := h'
  rw [hasked.unique hasked']

/-- The calls after the scans: one for each id, then one for each field that points somewhere in
what is loaded. -/
def fetchCalls (c : Content) (m : KeyspaceModel) (ids : List String) : List Call :=
  ids.map (fun id => .get (Key.record m.name id)) ++
    (ids.filterMap (c.stored? m.name)).flatMap fun e => e.follows m.references

end Content

namespace Task.Yields

variable {c : Content} {db : Database} {q : Query} {p : Plan} {f : Predicate}

theorem pageIds (hf : p.predicate = some f) (hproper : f.Proper) :
    Yields (db.pageIds p) c fun _ calls => c.Scanned p.model.name f calls := by
  have hmatched : Yields (Database.matched p) c fun _ calls => c.Scanned p.model.name f calls := by
    unfold Database.matched
    rw [hf]
    exact (evaluate f hproper).mono fun _ _ h => h.2
  rw [Database.pageIds_eq]
  refine hmatched.bind fun found calls h => ?_
  refine (note (Q := fun _ calls => calls = []) rfl).bind fun _ calls' h' => pure ?_
  rw [h', List.append_nil, List.append_nil]
  exact h

theorem executeIds (hp : db.schema.plan q = .ok p) (hf : p.predicate = some f)
    (hproper : f.Proper) :
    Yields (db.executeIds q) c fun _ calls => c.Scanned p.model.name f calls := by
  rw [Database.executeIds_of_plan hp]
  exact pageIds hf hproper

theorem fetchPage (hf : p.predicate = some f) (hproper : f.Proper) :
    Yields (db.fetchPage p) c fun _ calls => ∃ ids scans, (db.pageIds p).on c = .ok ids ∧
      c.Scanned p.model.name f scans ∧ calls = scans ++ c.fetchCalls p.model ids.ids := by
  refine ((pageIds hf hproper).on (db.reading_pageIds p)).bind fun ids scans h => ?_
  obtain ⟨hids, hscans⟩ := h
  refine (loadMany p.model.name ids.ids).bind fun found calls h => ?_
  obtain ⟨rfl, rfl⟩ := h
  refine (mapM (fun e => resolve p.model p.model.references e) _).bind fun items calls h => ?_
  subst h
  refine pure ⟨ids, scans, hids, hscans, ?_⟩
  rw [List.append_nil]
  rfl

theorem execute (hp : db.schema.plan q = .ok p) (hf : p.predicate = some f)
    (hproper : f.Proper) :
    Yields (db.execute q) c fun _ calls => ∃ ids scans, (db.executeIds q).on c = .ok ids ∧
      c.Scanned p.model.name f scans ∧ calls = scans ++ c.fetchCalls p.model ids.ids := by
  rw [Database.executeIds_of_plan hp, Database.execute_of_plan hp]
  exact (fetchPage hf hproper).spanned

end Task.Yields

/-- Over a healthy backing store with any content, take an accepted query whose predicate has no
empty conjunction. When its ids are found, there was one scan for each leaf that is asked, in
their order, and no other call; leaves are left out only in a conjunction that nothing satisfies
any more. When it is executed, these scans are followed by one call for each id of the page and
one for each declared field of a loaded record that points somewhere. -/
theorem queries_call_what_they_ask (db : Database) (q : Query) (p : Plan) (f : Predicate)
    (hp : db.schema.plan q = .ok p) (hf : q.predicate = some f) (hproper : f.Proper)
    (s : Engine) (hs : s.faults = Faults.none) :
    (∀ ids s', db.executeIds q s = (.ok ids, s') → ∃ asked scans,
      Asked s.content q.keyspace f asked ∧ asked.Sublist f.leafList ∧
      List.Forall₂ (fun l call => l.call? q.keyspace = some call) asked scans ∧
      (∀ call ∈ scans, ∃ start, call = .scan start ∧ ∀ name, start ≠ Key.membersPrefix name) ∧
      s.Made s' scans) ∧
    ∀ page s', db.execute q s = (.ok page, s') → ∃ ids s₁ scans,
      db.executeIds q s = (.ok ids, s₁) ∧ s.Made s₁ scans ∧
      s.Made s' (scans ++ ids.ids.map (fun id => .get (Key.record q.keyspace id)) ++
        (ids.ids.filterMap (s.content.stored? q.keyspace)).flatMap fun e =>
          e.follows p.model.references) := by
  obtain ⟨m, hserves, rfl⟩ := Schema.plan_eq_ok_iff.mp hp
  have hname : m.name = q.keyspace := Schema.name_of_model (Schema.plan_eq_ok hp).1
  have hscanned := Task.Yields.executeIds (c := s.content) hp hf hproper
  have hfetched := Task.Yields.execute (c := s.content) hp hf hproper
  rw [hname] at hscanned hfetched
  refine ⟨fun ids s' hrun => ?_, fun page s' hrun => ?_⟩
  · obtain ⟨-, scans, hmade, asked, hasked, rfl⟩ := hscanned s ids s' rfl hrun
    have hservable : ∀ l ∈ asked, l.Servable m :=
      fun l hl => hserves.leaves f hf l (hasked.sublist.subset hl)
    refine ⟨asked, _, hasked, hasked.sublist, Leaf.forall₂_calls hservable, fun call hcall => ?_,
      hmade⟩
    obtain ⟨l, -, hl⟩ := List.mem_filterMap.mp hcall
    exact Leaf.scan_of_call? hl
  · obtain ⟨-, calls, hmade, ids, scans, hids, hscans, rfl⟩ := hfetched s page s' rfl hrun
    have hfound := ((db.reading_executeIds q).healthy s hs).trans hids
    rcases hrun₁ : db.executeIds q s with ⟨r, s₁⟩
    obtain rfl : r = .ok ids := (congrArg Prod.fst hrun₁).symm.trans hfound
    obtain ⟨-, scans', hmade', hscans'⟩ := hscanned s ids s₁ rfl hrun₁
    obtain rfl := hscans.unique hscans'
    rw [Content.fetchCalls, hname, ← List.append_assoc] at hmade
    exact ⟨ids, s₁, scans, rfl, hmade', hmade⟩

/-- Of three leaves the second is left out, since the first finds nothing, and the third is not. -/
theorem second_leaf_left_out :
    let db : Database := .indexing ["f"] rfl
    let t := (Tracked.fresh Faults.none .none []).replay [(db, .save OrderedEntity.sample)]
    let s : Engine := .holding t.engine.content
    let x : Predicate := .eq "f" (.text "x")
    let f : Predicate := .any [.all [.eq "f" (.text "y"), x], x]
    ∃ asked scans page s', Asked s.content "k" f asked ∧ asked.length = 2 ∧
      List.Forall₂ (fun l call => l.call? "k" = some call) asked scans ∧
      db.execute (.filtered "k" f) s = (.ok page, s') ∧ s.Made s' (scans ++ [.get "k:1"]) := by
  intro db t s x f
  let q : Query := .filtered "k" f
  have hproper : f.Proper := ⟨⟨List.cons_ne_nil _ _, trivial, trivial, trivial⟩, trivial, trivial⟩
  obtain ⟨hids, hpage⟩ := queries_call_what_they_ask db q ⟨⟨"k", ["f"], [], []⟩, some f, none⟩ f
    rfl rfl hproper s rfl
  have hok : (db.execute q s).1.toOption.isSome = true := by decide +kernel
  rcases hrun : db.execute q s with ⟨x | page, s'⟩
  · rw [hrun] at hok
    cases hok
  · obtain ⟨ids, s₁, scans, hrun₁, hmade, hmade'⟩ := hpage page s' hrun
    obtain ⟨asked, scans', hasked, -, hcalls, -, hmade₁⟩ := hids ids s₁ hrun₁
    obtain rfl := hmade.unique hmade₁
    have hfound : (db.executeIds q s).1.toOption = some ⟨["1"], 1⟩ := by decide +kernel
    have hcount : ((db.executeIds q s).2.journal.filterMap Activity.call?).length = 2 := by
      decide +kernel
    rw [hrun₁] at hfound hcount
    obtain rfl : ids = ⟨["1"], 1⟩ := Option.some.inj hfound
    have hscans : scans = (s₁.journal.filterMap Activity.call?).reverse :=
      hmade.unique ⟨s₁.journal, (List.append_nil _).symm, rfl⟩
    have hlength : asked.length = 2 := by
      rw [hcalls.length_eq, hscans, List.length_reverse, hcount]
    have hnone : (["1"].filterMap (s.content.stored? "k")).flatMap (·.follows []) = [] :=
      List.flatMap_eq_nil_iff.mpr fun _ _ => rfl
    refine ⟨asked, scans, page, s', hasked, hlength, hcalls, rfl, ?_⟩
    rw [show q.keyspace = "k" from rfl, hnone, List.append_nil] at hmade'
    exact hmade'

end IndexedStore
